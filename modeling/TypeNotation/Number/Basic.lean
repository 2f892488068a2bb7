import TypeNotation.Number.Double

/-!
# Numbers

The numbers of the notation are exact integers and doubles; values may also be exact fractions.  Two
numbers are compared by their exact places, never by rounding one to the kind of the other.
-/

namespace TypeNotation

-- powers are those of the core library, whatever else is imported
attribute [local instance (10000)] instPowNat

/-- An exact integer, a double or an exact fraction. -/
inductive Number where
  | int (value : Int)
  | double (value : Float)
  | fraction (value : Rat)
  deriving DecidableEq

namespace Number

instance : Inhabited Number := ⟨.int 0⟩

/-- The exact place of a number. -/
def place : Number → Place
  | .int i => .at i
  | .double x => Double.place x
  | .fraction q => .at q

/-- Whether this is the double that is not a number. -/
def isNaN (x : Number) : Bool :=
  x.place = .nan

/-- Two numbers are the same when they stand at the same place.  An integer may be the same as a
double, the two zeros are the same, and what is not a number is the same as itself. -/
def same (x y : Number) : Bool :=
  x.place = y.place

/-- Three-way comparison by place. -/
def compare (x y : Number) : Ordering :=
  x.place.compare y.place

/-- Sign of a number: positive, zero or neither. -/
def isPositive (x : Number) : Bool :=
  x.compare (.int 0) = .gt

/-- Whether a number is zero, of either sign. -/
def isZero (x : Number) : Bool :=
  x.same (.int 0)

/-- Whether a number is one of the two infinities. -/
def isInfinite (x : Number) : Bool :=
  match x.place with
  | .below | .above => true
  | _ => false

/-- The number without its sign. -/
def abs : Number → Number
  | .int i => .int i.natAbs
  | .double x => .double (Float.ofBits (.ofNat (x.toBits.toNat % 2 ^ (63 : Nat))))
  | .fraction q => .fraction (if q < 0 then -q else q)

/-- The number with its sign reversed. -/
def neg : Number → Number
  | .int i => .int (-i)
  | .double x => .double (-x)
  | .fraction q => .fraction (-q)

/-- The double nearest to a number, unless a finite number is too large for one. -/
def toDouble? : Number → Option Float
  | .double x => some x
  | .int i => bounded (Double.nearest i)
  | .fraction q => bounded (Double.nearest q)
where
  bounded (x : Float) : Option Float :=
    match Double.place x with
    | .at _ => some x
    | _ => none

theorem same_refl (x : Number) : x.same x = true := by simp [same]

theorem same_comm (x y : Number) : x.same y = y.same x := by
  simp only [same, eq_comm]

end Number

end TypeNotation
