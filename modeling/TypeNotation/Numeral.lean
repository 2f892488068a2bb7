import TypeNotation.Position
import TypeNotation.Number.Decimal
import TypeNotation.Number.Power

/-!
# Numerals

A numeral is a literal or a power of numerals.  The value of a power is computed on demand; a power
that is too large to compute stays *symbolic* and is compared through its sign and the logarithm of
its magnitude.
-/

namespace TypeNotation

/-- A number as it is written: a literal or a power. -/
inductive Numeral where
  | literal (position : Option Position) (value : Number)
  | power (position : Option Position) (base exponent : Numeral)
  deriving DecidableEq

/-- A measure that orders numbers too large to compute: the sign, then the signed logarithm of the
magnitude. -/
structure LogScale where
  sign : Int
  log : Float

namespace LogScale

/-- Three-way comparison, sign first. -/
def compare (a b : LogScale) : Ordering :=
  if a.sign < b.sign then .lt
  else if b.sign < a.sign then .gt
  else if a.log < b.log then .lt
  else if b.log < a.log then .gt
  else .eq

/-- Whether one measure comes strictly before another. -/
def before (a b : LogScale) : Bool :=
  a.compare b = .lt

/-- The measure of a number with the given sign and logarithm of its magnitude. -/
def ofLog (sign : Int) (log : Float) : LogScale :=
  ⟨sign, if 0 < sign then log else -log⟩

end LogScale

namespace Number

/-- The measure of a number. -/
def scale (x : Number) : Except ArithmeticFault LogScale := do
  if x.isZero then return ⟨0, 0⟩
  if x.toDouble?.isNone then throw .overflow
  if x.isInfinite then return ⟨if x.isPositive then 2 else -2, 0⟩
  let log ← x.abs.logarithm Float.log10
  return .ofLog (if x.isPositive then 1 else -1) log

end Number

namespace Numeral

/-- The position a numeral was read from. -/
def position : Numeral → Option Position
  | literal p _ => p
  | power p _ _ => p

/-- Whether this is the literal that is not a number. -/
def isNaN : Numeral → Bool
  | literal _ x => x.isNaN
  | power .. => false

/-- Structural equality.  Positions do not count, and literals are compared by value. -/
def same : Numeral → Numeral → Bool
  | literal _ x, literal _ y => x.same y
  | power _ b e, power _ b' e' => b.same b' && e.same e'
  | _, _ => false

/-- The value of a numeral, or nothing for a power that is not computed. -/
def value? : Numeral → Except ArithmeticFault (Option Number)
  | literal _ x => .ok (some x)
  | power _ base exponent => do
    match ← base.value?, ← exponent.value? with
    | some b, some e => b.power e
    | _, _ => return none

/-- The sign of a number that is the base of a power with the given exponent.  A negative base needs
an integer exponent, whose parity decides. -/
def signOfPower (positive zero : Bool) (exponent : Option Number) : Except ArithmeticFault Int :=
  if positive then .ok 1
  else if zero then .ok 0
  else match exponent with
    | some (.int e) => .ok (if e % 2 = 0 then 1 else -1)
    | _ => .error .domain

/-- The sign of a numeral. -/
def sign : Numeral → Except ArithmeticFault Int
  | literal _ x => .ok (if x.isPositive then 1 else if x.isZero then 0 else -1)
  | power _ base exponent => do
    let b ← base.value?
    let e ← exponent.value?
    match b with
    | some b => signOfPower b.isPositive b.isZero e
    | none =>
      let s ← base.sign
      signOfPower (decide (0 < s)) (decide (s = 0)) e

/-- The decimal logarithm of the magnitude of a numeral; that of zero is negative infinity. -/
def log10 : Numeral → Except ArithmeticFault Float
  | literal _ x => if x.isZero then .ok (-Double.infinity) else x.abs.logarithm Float.log10
  | power _ base exponent => do
    let log ← base.log10
    match ← exponent.value? with
    | some e =>
      match e.toDouble? with
      | some y => return log * y
      | none => return if log > 0 then Double.infinity else -Double.infinity
    | none =>
      let s ← exponent.sign
      return log * (if 0 < s then Double.infinity else -Double.infinity)

/-- The measure of a numeral whose value, if computed, is at hand. -/
def scaleWith (x : Numeral) : Option Number → Except ArithmeticFault LogScale
  | some v => v.scale
  | none => do
    let s ← x.sign
    return .ofLog s (← x.log10)

/-- The measure of a numeral. -/
def scale (x : Numeral) : Except ArithmeticFault LogScale := do
  x.scaleWith (← x.value?)

/-- Three-way comparison of numerals: by value when both are computed, by measure otherwise. -/
def compare (x y : Numeral) : Except ArithmeticFault Ordering := do
  match ← x.value?, ← y.value? with
  | some a, some b => return a.compare b
  | a, b =>
    let s ← x.scaleWith a
    let t ← y.scaleWith b
    return s.compare t

/-- The text of a numeral.  A base that is itself a power stands in parentheses. -/
def text : Numeral → String
  | literal _ x => x.numeral
  | power _ base exponent =>
    let b := match base with
      | literal .. => base.text
      | power .. => "(" ++ base.text ++ ")"
    b ++ "^" ++ exponent.text

end Numeral

end TypeNotation
