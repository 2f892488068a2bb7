/-!
# Doubles and the exact number line

A binary64 number is read here as an exact place on the number line: not a number, one of the two
ends, or a rational.  Comparisons go through these places, so that integers of any size, doubles and
fractions compare without rounding.

In the other direction `Double.nearest` rounds an exact rational once, to the nearest double, a tie
going to the even neighbour.  Reading decimals and converting integers are instances of it.
-/

namespace TypeNotation

-- powers are those of the core library, whatever else is imported
attribute [local instance (10000)] instPowNat

/-- Where a number stands: at no place, at one of the two ends of the line, or at a rational. -/
inductive Place where
  | nan
  | below
  | at (q : Rat)
  | above
  deriving DecidableEq

namespace Place

/-- One place lies strictly left of another.  A number without a place lies left of nothing, and
nothing lies left of it. -/
def isLeftOf : Place → Place → Bool
  | .below, .at _ => true
  | .below, .above => true
  | .at p, .at q => decide (p < q)
  | .at _, .above => true
  | _, _ => false

/-- Three-way comparison.  A number without a place is neither less nor greater than any other. -/
def compare (p q : Place) : Ordering :=
  if p.isLeftOf q then .lt else if q.isLeftOf p then .gt else .eq

end Place

/-- The quotient of two natural numbers rounded to the nearest, a half going to the even side. -/
def roundQuotient (num den : Nat) : Nat :=
  let q := num / den
  let r := num % den
  if 2 * r < den then q
  else if 2 * r = den then (if q % 2 = 0 then q else q + 1)
  else q + 1

namespace Double

/-- The parts of the bit pattern: sign, biased exponent and fraction. -/
structure Parts where
  negative : Bool
  exponent : Nat
  fraction : Nat
  deriving DecidableEq

/-- Split the bit pattern of a double. -/
def parts (x : Float) : Parts :=
  let bits := x.toBits.toNat
  ⟨decide (2 ^ (63 : Nat) ≤ bits), bits / 2 ^ (52 : Nat) % 2048, bits % 2 ^ (52 : Nat)⟩

/-- The significand of a finite double, with the leading bit of the normal ones. -/
def Parts.significand (p : Parts) : Nat :=
  if p.exponent = 0 then p.fraction else p.fraction + 2 ^ (52 : Nat)

/-- The power of two by which the significand of a finite double is multiplied. -/
def Parts.scale (p : Parts) : Int :=
  (max p.exponent 1 : Nat) - 1075

/-- The rational `m * 2 ^ e`. -/
def dyadic (m : Int) (e : Int) : Rat :=
  if 0 ≤ e then (m * 2 ^ e.toNat : Int) else mkRat m (2 ^ (-e).toNat)

/-- The exact place of a double. -/
def place (x : Float) : Place :=
  let p := parts x
  if p.exponent = 2047 then
    if p.fraction ≠ 0 then .nan else if p.negative then .below else .above
  else
    let m : Int := p.significand
    .at (dyadic (if p.negative then -m else m) p.scale)

/-- Positive infinity. -/
def infinity : Float := Float.ofBits 0x7FF0000000000000

/-- The number that is not a number. -/
def nan : Float := Float.ofBits 0x7FF8000000000000

/-- The bit pattern of the double nearest to `num / den`, both positive.  The pattern of a magnitude
is the significand counted on from the pattern of its exponent, so that a carry out of the
significand lands in the exponent, and whatever is too large becomes the pattern of infinity. -/
def magnitudeBits (num den : Nat) : Nat :=
  let estimate : Int := (num.log2 : Int) - den.log2 - 52
  let scaled (e : Int) : Nat × Nat :=
    if 0 ≤ e then (num, den * 2 ^ e.toNat) else (num * 2 ^ (-e).toNat, den)
  let (n, d) := scaled estimate
  let e := max (if n / d < 2 ^ (52 : Nat) then estimate - 1 else estimate) (-1074)
  let (n, d) := scaled e
  min ((e + 1074).toNat * 2 ^ (52 : Nat) + roundQuotient n d) 0x7FF0000000000000

/-- The double nearest to a rational.  Magnitudes beyond the largest double become infinite. -/
def nearest (q : Rat) : Float :=
  if q.num = 0 then 0
  else
    let bits := magnitudeBits q.num.natAbs q.den
    Float.ofBits (.ofNat (if q.num < 0 then 2 ^ (63 : Nat) + bits else bits))

/-- The double nearest to the decimal `digits * 10 ^ exponent`.  Exponents far beyond the range of
doubles are decided without forming the power. -/
def ofDecimal (digits : Nat) (exponent : Int) : Float :=
  let size : Int := exponent + digits.log2 / 3
  if digits = 0 then 0
  else if 400 < exponent then infinity
  else if size < -400 then 0
  else if 0 ≤ exponent then nearest (digits * 10 ^ exponent.toNat : Nat)
  else nearest (mkRat digits (10 ^ (-exponent).toNat))

/-- Whether a double is a whole odd number. -/
def isOdd (x : Float) : Bool :=
  match place x with
  | .at q => decide (q.den = 1 ∧ q.num % 2 = 1)
  | _ => false

end Double

end TypeNotation
