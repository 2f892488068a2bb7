import TypeNotation.Number.Basic

/-!
# Decimal text of numbers

A double is written with the fewest digits that read back as the same double; of two shortest
candidates the nearer is taken, and a tie goes to the even one.  The candidates are the two
neighbours of the exact value on the decimal grid with 1, 2, …, 17 digits, tested in exact
arithmetic against the interval of reals that round to the double.

`Number.numeral` lays the digits out in the notation's own way: never an exponent, always a point.
`Number.display` is the layout used for values: an exponent for the very large and the very small.
-/

namespace TypeNotation

-- powers are those of the core library, whatever else is imported
attribute [local instance (10000)] instPowNat

/-- A decimal: the digits, read as a natural number, times a power of ten. -/
structure Decimal where
  digits : Nat
  exponent : Int
  deriving DecidableEq

namespace Decimal

/-- The digits of a natural number, the leading one first. -/
def digitsOf (n : Nat) : List Char :=
  Nat.toDigits 10 n

/-- The text of a natural number. -/
def digitText (n : Nat) : String :=
  String.ofList (digitsOf n)

/-- Drop the zeros at the end of the digits; the value stays. -/
def strip : Nat → Decimal → Decimal
  | 0, d => d
  | fuel + 1, d =>
    if d.digits ≠ 0 ∧ d.digits % 10 = 0 then strip fuel ⟨d.digits / 10, d.exponent + 1⟩ else d

/-- The interval of reals that round to a double, over a common denominator, with the double itself
in the middle.  The ends belong to it when the significand is even. -/
structure RoundingInterval where
  low : Nat
  middle : Nat
  high : Nat
  den : Nat
  closed : Bool

/-- The interval of reals that round to the positive double `m * 2 ^ e`.  Below a power of two the
next double is only half as far away. -/
def RoundingInterval.of (m : Nat) (e : Int) : RoundingInterval :=
  let up := 2 ^ e.toNat
  let low := if m = 2 ^ (52 : Nat) ∧ -1074 < e then 4 * m - 1 else 4 * m - 2
  ⟨low * up, 4 * m * up, (4 * m + 2) * up, 4 * 2 ^ (-e).toNat, m % 2 = 0⟩

/-- Whether the decimal `c * 10 ^ p` lies in the interval. -/
def RoundingInterval.holds (i : RoundingInterval) (c : Nat) (p : Int) : Bool :=
  let x := c * 10 ^ p.toNat * i.den
  let unit := 10 ^ (-p).toNat
  if i.closed then decide (i.low * unit ≤ x ∧ x ≤ i.high * unit)
  else decide (i.low * unit < x ∧ x < i.high * unit)

/-- The shortest decimal on the grid of multiples of `10 ^ p`, if a neighbour of the middle on that
grid lies in the interval. -/
def RoundingInterval.onGrid? (i : RoundingInterval) (p : Int) : Option Decimal :=
  let num := i.middle * 10 ^ (-p).toNat
  let den := i.den * 10 ^ p.toNat
  let c := num / den
  let lower := c ≠ 0 ∧ i.holds c p
  let upper := i.holds (c + 1) p
  let nearerIsUpper := 2 * num > (2 * c + 1) * den ∨ (2 * num = (2 * c + 1) * den ∧ c % 2 = 1)
  if lower ∧ upper then some ⟨if nearerIsUpper then c + 1 else c, p⟩
  else if lower then some ⟨c, p⟩
  else if upper then some ⟨c + 1, p⟩
  else none

/-- The shortest decimal that reads back as the positive double `m * 2 ^ e`. -/
def shortest (m : Nat) (e : Int) : Decimal :=
  let i := RoundingInterval.of m e
  let leading : Int := (digitsOf (i.middle * 10 ^ (330 : Nat) / i.den)).length - 330
  let found := (List.range 17).findSome? fun n => i.onGrid? (leading - (n + 1 : Nat))
  strip 20 (found.getD ⟨i.middle * 10 ^ (330 : Nat) / i.den, -330⟩)

/-- A decimal without an exponent: the point stands after, inside or before the digits. -/
def positional (d : Decimal) : String :=
  let ds := digitsOf d.digits
  let places := (-d.exponent).toNat
  let zeros (n : Nat) : List Char := List.replicate n '0'
  String.ofList <|
    if 0 ≤ d.exponent then ds ++ zeros d.exponent.toNat ++ ['.', '0']
    else if places < ds.length then
      ds.take (ds.length - places) ++ '.' :: ds.drop (ds.length - places)
    else '0' :: '.' :: zeros (places - ds.length) ++ ds

/-- The power of ten of the leading digit. -/
def leadingPower (d : Decimal) : Int :=
  d.exponent + (digitsOf d.digits).length - 1

/-- A decimal with an exponent of at least two digits. -/
def scientific (d : Decimal) : String :=
  let power := d.leadingPower
  let size := digitsOf power.natAbs
  let mantissa := match digitsOf d.digits with
    | c :: c' :: rest => c :: '.' :: c' :: rest
    | ds => ds
  String.ofList (mantissa ++ 'e' :: (if power < 0 then '-' else '+') ::
    (if size.length < 2 then '0' :: size else size))

end Decimal

namespace Number

/-- The text of an integer. -/
def intText (i : Int) : String :=
  if i < 0 then "-" ++ Decimal.digitText i.natAbs else Decimal.digitText i.natAbs

/-- The text of a fraction: numerator and denominator in lowest terms. -/
def fractionText (q : Rat) : String :=
  if q.den = 1 then intText q.num else intText q.num ++ "/" ++ Decimal.digitText q.den

/-- The text of a finite double under a layout of its shortest decimal. -/
def doubleText (layout : Decimal → String) (x : Float) : String :=
  let p := Double.parts x
  let text := if p.significand = 0 then "0.0" else layout (Decimal.shortest p.significand p.scale)
  if p.negative then "-" ++ text else text

/-- The text of a number in the notation. -/
def numeral : Number → String
  | .int i => intText i
  | .fraction q => fractionText q
  | .double x =>
    match Double.place x with
    | .nan => "nan"
    | .below => "-infinity"
    | .above => "+infinity"
    | .at _ => doubleText Decimal.positional x

/-- The layout of a double among values: positional between `10 ^ -4` and `10 ^ 16`. -/
def displayLayout (d : Decimal) : String :=
  if -4 ≤ d.leadingPower ∧ d.leadingPower < 16 then d.positional else d.scientific

/-- The text of a number among values. -/
def display : Number → String
  | .int i => intText i
  | .fraction q => "Fraction(" ++ intText q.num ++ ", " ++ Decimal.digitText q.den ++ ")"
  | .double x =>
    match Double.place x with
    | .nan => "nan"
    | .below => "-inf"
    | .above => "inf"
    | .at _ => doubleText displayLayout x

example : (Number.double 0.1).numeral = "0.1" := by decide +kernel
example : (Number.double 1e22).numeral = "10000000000000000000000.0" := by decide +kernel
example : (Number.double 1.5e-7).numeral = "0.00000015" := by decide +kernel
example : (Number.double (-0.0)).numeral = "-0.0" := by decide +kernel
example : (Number.double 1e16).display = "1e+16" := by decide +kernel
example : (Number.double (Float.ofBits 1)).display = "5e-324" := by decide +kernel
example : (Number.double (Float.ofBits 0x3E60000000000000)).display = "2.9802322387695312e-08" := by
  decide +kernel

end Number

end TypeNotation
