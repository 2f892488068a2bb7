import TypeNotation.Number.Basic

/-!
# Powers and logarithms

Powers and logarithms of numbers as the floating-point standard defines them, with two ways to fail:
a *domain* fault where no real value exists and an *overflow* where a finite operation leaves the
range of doubles.

A power of two integers with a natural exponent is exact as long as its bits stay within
`exactBits`; any other power is a double.  A power that is too large, or so small that it would
round to zero, has no computed value.
-/

namespace TypeNotation

-- powers are those of the core library, whatever else is imported
attribute [local instance (10000)] instPowNat

/-- Why an operation on numbers has no result. -/
inductive ArithmeticFault where
  | domain
  | overflow
  deriving DecidableEq, Repr

namespace Double

/-- The power of two doubles of which one at least is not finite.  This never fails. -/
def limitPower (x y : Float) : Float :=
  let zero := (0 : Float)
  match place x, place y with
  | .nan, _ => if y == 0 then 1 else x
  | _, .nan => if x == 1 then 1 else y
  | .below, _ =>
    if y > 0 then (if isOdd y then x else -x)
    else if y == 0 then 1
    else if isOdd y then -zero else zero
  | .above, _ => if y > 0 then x else if y == 0 then 1 else zero
  | _, .above => if x.abs == 1 then 1 else if x.abs > 1 then infinity else zero
  | _, .below => if x.abs == 1 then 1 else if x.abs < 1 then infinity else zero
  | _, _ => x.pow y

/-- The power of two doubles.  A negative base needs a whole exponent and zero one that is not
negative; a finite power that is not representable overflows. -/
def power (x y : Float) : Except ArithmeticFault Float :=
  if x.isFinite && y.isFinite then
    let r := x.pow y
    if r.isNaN then .error .domain
    else if r.isInf then .error (if x == 0 then .domain else .overflow)
    else .ok r
  else .ok (limitPower x y)

/-- A logarithm, which only positive numbers have.  What is not a number is its own logarithm. -/
def logarithm (log : Float → Float) (x : Float) : Except ArithmeticFault Float :=
  if x.isNaN || x > 0 then .ok (log x) else .error .domain

/-- The logarithm of a positive integer beyond the range of doubles, from its mantissa `m` with
`1/2 ≤ m < 1` and its exponent. -/
def largeLogarithm (log : Float → Float) (n : Nat) : Float :=
  let size := n.log2 + 1
  let m := nearest (mkRat n (2 ^ size))
  let (m, size) := if m == 1 then (0.5, size + 1) else (m, size)
  log m + log 2 * nearest size

end Double

namespace Number

/-- The logarithm of a number.  Integers have one at any size; a fraction is rounded to a double
first. -/
def logarithm (log : Float → Float) : Number → Except ArithmeticFault Float
  | .int i =>
    if i ≤ 0 then .error .domain
    else match (int i).toDouble? with
      | some x => .ok (log x)
      | none => .ok (Double.largeLogarithm log i.toNat)
  | x =>
    match x.toDouble? with
    | some x => Double.logarithm log x
    | none => .error .overflow

/-- Powers whose exact value would take more bits than this have no computed value. -/
def exactBits : Float := 4096

/-- The exact power of an integer.  For the bases 0, 1 and -1 the size of the exponent does not
matter. -/
def intPower (b : Int) (e : Nat) : Int :=
  if b.natAbs ≤ 1 then (if e = 0 then 1 else if e % 2 = 1 then b else b * b) else b ^ e

/-- The power of two numbers as a double, or nothing when it is too large or too small for one. -/
def doublePower (b e : Number) : Except ArithmeticFault (Option Number) :=
  match b.toDouble?, e.toDouble? with
  | some x, some y =>
    match Double.power x y with
    | .error .overflow => .ok none
    | .error .domain => .error .domain
    | .ok r =>
      if r == 0 && !b.isZero && x.isFinite && y.isFinite then .ok none else .ok (some (.double r))
  | _, _ => .ok none

/-- The power of two numbers: exact for integers, a double otherwise, and nothing when the value is
too large to compute or so small that it would round to zero. -/
def power : Number → Number → Except ArithmeticFault (Option Number)
  | .int b, .int e =>
    if e < 0 then doublePower (.int b) (.int e)
    else if 1 < b.natAbs then
      match (int e).toDouble?, logarithm Float.log2 (.int b.natAbs) with
      | some count, .ok bits =>
        if count * bits > exactBits then .ok none else .ok (some (.int (intPower b e.toNat)))
      | none, _ => .error .overflow
      | _, .error fault => .error fault
    else .ok (some (.int (intPower b e.toNat)))
  | b, e => doublePower b e

end Number

end TypeNotation
