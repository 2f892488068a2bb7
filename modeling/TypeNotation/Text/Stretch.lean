/-!
# Stretches of code points

A property of characters is written down as the list of the stretches of code points that have it.
A stretch has a first and a last code point and a step, so that scripts which alternate upper and
lower case take one entry instead of dozens.
-/

namespace TypeNotation.Text

/-- The code points from `first` to `last`, every `step`-th of them. -/
structure Stretch where
  first : Nat
  last : Nat
  step : Nat
  deriving DecidableEq, Repr

namespace Stretch

/-- A code point belongs to a stretch when it lies between the ends and on the step. -/
def holds (s : Stretch) (code : Nat) : Bool :=
  decide (s.first ≤ code) && decide (code ≤ s.last) && (code - s.first) % s.step == 0

/-- How far a code point lies behind the start of the first stretch that holds it. -/
def offset? (stretches : List Stretch) (code : Nat) : Option Nat :=
  (stretches.find? (·.holds code)).map fun s => code - s.first

theorem holds_iff {s : Stretch} {code : Nat} :
    s.holds code = true ↔ s.first ≤ code ∧ code ≤ s.last ∧ (code - s.first) % s.step = 0 := by
  simp [holds, and_assoc]

end Stretch

/-- Whether some stretch of a table holds the character. -/
def within (stretches : List Stretch) (c : Char) : Bool :=
  stretches.any (·.holds c.toNat)

end TypeNotation.Text
