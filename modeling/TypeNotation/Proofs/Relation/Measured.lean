import TypeNotation.Proofs.Number.Measure
import TypeNotation.Proofs.Relation.Descent

/-!
# Matching against numbers that are not computed

Where matching ends at a number or an interval, it compares numbers.  That fails only if one of them
is a power that is not computed and either has no measure.  So matching fails nowhere if the powers
that are not computed have measures, and so have the numbers in the value, as far as there are such
powers.
-/

namespace TypeNotation

open TypeExpr Query

namespace Value

/-- A value that matching may come to when it takes another apart. -/
inductive Occurs (w : Value) : Value → Prop
  | refl : Occurs w w
  | component {u v : Value} (hu : u ∈ v.components) (h : Occurs w u) : Occurs w v

/-- A value whose numbers have measures, except for what is not a number. -/
def Measured (v : Value) : Prop :=
  ∀ x, Occurs (.number x) v → x.isNaN = false → x.Measured

lemma Measured.component {v w : Value} (hv : v.Measured) (hw : w ∈ v.components) : w.Measured :=
  fun x hx => hv x (.component hw hx)

end Value

namespace Matcher

variable {n low high : Numeral} {v : Value}

/-- A number can be compared with a numeral that can be evaluated, either way around, if both have
measures where the numeral is not computed. -/
lemma exists_compare (evaluated : n.Evaluated) (measured : n.Symbolic → n.Measured) {x : Number}
    (hx : n.Symbolic → x.Measured) :
    (∃ o, (Numeral.literal none x).compare n = .ok o) ∧
      ∃ o, n.compare (.literal none x) = .ok o := by
  have literal := Numeral.evaluated_literal none x
  have other := Numeral.not_symbolic_literal none x
  constructor
  · refine Numeral.exists_compare_iff.2 ⟨literal, evaluated, fun h => ?_⟩
    have symbolic := h.resolve_left other
    exact ⟨hx symbolic, measured symbolic⟩
  · refine Numeral.exists_compare_iff.2 ⟨evaluated, literal, fun h => ?_⟩
    have symbolic := h.resolve_right other
    exact ⟨measured symbolic, hx symbolic⟩

lemma exists_holdsNumeral (evaluated : n.Evaluated) (measured : n.Symbolic → n.Measured)
    (hv : n.Symbolic → v.Measured) : ∃ r, holdsNumeral v n = .ok r := by
  cases v with
  | number x =>
    cases n with
    | literal p y => exact ⟨_, rfl⟩
    | power p base exponent =>
      simp only [holdsNumeral]
      cases hnan : x.isNaN with
      | true => exact ⟨false, rfl⟩
      | false =>
        obtain ⟨⟨o, ho⟩, -⟩ := exists_compare evaluated measured fun h => hv h x .refl hnan
        rw [ho]
        exact ⟨_, rfl⟩
  | _ => exact ⟨false, rfl⟩

/-- Matching a number without a measure against a power that is not computed fails. -/
lemma holdsNumeral_eq_error {x : Number} {fault : ArithmeticFault} (hnan : x.isNaN = false)
    (hx : x.scale = .error fault) (symbolic : n.Symbolic) :
    holdsNumeral (.number x) n = .error (.arithmetic fault) := by
  cases n with
  | literal p y => exact absurd symbolic (Numeral.not_symbolic_literal p y)
  | power p base exponent =>
    simp only [holdsNumeral, hnan, Bool.false_eq_true, if_false]
    rw [Numeral.compare_literal_eq_error hx symbolic]
    rfl

lemma exists_holdsInterval (hlow : low.Evaluated) (hhigh : high.Evaluated)
    (measured : low.Symbolic → low.Measured) (measured' : high.Symbolic → high.Measured)
    (hv : low.Symbolic ∨ high.Symbolic → v.Measured) : ∃ r, holdsInterval v low high = .ok r := by
  cases v with
  | number x =>
    simp only [holdsInterval]
    cases hnan : x.isNaN with
    | true => exact ⟨false, rfl⟩
    | false =>
      obtain ⟨-, o, ho⟩ := exists_compare hlow measured fun h => hv (.inl h) x .refl hnan
      obtain ⟨⟨o', ho'⟩, -⟩ := exists_compare hhigh measured' fun h => hv (.inr h) x .refl hnan
      rw [ho, ho']
      cases o <;> exact ⟨_, rfl⟩
  | _ => exact ⟨false, rfl⟩

/-- Matching ends with an answer at the resolved types of a set, if all powers of the set that are
not computed have measures, for values whose numbers have measures if there is such a power. -/
lemma ends_measured {K : TypeExpr → Prop} {L : Nodes} {classed : Prop}
    (plain : classed → ∀ {t}, K t → t.PlainFields)
    (part : ∀ {t u}, K t → t.isReferring = false → u ∈ t.valueParts → K u)
    (settled : ∀ {t}, K t → t.Settled L)
    (measured : ∀ {n}, K (.number n) → n.Symbolic → n.Measured) :
    Ends Halt.Never K fun v =>
      v.Ordinary classed ∧ ((∃ n, K (.number n) ∧ n.Symbolic) → v.Measured) where
  component hv hw := ⟨hv.1.component hw, fun symbolic => (hv.2 symbolic).component hw⟩
  own ht hv := own_of_plain plain ht hv.1
  number {n v} hn hv := by
    have hv := hv.2
    obtain ⟨r, hr⟩ := exists_holdsNumeral (settled hn) (measured hn) fun h => hv ⟨n, hn, h⟩
    rw [hr]
    trivial
  interval {m low high v} ht hv := by
    have hv := hv.2
    have hlow : K (.number low) := part ht rfl (by simp [valueParts, parts])
    have hhigh : K (.number high) := part ht rfl (by simp [valueParts, parts])
    have numbers : low.Symbolic ∨ high.Symbolic → v.Measured := by
      rintro (h | h)
      · exact hv ⟨low, hlow, h⟩
      · exact hv ⟨high, hhigh, h⟩
    obtain ⟨r, hr⟩ := exists_holdsInterval (settled hlow) (settled hhigh) (measured hlow)
      (measured hhigh) numbers
    rw [hr]
    trivial
  reference ht := settled ht

end Matcher

end TypeNotation
