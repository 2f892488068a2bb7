import TypeNotation.Numeral
import TypeNotation.Proofs.Answer

/-!
# Measures

Numerals are compared by value, unless one of them is a power that is not computed.  Then both are
compared by measure, and the comparison fails if one of them has none.  An integer beyond the range
of doubles has no measure, nor has a fraction that would be rounded to zero, nor a power that is not
computed and whose base is negative while its exponent is not an exact integer.
-/

namespace TypeNotation

namespace Number

/-- A number that has a measure. -/
def Measured (x : Number) : Prop :=
  ∃ s, x.scale = .ok s

lemma measured_iff_isOk {x : Number} : x.Measured ↔ x.scale.isOk := by
  unfold Measured
  cases x.scale <;> simp [Except.isOk, Except.toBool]

/-- A number that is too large for a double has no measure. -/
lemma scale_eq_overflow {x : Number} (nonzero : x.isZero = false) (large : x.toDouble?.isNone) :
    x.scale = .error .overflow := by
  simp only [scale, nonzero, Bool.false_eq_true, if_false, large, if_true]
  rfl

end Number

namespace Numeral

variable {x y : Numeral}

/-- A numeral that can be evaluated: it has a value, or it is a power that is not computed. -/
def Evaluated (x : Numeral) : Prop :=
  ∃ v, x.value? = .ok v

/-- A power that is not computed. -/
def Symbolic (x : Numeral) : Prop :=
  x.value? = .ok none

/-- A numeral that has a measure. -/
def Measured (x : Numeral) : Prop :=
  ∃ s, x.scale = .ok s

lemma evaluated_literal (p : Option Position) (v : Number) : (literal p v).Evaluated :=
  ⟨some v, rfl⟩

lemma not_symbolic_literal (p : Option Position) (v : Number) : ¬ (literal p v).Symbolic := by
  intro h
  cases h

lemma measured_iff_isOk : x.Measured ↔ x.scale.isOk := by
  unfold Measured
  cases x.scale <;> simp [Except.isOk, Except.toBool]

/-- The parts of a power that can be evaluated can be evaluated. -/
lemma Evaluated.power {p : Option Position} (h : (Numeral.power p x y).Evaluated) :
    x.Evaluated ∧ y.Evaluated := by
  obtain ⟨v, hv⟩ := h
  rw [value?] at hv
  obtain ⟨a, ha, hv⟩ := bind_eq_ok.1 hv
  obtain ⟨b, hb, -⟩ := bind_eq_ok.1 hv
  exact ⟨⟨a, ha⟩, b, hb⟩

lemma scale_eq {v : Option Number} (hv : x.value? = .ok v) : x.scale = x.scaleWith v := by
  rw [scale, hv]
  rfl

/-- Two numerals are compared by value where both are computed, and otherwise by measure. -/
lemma compare_eq_ok {o : Ordering} : x.compare y = .ok o ↔
    (∃ a b, x.value? = .ok (some a) ∧ y.value? = .ok (some b) ∧ o = a.compare b) ∨
      (x.Symbolic ∨ y.Symbolic) ∧ ∃ s t, x.scale = .ok s ∧ y.scale = .ok t ∧ o = s.compare t := by
  have byMeasure {a b : Option Number} (ha : x.value? = .ok a) (hb : y.value? = .ok b) :
      (do
          let s ← x.scaleWith a
          let t ← y.scaleWith b
          return s.compare t : Except ArithmeticFault Ordering) = .ok o ↔
        ∃ s t, x.scale = .ok s ∧ y.scale = .ok t ∧ o = s.compare t := by
    rw [scale_eq ha, scale_eq hb]
    simp only [bind_eq_ok, pure_eq_ok]
    constructor
    · rintro ⟨s, hs, t, ht, rfl⟩
      exact ⟨s, t, hs, ht, rfl⟩
    · rintro ⟨s, t, hs, ht, rfl⟩
      exact ⟨s, hs, t, ht, rfl⟩
  constructor
  · intro h
    rw [compare] at h
    obtain ⟨a, ha, h⟩ := bind_eq_ok.1 h
    obtain ⟨b, hb, h⟩ := bind_eq_ok.1 h
    rcases a with _ | a
    · exact .inr ⟨.inl ha, (byMeasure ha hb).1 h⟩
    · rcases b with _ | b
      · exact .inr ⟨.inr hb, (byMeasure ha hb).1 h⟩
      · cases h
        exact .inl ⟨a, b, ha, hb, rfl⟩
  · rintro (⟨a, b, ha, hb, rfl⟩ | ⟨symbolic, s, t, hs, ht, rfl⟩)
    · rw [compare, ha, hb]
      rfl
    · obtain ⟨a, ha, -⟩ := bind_eq_ok.1 hs
      obtain ⟨b, hb, -⟩ := bind_eq_ok.1 ht
      have measured := (byMeasure ha hb).2 ⟨s, t, hs, ht, rfl⟩
      rw [Symbolic, Symbolic, ha, hb] at symbolic
      rw [compare, ha, hb]
      rcases a with _ | a
      · exact measured
      · rcases b with _ | b
        · exact measured
        · simp at symbolic

/-- Two numerals can be compared if both can be evaluated, and have measures where one of them is
not computed. -/
lemma exists_compare_iff : (∃ o, x.compare y = .ok o) ↔
    x.Evaluated ∧ y.Evaluated ∧ (x.Symbolic ∨ y.Symbolic → x.Measured ∧ y.Measured) := by
  constructor
  · rintro ⟨o, ho⟩
    rcases compare_eq_ok.1 ho with ⟨a, b, ha, hb, -⟩ | ⟨-, s, t, hs, ht, -⟩
    · refine ⟨⟨_, ha⟩, ⟨_, hb⟩, fun symbolic => ?_⟩
      rw [Symbolic, Symbolic, ha, hb] at symbolic
      simp at symbolic
    · obtain ⟨a, ha, -⟩ := bind_eq_ok.1 hs
      obtain ⟨b, hb, -⟩ := bind_eq_ok.1 ht
      exact ⟨⟨a, ha⟩, ⟨b, hb⟩, fun _ => ⟨⟨s, hs⟩, t, ht⟩⟩
  · rintro ⟨⟨a, ha⟩, ⟨b, hb⟩, measured⟩
    by_cases symbolic : x.Symbolic ∨ y.Symbolic
    · obtain ⟨⟨s, hs⟩, t, ht⟩ := measured symbolic
      exact ⟨_, compare_eq_ok.2 (.inr ⟨symbolic, s, t, hs, ht, rfl⟩)⟩
    · rw [Symbolic, Symbolic, ha, hb, not_or] at symbolic
      rcases a with _ | a
      · exact absurd rfl symbolic.1
      · rcases b with _ | b
        · exact absurd rfl symbolic.2
        · exact ⟨_, compare_eq_ok.2 (.inl ⟨a, b, ha, hb, rfl⟩)⟩

/-- A number without a measure cannot be compared with a power that is not computed. -/
lemma compare_literal_eq_error {p : Option Position} {v : Number} {fault : ArithmeticFault}
    (hv : v.scale = .error fault) (symbolic : y.Symbolic) :
    (literal p v).compare y = .error fault := by
  rw [compare, symbolic]
  show v.scale >>= _ = _
  rw [hv]
  rfl

end Numeral

end TypeNotation
