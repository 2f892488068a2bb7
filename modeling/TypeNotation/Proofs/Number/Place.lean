import Mathlib.Algebra.Order.Ring.Rat
import TypeNotation.Relation.Membership

/-!
# The order of places

Places other than that of what is not a number are in a strict linear order, from which the
half-open ranges of numbers are made.
-/

namespace TypeNotation

namespace Place

variable {p q r : Place}

lemma not_isLeftOf_of_isLeftOf (h : p.isLeftOf q = true) : q.isLeftOf p = false := by
  cases p <;> cases q <;> simp_all [isLeftOf, le_of_lt]

lemma isLeftOf_self (p : Place) : p.isLeftOf p = false := by
  cases h : p.isLeftOf p with
  | false => rfl
  | true => exact h.symm.trans (not_isLeftOf_of_isLeftOf h)

lemma compare_eq_lt : p.compare q = .lt ↔ p.isLeftOf q = true := by
  unfold compare
  by_cases h : p.isLeftOf q = true
  · simp [h]
  · by_cases h' : q.isLeftOf p = true <;> simp [h, h']

lemma compare_eq_gt : p.compare q = .gt ↔ q.isLeftOf p = true := by
  unfold compare
  by_cases h : p.isLeftOf q = true
  · simp [h, not_isLeftOf_of_isLeftOf h]
  · by_cases h' : q.isLeftOf p = true <;> simp [h, h']

/-- Places of numbers that are not left of each other are one. -/
lemma eq_of_not_isLeftOf (hp : p ≠ .nan) (hq : q ≠ .nan) (h : p.isLeftOf q = false)
    (h' : q.isLeftOf p = false) : p = q := by
  cases p <;> cases q <;> simp_all [isLeftOf]
  exact le_antisymm h' h

lemma compare_eq_eq (hp : p ≠ .nan) (hq : q ≠ .nan) : p.compare q = .eq ↔ p = q := by
  constructor
  · intro h
    have hlt : p.isLeftOf q = false := by
      rw [← Bool.not_eq_true, ← compare_eq_lt, h]
      simp
    have hgt : q.isLeftOf p = false := by
      rw [← Bool.not_eq_true, ← compare_eq_gt, h]
      simp
    exact eq_of_not_isLeftOf hp hq hlt hgt
  · rintro rfl
    simp [compare, isLeftOf_self]

lemma not_isLeftOf_trans (hq : q ≠ .nan) (h : q.isLeftOf p = false)
    (h' : r.isLeftOf q = false) : r.isLeftOf p = false := by
  cases p <;> cases q <;> cases r <;> simp_all [isLeftOf]
  exact le_trans h h'

lemma isLeftOf_of_not_of_isLeftOf (hp : p ≠ .nan) (h : q.isLeftOf p = false)
    (h' : q.isLeftOf r = true) : p.isLeftOf r = true := by
  by_contra hle
  rw [not_isLeftOf_trans hp (Bool.eq_false_of_not_eq_true hle) h] at h'
  cases h'

lemma isLeftOf_of_isLeftOf_of_not (hr : r ≠ .nan) (h : p.isLeftOf q = true)
    (h' : r.isLeftOf q = false) : p.isLeftOf r = true := by
  by_contra hle
  rw [not_isLeftOf_trans hr h' (Bool.eq_false_of_not_eq_true hle)] at h
  cases h

end Place

namespace Number

lemma isNaN_eq_false {x : Number} : x.isNaN = false ↔ x.place ≠ .nan := by
  simp [isNaN]

/-- A number from a lower end on up to, but not including, a higher end. -/
structure Between (low high x : Number) : Prop where
  place : x.place ≠ .nan
  low : x.place.isLeftOf low.place = false
  high : x.place.isLeftOf high.place = true

end Number

namespace Numeral

variable {p q : Option Position} {x y low high : Number}

@[simp] lemma compare_literal :
    (literal p x).compare (literal q y) = .ok (x.compare y) := by
  simp [compare, value?, bind, Except.bind, pure, Except.pure]

end Numeral

namespace Matcher

variable {p q : Option Position} {low high : Number} {v : Value}

lemma holdsInterval_eq_true :
    holdsInterval v (.literal p low) (.literal q high) = .ok true ↔
      ∃ x, v = .number x ∧ Number.Between low high x := by
  cases v with
  | number x =>
    simp only [holdsInterval, Value.number.injEq, exists_eq_left']
    by_cases hnan : x.isNaN = true
    · have hplace : x.place = .nan := by simpa [Number.isNaN] using hnan
      simp only [hnan, if_true, Except.ok.injEq, Bool.false_eq_true, false_iff]
      exact fun h => h.place hplace
    · have hplace : x.place ≠ .nan := Number.isNaN_eq_false.1 (by simpa using hnan)
      have hlow : low.compare x = .gt ↔ x.place.isLeftOf low.place = true := Place.compare_eq_gt
      have hhigh : x.compare high = .lt ↔ x.place.isLeftOf high.place = true := Place.compare_eq_lt
      by_cases h : low.compare x = .gt
      · have : ¬ Number.Between low high x := fun hx => by
          have hlt := hlow.1 h
          rw [hx.low] at hlt
          cases hlt
        simp [hnan, h, Query.ofArithmetic, bind, Except.bind, pure, Except.pure, this]
      · have hle : x.place.isLeftOf low.place = false := by simpa [hlow] using h
        have : Number.Between low high x ↔ x.compare high = .lt :=
          ⟨fun hx => hhigh.2 hx.high, fun hx => ⟨hplace, hle, hhigh.1 hx⟩⟩
        simp [hnan, h, Query.ofArithmetic, bind, Except.bind, pure, Except.pure, this]
  | _ => simp [holdsInterval]

/-- Whether a number lies in an interval between literals is always answered. -/
lemma holdsInterval_ok :
    ∃ r, holdsInterval v (.literal p low) (.literal q high) = .ok r := by
  cases v with
  | number x =>
    simp only [holdsInterval]
    by_cases hnan : x.isNaN = true
    · exact ⟨false, by simp [hnan]⟩
    · by_cases h : low.compare x = .gt <;>
        simp [hnan, h, Query.ofArithmetic, bind, Except.bind, pure, Except.pure]
  | _ => exact ⟨false, rfl⟩

lemma holdsNumeral_eq_true {y : Number} :
    holdsNumeral v (.literal p y) = .ok true ↔ ∃ x, v = .number x ∧ x.same y = true := by
  cases v <;> simp [holdsNumeral]

lemma holdsNumeral_ok {y : Number} : ∃ r, holdsNumeral v (.literal p y) = .ok r := by
  cases v <;> simp [holdsNumeral]

end Matcher

end TypeNotation
