import Mathlib.Data.List.Forall2

/-!
# Reading answers backwards

What is known of the parts of a computation when the whole of it has given an answer.
-/

namespace TypeNotation

variable {ε α β : Type}

lemma bind_eq_ok {x : Except ε α} {f : α → Except ε β} {b : β} :
    (x >>= f) = .ok b ↔ ∃ a, x = .ok a ∧ f a = .ok b := by
  cases x <;> simp [bind, Except.bind]

lemma bind_eq_error {x : Except ε α} {f : α → Except ε β} {e : ε} :
    (x >>= f) = .error e ↔ x = .error e ∨ ∃ a, x = .ok a ∧ f a = .error e := by
  cases x <;> simp [bind, Except.bind]

lemma pure_eq_ok {a b : α} : (pure a : Except ε α) = .ok b ↔ a = b := by
  simp [pure, Except.pure]

/-- A choice between two answers, by a question that has one. -/
lemma bind_ite_eq_ok {x : Except ε Bool} {y z : Except ε α} {a : α} :
    (do if ← x then y else z) = .ok a ↔
      (x = .ok true ∧ y = .ok a) ∨ (x = .ok false ∧ z = .ok a) := by
  rcases x with e | (_ | _) <;> simp [bind, Except.bind]

lemma allM_eq_true {p : α → Except ε Bool} {xs : List α} :
    xs.allM p = .ok true ↔ ∀ x ∈ xs, p x = .ok true := by
  induction xs with
  | nil => simp [pure, Except.pure]
  | cons x xs ih =>
    rw [List.allM]
    rcases hx : p x with e | (_ | _) <;> simp [bind, Except.bind, pure, Except.pure, hx, ih]

lemma exists_of_allM_eq_false {p : α → Except ε Bool} {xs : List α}
    (h : xs.allM p = .ok false) : ∃ x ∈ xs, p x = .ok false := by
  induction xs with
  | nil => simp [pure, Except.pure] at h
  | cons x xs ih =>
    rw [List.allM] at h
    rcases hx : p x with e | (_ | _)
    · simp [bind, Except.bind, hx] at h
    · exact ⟨x, by simp, hx⟩
    · simp only [bind, Except.bind, hx] at h
      obtain ⟨y, hy, h⟩ := ih h
      exact ⟨y, by simp [hy], h⟩

lemma anyM_eq_false {p : α → Except ε Bool} {xs : List α} :
    xs.anyM p = .ok false ↔ ∀ x ∈ xs, p x = .ok false := by
  induction xs with
  | nil => simp [pure, Except.pure]
  | cons x xs ih =>
    rw [List.anyM]
    rcases hx : p x with e | (_ | _) <;> simp [bind, Except.bind, pure, Except.pure, hx, ih]

lemma exists_of_anyM_eq_true {p : α → Except ε Bool} {xs : List α}
    (h : xs.anyM p = .ok true) : ∃ x ∈ xs, p x = .ok true := by
  induction xs with
  | nil => simp [pure, Except.pure] at h
  | cons x xs ih =>
    rw [List.anyM] at h
    rcases hx : p x with e | (_ | _)
    · simp [bind, Except.bind, hx] at h
    · simp only [bind, Except.bind, hx] at h
      obtain ⟨y, hy, h⟩ := ih h
      exact ⟨y, by simp [hy], h⟩
    · exact ⟨x, by simp, hx⟩

/-- A question that is asked of the pairs of two lists of equal length. -/
lemma allM_zip_eq_true {p : α × β → Except ε Bool} {xs : List α} {ys : List β} :
    (if xs.length = ys.length then (xs.zip ys).allM p else .ok false) = .ok true ↔
      List.Forall₂ (fun x y => p (x, y) = .ok true) xs ys := by
  rw [List.forall₂_iff_zip]
  by_cases hlength : xs.length = ys.length
  · simp only [hlength, if_true, true_and, allM_eq_true, Prod.forall]
  · simp [hlength]

lemma not_forall₂_of_allM_zip_eq_false {p : α × β → Except ε Bool} {xs : List α} {ys : List β}
    (h : (if xs.length = ys.length then (xs.zip ys).allM p else .ok false) = .ok false) :
    ¬ List.Forall₂ (fun x y => p (x, y) ≠ .ok false) xs ys := by
  intro hall
  rw [if_pos hall.length_eq] at h
  obtain ⟨⟨x, y⟩, hmem, hfalse⟩ := exists_of_allM_eq_false h
  exact (List.forall₂_iff_zip.1 hall).2 hmem hfalse

end TypeNotation
