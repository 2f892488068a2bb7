import Mathlib.Tactic.Lemma
import TypeNotation.Resolution.Error

/-!
# What comes out of an action

An action on a state gives an answer or a fault, and the state that it leaves.  The equations below
are what is known of actions in general.
-/

namespace TypeNotation

variable {σ α β : Type}

/-- The answer or the fault of an action, with the state that it leaves. -/
def outcome (x : ExceptT Fault (StateM σ) α) (s : σ) : Except Fault α × σ :=
  x.run.run s

@[simp] lemma outcome_pure (a : α) (s : σ) :
    outcome (pure a : ExceptT Fault (StateM σ) α) s = (.ok a, s) := rfl

@[simp] lemma outcome_throw (f : Fault) (s : σ) :
    outcome (throw f : ExceptT Fault (StateM σ) α) s = (.error f, s) := rfl

lemma outcome_bind (x : ExceptT Fault (StateM σ) α) (f : α → ExceptT Fault (StateM σ) β) (s : σ) :
    outcome (x >>= f) s =
      match outcome x s with
      | (.ok a, s') => outcome (f a) s'
      | (.error fault, s') => (.error fault, s') := by
  simp only [outcome, bind, ExceptT.bind, ExceptT.mk, ExceptT.run, ExceptT.bindCont, StateT.run,
    StateT.bind]
  rcases x s with ⟨a | a, s'⟩ <;> rfl

@[simp] lemma outcome_map (f : α → β) (x : ExceptT Fault (StateM σ) α) (s : σ) :
    outcome (f <$> x) s = ((outcome x s).1.map f, (outcome x s).2) := by
  simp only [outcome, Functor.map, ExceptT.map, ExceptT.mk, ExceptT.run, StateT.run, bind,
    StateT.bind]
  rcases x s with ⟨a | a, s'⟩ <;> rfl

@[simp] lemma outcome_get (s : σ) :
    outcome (get : ExceptT Fault (StateM σ) σ) s = (.ok s, s) := rfl

@[simp] lemma outcome_modify (f : σ → σ) (s : σ) :
    outcome (modify f : ExceptT Fault (StateM σ) Unit) s = (.ok (), f s) := rfl

/-- A fault that is caught, and thrown again after something has been done about it. -/
lemma outcome_tryCatch (x : ExceptT Fault (StateM σ) α)
    (f : Fault → ExceptT Fault (StateM σ) α) (s : σ) :
    outcome (tryCatch x f) s =
      match outcome x s with
      | (.ok a, s') => (.ok a, s')
      | (.error fault, s') => outcome (f fault) s' := by
  simp only [outcome, tryCatch, tryCatchThe, MonadExceptOf.tryCatch, ExceptT.tryCatch, ExceptT.mk,
    ExceptT.run, StateT.run, bind, StateT.bind]
  rcases x s with ⟨a | a, s'⟩ <;> rfl

/-! ## Answers along a list -/

section Along

variable {xs : List α} {s s' : σ}

/-- What an action has answered for each of some things, one after the other. -/
lemma outcome_filterMapM {f : α → ExceptT Fault (StateM σ) (Option β)} {ys : List β}
    (run : outcome (xs.filterMapM f) s = (.ok ys, s')) :
    (∀ y ∈ ys, ∃ x ∈ xs, ∃ s₁ s₂, outcome (f x) s₁ = (.ok (some y), s₂)) ∧
      ∀ x ∈ xs, ∃ answer s₁ s₂, outcome (f x) s₁ = (.ok answer, s₂) ∧ ∀ y ∈ answer, y ∈ ys := by
  induction xs generalizing s ys with
  | nil =>
    cases run
    exact ⟨by simp, by simp⟩
  | cons x xs ih =>
    rw [List.filterMapM_cons, outcome_bind] at run
    rcases hx : outcome (f x) s with ⟨fault | answer, s₁⟩
    · rw [hx] at run
      cases run
    rw [hx] at run
    obtain ⟨rest, run, hys⟩ : ∃ rest, outcome (xs.filterMapM f) s₁ = (.ok rest, s') ∧
        ys = answer.toList ++ rest := by
      cases answer with
      | none => exact ⟨ys, run, rfl⟩
      | some y =>
        simp only [outcome_bind, outcome_pure] at run
        rcases hrest : outcome (xs.filterMapM f) s₁ with ⟨fault | rest, s₂⟩
        · rw [hrest] at run
          cases run
        · rw [hrest] at run
          cases run
          exact ⟨rest, rfl, rfl⟩
    obtain ⟨sound, complete⟩ := ih run
    subst hys
    constructor
    · intro y hy
      rcases List.mem_append.1 hy with hy | hy
      · rw [Option.mem_toList] at hy
        exact ⟨x, List.mem_cons_self, s, s₁, hy ▸ hx⟩
      · obtain ⟨x', hx', found⟩ := sound y hy
        exact ⟨x', List.mem_cons_of_mem _ hx', found⟩
    · intro x' hx'
      rcases List.mem_cons.1 hx' with rfl | hx'
      · exact ⟨answer, s, s₁, hx, fun y hy => List.mem_append_left _ (Option.mem_toList.2 hy)⟩
      · obtain ⟨answer', s₂, s₃, asked, kept⟩ := complete x' hx'
        exact ⟨answer', s₂, s₃, asked, fun y hy => List.mem_append_right _ (kept y hy)⟩

lemma filterMapM_some (f : α → ExceptT Fault (StateM σ) β) (xs : List α) :
    xs.filterMapM (fun x => some <$> f x) = xs.mapM f := by
  induction xs with
  | nil => rfl
  | cons x xs ih => simp [List.filterMapM_cons, ih]

lemma outcome_mapM {f : α → ExceptT Fault (StateM σ) β} {ys : List β}
    (run : outcome (xs.mapM f) s = (.ok ys, s')) :
    (∀ y ∈ ys, ∃ x ∈ xs, ∃ s₁ s₂, outcome (f x) s₁ = (.ok y, s₂)) ∧
      ∀ x ∈ xs, ∃ y ∈ ys, ∃ s₁ s₂, outcome (f x) s₁ = (.ok y, s₂) := by
  rw [← filterMapM_some] at run
  obtain ⟨sound, complete⟩ := outcome_filterMapM run
  have asked {x : α} {y : Option β} {s₁ s₂ : σ}
      (h : outcome (some <$> f x) s₁ = (.ok y, s₂)) :
      ∃ z, y = some z ∧ outcome (f x) s₁ = (.ok z, s₂) := by
    rw [outcome_map] at h
    rcases hx : outcome (f x) s₁ with ⟨fault | z, s₃⟩ <;> rw [hx] at h <;> cases h
    exact ⟨z, rfl, rfl⟩
  constructor
  · intro y hy
    obtain ⟨x, hx, s₁, s₂, h⟩ := sound y hy
    obtain ⟨z, hz, asked⟩ := asked h
    cases hz
    exact ⟨x, hx, s₁, s₂, asked⟩
  · intro x hx
    obtain ⟨answer, s₁, s₂, h, kept⟩ := complete x hx
    obtain ⟨z, rfl, hz⟩ := asked h
    exact ⟨z, kept z rfl, s₁, s₂, hz⟩

/-- Questions that leave the state as it is. -/
lemma outcome_filterMapM_eq {f : α → ExceptT Fault (StateM σ) (Option β)} {g : α → Option β}
    (h : ∀ x ∈ xs, outcome (f x) s = (.ok (g x), s)) :
    outcome (xs.filterMapM f) s = (.ok (xs.filterMap g), s) := by
  induction xs with
  | nil => rfl
  | cons x xs ih =>
    have first := h x List.mem_cons_self
    have rest := ih fun y hy => h y (List.mem_cons_of_mem _ hy)
    rw [List.filterMapM_cons, outcome_bind, first]
    cases hx : g x with
    | none => simp [hx, rest]
    | some y => simp [hx, rest, Except.map]

lemma outcome_mapM_eq {f : α → ExceptT Fault (StateM σ) β} {g : α → β}
    (h : ∀ x ∈ xs, outcome (f x) s = (.ok (g x), s)) :
    outcome (xs.mapM f) s = (.ok (xs.map g), s) := by
  rw [← filterMapM_some, ← List.filterMap_eq_map]
  refine outcome_filterMapM_eq fun x hx => ?_
  rw [outcome_map, h x hx]
  rfl

end Along

end TypeNotation
