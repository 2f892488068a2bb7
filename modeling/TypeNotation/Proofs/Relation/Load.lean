import Mathlib.Data.Multiset.DershowitzManna
import TypeNotation.Relation.Membership

/-!
# Loads

A variable that is bound leads from deep inside a body back to the constraint of a predicate around
it, which may measure more than the variable.  But the bound does not apply again inside the
constraint.  So what drops is the *load*: the measures of the type and of all bounds, taken
together. What is measured is left open: the height of a type, or its size.
-/

namespace TypeNotation

variable {μ : TypeExpr → Nat}

/-- The measures of the bounds on variables. -/
def Bounds.measures (μ : TypeExpr → Nat) (bounds : Bounds) : Multiset Nat :=
  (Multiset.ofList bounds).map fun p => μ p.2

/-- The measures of a type and of the bounds on its variables. -/
def Bounds.load (μ : TypeExpr → Nat) (t : TypeExpr) (bounds : Bounds) : Multiset Nat :=
  μ t ::ₘ bounds.measures μ

namespace Bounds

variable {bounds : Bounds} {t u : TypeExpr}

lemma measures_without_le (v : Variable) : (bounds.without v).measures μ ≤ bounds.measures μ :=
  Multiset.map_le_map (Multiset.coe_le.2 List.filter_sublist.subperm)

/-- A bound that is found is among the bounds, and not among those without its variable. -/
lemma measures_find? {v : Variable} {bound : TypeExpr} (hv : bounds.find? v = some bound) :
    μ bound ::ₘ (bounds.without v).measures μ ≤ bounds.measures μ := by
  simp only [find?, Option.map_eq_some_iff] at hv
  obtain ⟨p, hp, rfl⟩ := hv
  have hmem := List.mem_of_find?_eq_some hp
  have hvar : p.1 = v := by simpa using List.find?_some hp
  have sub : (p :: bounds.without v).Subperm bounds := by
    refine List.cons_subperm_of_not_mem_of_mem ?_ hmem List.filter_sublist.subperm
    simp [without, hvar]
  exact Multiset.map_le_map (f := fun p => μ p.2) (Multiset.coe_le.2 sub)

/-- Binding variables replaces some bounds by the constraint. -/
lemma measures_bind (constraint : TypeExpr) (binders : List Binder) :
    ∃ (kept : Multiset Nat) (n : Nat), kept ≤ bounds.measures μ ∧
      (bounds.bind constraint binders).measures μ = kept + Multiset.replicate n (μ constraint) := by
  unfold bind
  induction binders generalizing bounds with
  | nil => exact ⟨bounds.measures μ, 0, le_refl _, by simp⟩
  | cons b binders ih =>
    rw [List.foldl_cons]
    obtain ⟨kept, n, hkept, heq⟩ := @ih ((b.var, constraint) :: bounds.without b.var)
    have hkept : kept ≤ μ constraint ::ₘ (bounds.without b.var).measures μ := hkept
    -- what is kept is kept from the old bounds, but for one occurrence of the constraint
    by_cases hmem : μ constraint ∈ kept
    · obtain ⟨rest, rfl⟩ := Multiset.exists_cons_of_mem hmem
      refine ⟨rest, n + 1, ?_, ?_⟩
      · exact (Multiset.cons_le_cons_iff _).1 hkept |>.trans (measures_without_le b.var)
      · rw [heq, Multiset.replicate_succ, Multiset.cons_add, Multiset.add_cons]
    · exact ⟨kept, n, ((Multiset.le_cons_of_notMem hmem).1 hkept).trans (measures_without_le b.var),
        heq⟩

/-- The load drops with the measure of the type. -/
lemma load_lt (hu : μ u < μ t) :
    Multiset.IsDershowitzMannaLT (load μ u bounds) (load μ t bounds) := by
  refine ⟨bounds.measures μ, {μ u}, {μ t}, by simp, ?_, ?_, ?_⟩
  · rw [load, ← Multiset.singleton_add, add_comm]
  · rw [load, ← Multiset.singleton_add, add_comm]
  · simpa using hu

/-- The load drops from a predicate to its body, although the constraint may be copied. -/
lemma load_bind_lt {constraint : TypeExpr} (hu : μ u < μ t) (hc : μ constraint < μ t)
    (binders : List Binder) :
    Multiset.IsDershowitzMannaLT (load μ u (bounds.bind constraint binders)) (load μ t bounds) := by
  obtain ⟨kept, n, hkept, heq⟩ := @measures_bind μ bounds constraint binders
  obtain ⟨lost, hlost⟩ := Multiset.le_iff_exists_add.1 hkept
  refine ⟨kept, μ u ::ₘ Multiset.replicate n (μ constraint), μ t ::ₘ lost, by simp, ?_, ?_, ?_⟩
  · rw [load, heq, Multiset.add_cons]
  · rw [load, hlost, Multiset.add_cons]
  · intro k hk
    refine ⟨μ t, Multiset.mem_cons_self _ _, ?_⟩
    rcases Multiset.mem_cons.1 hk with rfl | hk
    · exact hu
    · rw [Multiset.eq_of_mem_replicate hk]
      exact hc

/-- The load drops from a variable to its bound. -/
lemma load_find_lt {v : Variable} {bound : TypeExpr} (hv : bounds.find? v = some bound) :
    Multiset.IsDershowitzMannaLT (load μ bound (bounds.without v)) (load μ t bounds) := by
  obtain ⟨lost, hlost⟩ := Multiset.le_iff_exists_add.1 (measures_find? (μ := μ) hv)
  refine ⟨load μ bound (bounds.without v), 0, μ t ::ₘ lost, by simp, by simp, ?_, by simp⟩
  rw [load, hlost, Multiset.add_cons]
  rfl

/-- Induction over the loads of types with bounds. -/
lemma load_induction (μ : TypeExpr → Nat) {P : TypeExpr → Bounds → Prop}
    (step : ∀ t bounds, (∀ u bounds',
      Multiset.IsDershowitzMannaLT (load μ u bounds') (load μ t bounds) → P u bounds') → P t bounds)
    (t : TypeExpr) (bounds : Bounds) : P t bounds :=
  (InvImage.wf (fun x : TypeExpr × Bounds => load μ x.1 x.2)
    Multiset.wellFounded_isDershowitzMannaLT).induction (C := fun x => P x.1 x.2) (t, bounds)
      fun x ih => step x.1 x.2 fun u bounds' hlt => ih (u, bounds') hlt

/-! ## Two sides

A comparison is about two types, each with bounds of its own. -/

/-- The loads of both sides together. -/
def loads (μ : TypeExpr → Nat) (left right : Bounds) (a b : TypeExpr) : Multiset Nat :=
  load μ a left + load μ b right

variable {left left' right right' : Bounds} {a b x y : TypeExpr}

/-- What is added to both sides of a comparison of loads does not matter. -/
lemma dershowitzManna_add {M N : Multiset Nat} (h : Multiset.IsDershowitzMannaLT M N)
    (P : Multiset Nat) : Multiset.IsDershowitzMannaLT (M + P) (N + P) := by
  obtain ⟨X, Y, Z, hZ, rfl, rfl, hlt⟩ := h
  exact ⟨X + P, Y, Z, hZ, by rw [add_right_comm], by rw [add_right_comm], hlt⟩

lemma loads_lt_left (h : Multiset.IsDershowitzMannaLT (load μ x left') (load μ a left)) :
    Multiset.IsDershowitzMannaLT (loads μ left' right x b) (loads μ left right a b) :=
  dershowitzManna_add h _

lemma loads_lt_right (h : Multiset.IsDershowitzMannaLT (load μ y right') (load μ b right)) :
    Multiset.IsDershowitzMannaLT (loads μ left right' a y) (loads μ left right a b) := by
  rw [loads, loads, add_comm, add_comm (load μ a left)]
  exact dershowitzManna_add h _

/-- Both sides may be exchanged when they are replaced by types that measure less. -/
lemma loads_lt_of_lt (hx : μ x < μ a ∨ μ x < μ b) (hy : μ y < μ a ∨ μ y < μ b) :
    Multiset.IsDershowitzMannaLT (loads μ left right x y) (loads μ left right a b) := by
  refine ⟨left.measures μ + right.measures μ, {μ x, μ y}, {μ a, μ b}, by simp, ?_, ?_, ?_⟩
  · simp only [loads, load, Multiset.insert_eq_cons, ← Multiset.singleton_add]
    ac_rfl
  · simp only [loads, load, Multiset.insert_eq_cons, ← Multiset.singleton_add]
    ac_rfl
  · simpa using ⟨hx, hy⟩

/-- Induction over the loads of both sides. -/
@[elab_as_elim]
lemma loads_induction (μ : TypeExpr → Nat) {P : Bounds → Bounds → TypeExpr → TypeExpr → Prop}
    (step : ∀ left right a b, (∀ left' right' x y,
      Multiset.IsDershowitzMannaLT (loads μ left' right' x y) (loads μ left right a b) →
        P left' right' x y) → P left right a b)
    (left right : Bounds) (a b : TypeExpr) : P left right a b :=
  (InvImage.wf (fun x : Bounds × Bounds × TypeExpr × TypeExpr => loads μ x.1 x.2.1 x.2.2.1 x.2.2.2)
    Multiset.wellFounded_isDershowitzMannaLT).induction
      (C := fun x => P x.1 x.2.1 x.2.2.1 x.2.2.2) (left, right, a, b)
      fun x ih => step x.1 x.2.1 x.2.2.1 x.2.2.2 fun left' right' x y hlt =>
        ih (left', right', x, y) hlt

end Bounds

end TypeNotation
