import TypeNotation.Proofs.Relation.Descent

/-!
# Where suspended targets stand

Resolving suspends the targets of delegations and nothing else, and an argument is never suspended.
So in a resolved type suspended targets only stand where they were written: among the targets of a
delegation, where no value is matched.  This is said of instances, and carries over to whatever
equals them.
-/

namespace TypeNotation

namespace TypeExpr

/-- Whether a type is a suspended target. -/
def isDeferred : TypeExpr → Bool
  | deferred .. => true
  | _ => false

/-- A type that is not suspended, nor any part of it outside of the targets of delegations, which
are all suspended. -/
inductive Direct : TypeExpr → Prop
  | intro {t : TypeExpr} (present : ∀ m target bindings, t ≠ .deferred m target bindings)
    (suspended : ∀ m base targets, t = .delegation m base targets → ∀ u ∈ targets, u.isDeferred)
    (parts : ∀ u ∈ t.valueParts, Direct u) : Direct t

lemma Direct.part {t u : TypeExpr} (ht : t.Direct) (hu : u ∈ t.valueParts) : u.Direct := by
  obtain ⟨-, -, parts⟩ := ht
  exact parts u hu

lemma Direct.present {t : TypeExpr} (ht : t.Direct) (m : Mark) (target : TypeExpr)
    (bindings : List (Field TypeExpr)) : t ≠ deferred m target bindings := by
  obtain ⟨present, -⟩ := ht
  exact present m target bindings

lemma Direct.target {m : Mark} {base u : TypeExpr} {targets : List TypeExpr}
    (ht : (delegation m base targets).Direct) (hu : u ∈ targets) : u.isDeferred := by
  obtain ⟨-, suspended, -⟩ := ht
  exact suspended m base targets rfl u hu

lemma Direct.of_parts {t : TypeExpr}
    (present : ∀ m target bindings, t ≠ .deferred m target bindings)
    (plain : ∀ m base targets, t ≠ .delegation m base targets) (h : ∀ u ∈ t.parts, u.Direct) :
    t.Direct :=
  .intro present (fun m base targets heq => absurd heq (plain m base targets))
    fun u hu => h u (valueParts_subset t hu)

lemma direct_number (x : Numeral) : (number x).Direct := by
  induction x with
  | literal => exact .of_parts (by simp) (by simp) (by simp [parts])
  | power _ b e hb he => exact .of_parts (by simp) (by simp) (by simp [parts, hb, he])

/-! ## Equal types -/

/-- The parts of a type that stand for types of values equal such parts of an equal type, unless
they are numbers. -/
lemma exists_valuePart_of_alike {t u p : TypeExpr} (h : Alike t u) (hp : p ∈ t.valueParts) :
    (∃ x, p = number x) ∨ ∃ q ∈ u.valueParts, p.same q = true := by
  have forall₂ {ps qs : List TypeExpr} (h : EachSame ps qs) (hp : p ∈ ps) :
      ∃ q ∈ qs, p.same q = true :=
    forall₂_exists_left h.flip p hp
  cases h with
  | @number x y =>
    cases x <;> simp only [valueParts, parts, List.mem_cons, List.not_mem_nil, or_false] at hp
    rcases hp with rfl | rfl <;> exact .inl ⟨_, rfl⟩
  | interval =>
    simp only [valueParts, parts, List.mem_cons, List.not_mem_nil, or_false] at hp
    rcases hp with rfl | rfl <;> exact .inl ⟨_, rfl⟩
  | unit | primitive | typeVariable | deferred => simp [valueParts, parts] at hp
  | tuple e | named e | reference e => exact .inr (forall₂ e hp)
  | list e => exact .inr (exists_right_of_matchAll (rectangular_same _ _) e hp)
  | record e =>
    obtain ⟨f, hf, rfl⟩ := List.mem_map.1 hp
    obtain ⟨g, hg, hfg⟩ := exists_right_of_matchAll (rectangular_sameField _ _) e hf
    simp only [sameField, Bool.and_eq_true] at hfg
    exact .inr ⟨g.type, List.mem_map_of_mem hg, hfg.2⟩
  | function hi ho =>
    rcases List.mem_append.1 hp with hp | hp
    · obtain ⟨i, hi', rfl⟩ := List.mem_map.1 hp
      obtain ⟨j, hj, hij⟩ := forall₂_exists_left hi.flip i hi'
      exact .inr ⟨j.type, List.mem_append_left _ (List.mem_map_of_mem hj), hij.1⟩
    · obtain ⟨q, hq, hpq⟩ := forall₂ ho hp
      exact .inr ⟨q, List.mem_append_right _ hq, hpq⟩
  | delegation hb =>
    rw [valueParts, List.mem_singleton] at hp
    subst hp
    exact .inr ⟨_, List.mem_singleton_self _, hb⟩
  | predicate hc hb | union hc hb | complement hc hb =>
    simp only [valueParts, parts, List.mem_cons, List.not_mem_nil, or_false] at hp ⊢
    rcases hp with rfl | rfl
    · exact .inr ⟨_, .inl rfl, hc⟩
    · exact .inr ⟨_, .inr rfl, hb⟩
  | tagged e =>
    obtain ⟨g, hg, hp⟩ := List.mem_flatMap.1 hp
    obtain ⟨k, hk, -, hgk⟩ := forall₂_exists_left e.flip g hg
    obtain ⟨q, hq, hpq⟩ := forall₂ hgk hp
    exact .inr ⟨q, List.mem_flatMap.2 ⟨k, hk, hq⟩, hpq⟩

/-- What equals a direct type is direct. -/
lemma Direct.of_same {t u : TypeExpr} (h : t.same u = true) (hu : u.Direct) : t.Direct := by
  induction t using parts_induction generalizing u with
  | step t ih =>
    have alike := alike_iff.2 h
    refine .intro (fun m target bindings heq => ?_) (fun m base targets heq v hv => ?_)
      fun p hp => ?_
    · subst heq
      cases alike
      exact hu.present _ _ _ rfl
    · subst heq
      cases alike with
      | delegation _ htargets =>
        obtain ⟨w, hw, hvw⟩ := forall₂_exists_left htargets.flip v hv
        have deferred := hu.target hw
        have alike := alike_iff.2 hvw
        cases w <;> simp only [isDeferred, Bool.false_eq_true] at deferred
        cases alike
        rfl
    · rcases exists_valuePart_of_alike alike hp with ⟨x, rfl⟩ | ⟨q, hq, hpq⟩
      · exact direct_number x
      · exact ih p (valueParts_subset t hp) hpq (hu.part hq)

/-! ## Instances -/

/-- An instance of a written type is direct if its environment is. -/
lemma direct_instantiate {env : Env} (henv : ∀ f ∈ env, f.type.Direct) (scope : Option String)
    {t : TypeExpr} (ht : t.Written) : (t.instantiate env scope).Direct := by
  induction t using parts_induction with
  | step t ih =>
    have ih : ∀ u ∈ t.parts, (u.instantiate env scope).Direct := fun u hu => ih u hu (ht.part hu)
    cases t with
    | number x => exact direct_number _
    | interval m low high =>
      refine .intro (by simp [instantiate]) (by simp [instantiate]) fun u hu => ?_
      simp only [instantiate, valueParts, parts, List.mem_cons, List.not_mem_nil, or_false] at hu
      rcases hu with rfl | rfl <;> exact direct_number _
    | unit | primitive =>
      exact .intro (by simp [instantiate]) (by simp [instantiate])
        (by simp [instantiate, valueParts, parts])
    | tuple m items =>
      refine .intro (by simp [instantiate]) (by simp [instantiate]) ?_
      simpa [instantiate, instantiateAll_eq, valueParts, parts] using ih
    | list m members =>
      refine .intro (by simp [instantiate, listOf]) (by simp [instantiate, listOf]) fun u hu => ?_
      have hu := withoutRepeats_subset _ hu
      rw [instantiateAll_eq, List.mem_map] at hu
      obtain ⟨v, hv, rfl⟩ := hu
      exact ih v hv
    | record m fields =>
      refine .intro (by simp [instantiate]) (by simp [instantiate]) ?_
      simpa [instantiate, instantiateFields_eq, valueParts, parts] using ih
    | function m inputs outputs =>
      refine .intro (by simp [instantiate]) (by simp [instantiate]) ?_
      simp only [parts, List.forall_mem_append, List.forall_mem_map] at ih
      simp only [instantiate, instantiateAll_eq, instantiateInputs_eq, valueParts, parts,
        List.forall_mem_append, List.forall_mem_map]
      exact ih
    | delegation m base targets =>
      refine .intro (by simp [instantiate])
        (by simp [instantiate, TypeExpr.suspended, isDeferred]) ?_
      simpa [instantiate, valueParts] using ih base (by simp [parts])
    | predicate m constraint body listed =>
      simp only [parts, List.forall_mem_cons] at ih
      simp only [instantiate]
      split
      · exact ih.2.1
      · exact .of_parts (by simp) (by simp) (by simpa [parts] using ⟨ih.1, ih.2.1⟩)
    | tagged m tags =>
      refine .intro (by simp [instantiate]) (by simp [instantiate]) fun u hu => ?_
      simp only [instantiate, instantiateTags_eq, valueParts, parts, List.mem_flatMap,
        List.mem_map] at hu
      obtain ⟨g, ⟨k, hk, rfl⟩, hu⟩ := hu
      obtain ⟨v, hv, rfl⟩ := List.mem_map.1 hu
      exact ih v (List.mem_flatMap.2 ⟨k, hk, hv⟩)
    | union m left right | complement m left right =>
      refine .intro (by simp [instantiate]) (by simp [instantiate]) ?_
      simpa [instantiate, valueParts, parts] using ih
    | reference m name args =>
      refine .intro (by simp [instantiate]) (by simp [instantiate]) ?_
      simpa [instantiate, instantiateAll_eq, valueParts, parts] using ih
    | typeVariable m v =>
      have direct_var : ∀ v', (typeVariable m v').Direct := fun v' =>
        .of_parts (by simp) (by simp) (by simp [parts])
      simp only [instantiate]
      split
      · exact direct_var v
      · cases hfind : Field.find? env v.letter with
        | none => exact direct_var _
        | some u =>
          simp only [Field.find?, Option.map_eq_some_iff] at hfind
          obtain ⟨f, hf, rfl⟩ := hfind
          exact henv f (List.mem_of_find?_eq_some hf)
    | named | deferred => exact ht.self.elim

end TypeExpr

open TypeExpr

/-- The parameters of a declaration are bound to the arguments. -/
lemma Declaration.direct_binding (d : Declaration) {args : List TypeExpr}
    (hargs : ∀ a ∈ args, a.Direct) : ∀ f ∈ d.binding args, f.type.Direct :=
  fun _ hf => hargs _ (d.type_mem_of_mem_binding hf)

/-- The body of a written declaration, with direct arguments, is direct. -/
lemma Declaration.direct_applied (d : Declaration) (hd : d.body.Written) {args : List TypeExpr}
    (hargs : ∀ a ∈ args, a.Direct) : (d.applied args).Direct :=
  direct_instantiate (d.direct_binding hargs) _ hd

/-! ## Written declarations -/

namespace Registry

/-- A registry whose declarations were all written. -/
def Written (r : Registry) : Prop :=
  ∀ d ∈ r.declarations, d.body.Written

lemma Written.lookup {r : Registry} (h : r.Written) {name : String} {d : Declaration}
    (hd : r.lookup name = some d) : d.body.Written :=
  h d (List.mem_of_find?_eq_some hd)

end Registry

end TypeNotation
