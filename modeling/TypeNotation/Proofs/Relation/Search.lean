import TypeNotation.Proofs.Relation.Layers

/-!
# Searching for a member

A search for a member walks through named types, suspended targets and predicates in a loop, and
calls itself for the base and the targets of a delegation.  The bound on the length of its path
covers both; a search that has not reached it goes the same way with any greater bound.

On a heap that stays as it is every search terminates, since it passes no node of the loop twice and
there are finitely many of them.  A search that comes to a suspended target without a result stops
there.
-/

namespace TypeNotation

open TypeExpr Query

namespace Query

variable {α β : Type}

/-- An outcome that lasts unless a bound was reached. -/
def Lasts (q q' : Query α) : Prop :=
  q ≠ .error .exhausted → q' = q

lemma Lasts.refl (q : Query α) : q.Lasts q :=
  fun _ => rfl

lemma Lasts.exhausted (q : Query α) : Lasts (.error .exhausted) q :=
  fun h => absurd rfl h

lemma Lasts.bind {q q' : Query α} {f f' : α → Query β} (hq : q.Lasts q')
    (hf : ∀ a, (f a).Lasts (f' a)) : (q >>= f).Lasts (q' >>= f') := by
  intro h
  rcases q with halt | a
  · rw [hq fun heq => h (by cases heq; rfl)]
    rfl
  · rw [hq (by simp)]
    exact hf a h

end Query

lemma lasts_firstHit {α : Type} {search search' : TypeExpr → Visited → Query (Option α × Visited)}
    (lasts : ∀ t visited, (search t visited).Lasts (search' t visited)) (ts : List TypeExpr)
    (visited : Visited) : (firstHit search ts visited).Lasts (firstHit search' ts visited) := by
  induction ts generalizing visited with
  | nil => exact .refl _
  | cons t ts ih =>
    refine (lasts t visited).bind fun hit => ?_
    obtain ⟨_ | a, visited⟩ := hit
    · exact ih visited
    · exact .refl _

namespace Heap

variable {h : Heap}

/-! ## The length of a search -/

/-- A search that has not reached its bound has the same outcome with a greater one. -/
lemma lasts_memberFrom (h : Heap) (name : String) {bound bound' : Nat} (longer : bound ≤ bound')
    (t : TypeExpr) (visited : Visited) :
    (h.memberFrom name bound t visited).Lasts (h.memberFrom name bound' t visited) := by
  induction bound generalizing bound' t visited with
  | zero => exact .exhausted _
  | succ bound ih =>
    obtain ⟨bound', rfl⟩ := Nat.exists_eq_add_of_le' (Nat.one_le_of_lt longer)
    have longer := Nat.le_of_succ_le_succ longer
    unfold memberFrom
    cases h.passage? t with
    | some next =>
      dsimp only
      split
      · exact .refl _
      · exact (Lasts.refl next).bind fun u => ih longer u _
    | none =>
      cases t with
      | delegation m base targets => exact lasts_firstHit (ih longer) _ visited
      | _ => exact .refl _

lemma lasts_member? (h : Heap) {bound bound' : Nat} (longer : bound ≤ bound') (t : TypeExpr)
    (name : String) : (h.member? bound t name).Lasts (h.member? bound' t name) :=
  (lasts_memberFrom h name longer t []).bind fun _ => .refl _

/-! ## Searches on a heap -/

/-- A cause for a search to stop: no bound was reached, and a target that is demanded has no
result. -/
structure Stops (h : Heap) (halt : Halt) : Prop where
  unbounded : halt ≠ .exhausted
  unknown : ∀ {t}, halt = .demand t → h.result? t.stamp = none

/-- The nodes that a node leads to: the body of a named type, the result of a suspended target, the
body of a predicate, and the base and the targets of a delegation. -/
def ahead (h : Heap) : TypeExpr → List TypeExpr
  | .named m _ _ => (h.body? m.stamp).toList
  | .deferred m _ _ => (h.result? m.stamp).toList
  | .predicate _ _ body _ => [body]
  | .delegation _ base targets => base :: targets
  | _ => []

/-- A set of types that is closed under what a search goes on to. -/
structure Searched (h : Heap) (F : Finset TypeExpr) : Prop where
  part : ∀ {t u}, t ∈ F → u ∈ t.parts → u ∈ F
  next : ∀ {t u}, t ∈ F → h.passage? t = some (.ok u) → u ∈ F
  ahead : ∀ {t u}, t ∈ F → u ∈ h.ahead t → u ∈ F

/-- There are finitely many results on a heap. -/
lemma exists_last (h : Heap) : ∃ last, ∀ {n}, (h.result? n).isSome → n < last := by
  obtain ⟨last, below⟩ := (h.results.toList.map Prod.fst).toFinset.exists_nat_subset_range
  refine ⟨last, fun {n} known => ?_⟩
  obtain ⟨r, hr⟩ := Option.isSome_iff_exists.1 known
  refine Finset.mem_range.1 (below (List.mem_toFinset.2 (List.mem_map.2 ⟨(n, r), ?_, rfl⟩)))
  exact Std.HashMap.mem_toList_iff_getElem?_eq_some.2 hr

/-- What a search from a type may come to: whatever is found in the type, in a body or in a
result. -/
def searchable (h : Heap) (t : TypeExpr) : Finset TypeExpr :=
  (t.subterms ++ h.bodies.toList.flatMap (·.2.subterms) ++
    h.results.toList.flatMap (·.2.subterms)).toFinset

lemma mem_searchable {t u : TypeExpr} : u ∈ h.searchable t ↔ u ∈ t.subterms ∨
    (∃ p ∈ h.bodies.toList, u ∈ p.2.subterms) ∨ ∃ p ∈ h.results.toList, u ∈ p.2.subterms := by
  simp [searchable]

lemma part_searchable {t u v : TypeExpr} (hv : v ∈ h.searchable t) (hu : u ∈ v.parts) :
    u ∈ h.searchable t := by
  have inside {s : TypeExpr} (hs : v ∈ s.subterms) : u ∈ s.subterms := by
    have all : s.Throughout (· ∈ s.subterms) := fun _ h => h
    exact ((all.subterm hs).part hu).self
  exact mem_searchable.2 ((mem_searchable.1 hv).imp inside
    (.imp (fun ⟨p, hp, h⟩ => ⟨p, hp, inside h⟩) fun ⟨p, hp, h⟩ => ⟨p, hp, inside h⟩))

lemma body_searchable {t u : TypeExpr} {stamp : Nat} (hu : h.body? stamp = some u) :
    u ∈ h.searchable t :=
  mem_searchable.2 (.inr (.inl ⟨(stamp, u), Std.HashMap.mem_toList_iff_getElem?_eq_some.2 hu,
    mem_subterms_self u⟩))

lemma result_searchable {t u : TypeExpr} {stamp : Nat} (hu : h.result? stamp = some u) :
    u ∈ h.searchable t :=
  mem_searchable.2 (.inr (.inr ⟨(stamp, u), Std.HashMap.mem_toList_iff_getElem?_eq_some.2 hu,
    mem_subterms_self u⟩))

lemma unfoldFrom_searchable {t v : TypeExpr} (bound : Nat) (seen : List Nat)
    (hv : v ∈ h.searchable t) : h.unfoldFrom bound seen v ∈ h.searchable t := by
  induction bound generalizing seen v with
  | zero => exact hv
  | succ bound ih =>
    cases v with
    | named m name args =>
      simp only [unfoldFrom]
      cases hbody : h.body? m.stamp with
      | none => exact hv
      | some b =>
        dsimp only
        split
        · exact hv
        · exact ih _ (body_searchable hbody)
    | _ => exact hv

lemma searched_searchable (h : Heap) (t : TypeExpr) : h.Searched (h.searchable t) where
  part := part_searchable
  next := by
    intro v u hv hnext
    cases v with
    | predicate m constraint b listed =>
      cases hnext
      exact part_searchable hv (by simp [parts])
    | named m name args =>
      cases hnext
      exact unfoldFrom_searchable _ _ hv
    | deferred m target bindings =>
      simp only [passage?, reveal, Option.some.injEq] at hnext
      split at hnext
      · rename_i r hr
        cases hnext
        exact result_searchable hr
      · cases hnext
    | _ => cases hnext
  ahead := by
    intro v u hv hu
    cases v with
    | named m name args => exact body_searchable (Option.mem_toList.1 hu)
    | deferred m target bindings => exact result_searchable (Option.mem_toList.1 hu)
    | predicate m constraint b listed =>
      rw [List.mem_singleton.1 hu]
      exact part_searchable hv (by simp [parts])
    | delegation m base targets => exact part_searchable hv hu
    | _ => cases hu

lemma exists_searched (h : Heap) (t : TypeExpr) : ∃ F, h.Searched F ∧ t ∈ F :=
  ⟨h.searchable t, h.searched_searchable t, mem_searchable.2 (.inl (mem_subterms_self t))⟩

/-- A search keeps the nodes that it has passed. -/
lemma subset_of_firstHit {α : Type} {search : TypeExpr → Visited → Query (Option α × Visited)}
    (hsearch : ∀ t visited r, search t visited = .ok r → visited ⊆ r.2) {ts : List TypeExpr}
    {visited : Visited} {r : Option α × Visited} (hr : firstHit search ts visited = .ok r) :
    visited ⊆ r.2 := by
  induction ts generalizing visited with
  | nil =>
    cases hr
    exact List.Subset.refl _
  | cons t ts ih =>
    obtain ⟨⟨hit, passed⟩, found, hr⟩ := bind_eq_ok.1 hr
    cases hit with
    | none => exact List.Subset.trans (hsearch t visited _ found) (ih hr)
    | some a =>
      cases hr
      exact hsearch t visited _ found

lemma subset_of_memberFrom {name : String} {bound : Nat} {t : TypeExpr} {visited : Visited}
    {r : Option TypeExpr × Visited} (hr : h.memberFrom name bound t visited = .ok r) :
    visited ⊆ r.2 := by
  induction bound generalizing t visited r with
  | zero => cases hr
  | succ bound ih =>
    unfold memberFrom at hr
    cases hnext : h.passage? t with
    | some next =>
      simp only [hnext] at hr
      split at hr
      · cases hr
        exact List.Subset.refl _
      · obtain ⟨u, -, hr⟩ := bind_eq_ok.1 hr
        exact List.Subset.trans (List.subset_cons_self t visited) (ih hr)
    | none =>
      simp only [hnext] at hr
      cases t with
      | delegation m base targets =>
        exact subset_of_firstHit (fun _ _ _ => ih) hr
      | _ =>
        cases hr
        exact List.Subset.refl _

variable {α : Type} {allowed : Halt → Prop}

lemma terminates_firstHit {search : Nat → TypeExpr → Visited → Query (Option α × Visited)}
    (passed : ∀ bound t visited r, search bound t visited = .ok r → visited ⊆ r.2)
    {ts : List TypeExpr} {visited : Visited}
    (hts : ∀ t ∈ ts, ∀ visited', visited ⊆ visited' →
      Terminates allowed fun bound => search bound t visited') :
    Terminates allowed fun bound => firstHit (search bound) ts visited := by
  induction ts generalizing visited with
  | nil => exact .ok _
  | cons t ts ih =>
    rw [List.forall_mem_cons] at hts
    refine (hts.1 visited (List.Subset.refl _)).bind_of (P := fun r => visited ⊆ r.2)
      (fun bound r => passed bound t visited r) fun r hr => ?_
    obtain ⟨_ | a, visited'⟩ := r
    · exact ih fun u hu visited'' h => hts.2 u hu visited'' (List.Subset.trans hr h)
    · exact .ok _

/-- What a search goes on to is there, unless it is the result of a target that has none. -/
lemma stops_of_passage? {t : TypeExpr} {halt : Halt}
    (hnext : h.passage? t = some (.error halt)) : h.Stops halt := by
  cases t with
  | deferred m target bindings =>
    simp only [passage?, reveal, Option.some.injEq] at hnext
    split at hnext
    · cases hnext
    · rename_i unknown
      cases hnext
      exact ⟨by simp, by rintro _ ⟨⟩; exact unknown⟩
  | _ => cases hnext

/-- A search on a heap terminates. -/
lemma Searched.terminates_memberFrom {F : Finset TypeExpr} (searched : h.Searched F)
    (name : String) {t : TypeExpr} (ht : t ∈ F) (visited : Visited) :
    Terminates h.Stops fun bound => h.memberFrom name bound t visited := by
  induction hn : missing F visited using Nat.strong_induction_on generalizing t visited with
  | _ n ih =>
    replace hn := Nat.le_of_eq hn
    -- delegations lead to smaller types, and the loop to nodes that have not been passed
    induction t using parts_induction generalizing visited with
    | step t inner =>
      refine .of_succ ?_
      simp only [memberFrom]
      cases hnext : h.passage? t with
      | some next =>
        by_cases hmem : t ∈ visited
        · simp only [hmem, if_true]
          exact .ok _
        · simp only [hmem, if_false]
          cases next with
          | ok u =>
            have fewer := Nat.lt_of_lt_of_le (missing_cons_lt ht hmem) hn
            exact ih _ fewer (searched.next ht hnext) _ rfl
          | error halt =>
            exact .const (stops_of_passage? hnext)
      | none =>
        cases t with
        | delegation m base targets =>
          refine terminates_firstHit (fun _ _ _ _ => subset_of_memberFrom) fun u hu visited' h => ?_
          exact inner u hu (searched.part ht hu) visited' (Nat.le_trans (missing_le h) hn)
        | _ => exact .ok _

/-- On a heap that stays as it is, the bound makes no difference if it is large enough. -/
lemma terminates_member? (h : Heap) (t : TypeExpr) (name : String) :
    Terminates h.Stops fun bound => h.member? bound t name := by
  obtain ⟨F, searched, ht⟩ := h.exists_searched t
  exact (searched.terminates_memberFrom name ht []).bind fun r => .ok r.1

end Heap

end TypeNotation
