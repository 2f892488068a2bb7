import Mathlib
import TypeNotation.Graph.Vocabulary
import TypeNotation.Proofs.Session.NormalForm

/-!
# What a taxonomy keeps

The taxonomy of a registry relates the declared names by the subtype relation that was found, less
the pairs with a name strictly in between.  A pair is dropped on account of two others, which may be
dropped themselves, so that what has been dropped is only reached in the end if this does not go
round in a circle.

The subtype relation that is found is not transitive, and its strict part may have cycles.  What is
shown here is that nothing else can go wrong: a pair that is not reached along the taxonomy has a
name strictly in between that is strictly below itself, by way of others.
-/

namespace TypeNotation

namespace Vocabulary

variable {r : Relation} {a b c : String}

/-! ## Dropping what is implied -/

/-- One name is related to another, but not the other way round. -/
def Strict (r : Relation) (a b : String) : Prop :=
  (a, b) ∈ r ∧ (b, a) ∉ r

/-- There is a way from one name to another along strict pairs. -/
abbrev StrictWay (r : Relation) : String → String → Prop :=
  Relation.TransGen (Strict r)

/-- A pair is implied if there is a name strictly in between. -/
lemma isImplied_iff : isImplied r a c = true ↔ ∃ b, b ≠ c ∧ Strict r a b ∧ Strict r b c := by
  simp only [isImplied, related, Strict, List.any_eq_true, Prod.exists, Bool.and_eq_true,
    Bool.not_eq_true', decide_eq_true_eq, decide_eq_false_iff_not, ne_eq]
  constructor
  · rintro ⟨x, b, hb, ⟨⟨⟨rfl, hne⟩, hbc⟩, hba⟩, hcb⟩
    exact ⟨b, hne, ⟨hb, hba⟩, hbc, hcb⟩
  · rintro ⟨b, hne, ⟨hb, hba⟩, hbc, hcb⟩
    exact ⟨a, b, hb, ⟨⟨⟨rfl, hne⟩, hbc⟩, hba⟩, hcb⟩

lemma mem_reduced :
    (a, c) ∈ reduced r ↔ (a, c) ∈ r ∧ ¬ ∃ b, b ≠ c ∧ Strict r a b ∧ Strict r b c := by
  rw [reduced, List.mem_filter, Bool.not_eq_true', ← Bool.not_eq_true, isImplied_iff]

/-! ## Names in between -/

/-- The names on the strict ways from one name to another. -/
def between (r : Relation) (a c : String) : Set String :=
  { x | StrictWay r a x ∧ StrictWay r x c }

lemma finite_between : (between r a c).Finite := by
  apply (r.map Prod.snd).finite_toSet.subset
  rintro x ⟨way, -⟩
  obtain ⟨y, -, last⟩ := Relation.TransGen.tail'_iff.1 way
  exact List.mem_map.2 ⟨(y, x), last.1, rfl⟩

/-- Fewer names are between a name and one in between, unless that is strictly below itself. -/
lemma between_ssubset_left (hab : Strict r a b) (hbc : Strict r b c)
    (once : ¬ StrictWay r b b) : between r a b ⊂ between r a c := by
  refine ⟨fun x hx => ⟨hx.1, hx.2.tail hbc⟩, fun all => ?_⟩
  have hb : b ∈ between r a b := all ⟨.single hab, .single hbc⟩
  exact once hb.2

lemma between_ssubset_right (hab : Strict r a b) (hbc : Strict r b c)
    (once : ¬ StrictWay r b b) : between r b c ⊂ between r a c := by
  refine ⟨fun x hx => ⟨.head hab hx.1, hx.2⟩, fun all => ?_⟩
  have hb : b ∈ between r b c := all ⟨.single hab, .single hbc⟩
  exact once hb.1

/-- A related pair is reached along what is kept, unless a name in between is strictly below itself.
-/
lemma reached_of_mem (h : (a, c) ∈ r) (once : ∀ x ∈ between r a c, ¬ StrictWay r x x) :
    Relation.TransGen (fun x y => (x, y) ∈ reduced r) a c := by
  induction hn : (between r a c).ncard using Nat.strong_induction_on generalizing a c with
  | _ n ih =>
    by_cases implied : ∃ b, b ≠ c ∧ Strict r a b ∧ Strict r b c
    · obtain ⟨b, -, hab, hbc⟩ := implied
      have hb : ¬ StrictWay r b b := once b ⟨.single hab, .single hbc⟩
      have left := between_ssubset_left hab hbc hb
      have right := between_ssubset_right hab hbc hb
      have first := ih _ (hn ▸ Set.ncard_lt_ncard left finite_between) hab.1
        (fun x hx => once x (left.subset hx)) rfl
      have second := ih _ (hn ▸ Set.ncard_lt_ncard right finite_between) hbc.1
        (fun x hx => once x (right.subset hx)) rfl
      exact first.trans second
    · exact .single (mem_reduced.2 ⟨h, implied⟩)

/-- No name is strictly below itself in a transitive relation. -/
lemma not_strictWay_self (transitive : ∀ x y z, (x, y) ∈ r → (y, z) ∈ r → (x, z) ∈ r)
    (x : String) : ¬ StrictWay r x x := by
  have strict {y z : String} (way : StrictWay r y z) : Strict r y z := by
    induction way with
    | single h => exact h
    | tail _ last ih =>
      refine ⟨transitive _ _ _ ih.1 last.1, fun back => last.2 ?_⟩
      exact transitive _ _ _ back ih.1
  exact fun way => (strict way).2 (strict way).1

/-! ## The relation that is found -/

/-- What a fault comes to where an action may be impossible: the lack of a normal form is no answer,
and any other fault goes on. -/
def withoutForm (α : Type) : Fault → Except Fault (Option α)
  | .resolution _ => .ok none
  | fault => .error fault

lemma outcome_ifResolvable {α : Type} (action : Action α) (s : Session) :
    outcome (ifResolvable action) s =
      match outcome action s with
      | (.ok x, s') => (.ok (some x), s')
      | (.error fault, s') => (withoutForm α fault, s') := by
  change ifResolvable action s = match action s with
    | (.ok x, s') => (.ok (some x), s')
    | (.error fault, s') => (withoutForm α fault, s')
  simp only [ifResolvable, tryCatch, tryCatchThe, MonadExceptOf.tryCatch, ExceptT.tryCatch, bind,
    ExceptT.bind, ExceptT.mk, ExceptT.bindCont, StateT.bind, ExceptT.run, EarlyReturnT.return,
    EarlyReturn.runK]
  rcases action s with ⟨fault | x, s'⟩
  · cases fault <;> rfl
  · rfl

lemma answer_of_ifResolvable {α : Type} {action : Action α} {s s' : Session} {answer : Option α}
    (run : outcome (ifResolvable action) s = (.ok answer, s')) :
    (∃ x, answer = some x ∧ outcome action s = (.ok x, s')) ∨
      answer = none ∧ ∃ e, outcome action s = (.error (.resolution e), s') := by
  rw [outcome_ifResolvable] at run
  rcases h : outcome action s with ⟨fault | x, s₁⟩
  · rw [h] at run
    cases fault with
    | resolution e =>
      cases run
      exact .inr ⟨rfl, e, rfl⟩
    | _ => cases run
  · rw [h] at run
    cases run
    exact .inl ⟨x, rfl, rfl⟩

/-- Names with the normal forms that the declarations without parameters were resolved to.  A
declaration is only missing because it could not be resolved. -/
structure Resolved (ds : List Declaration) (types : List (String × TypeExpr)) : Prop where
  sound : ∀ name t, (name, t) ∈ types → ∃ d ∈ ds, d.name = name ∧ d.arity = 0 ∧
    ∃ s s', outcome (Action.resolve (.reference (.written none) name [])) s = (.ok t, s')
  complete : ∀ d ∈ ds, d.arity = 0 → (∃ t, (d.name, t) ∈ types) ∨
    ∃ s s' e, outcome (Action.resolve (.reference (.written none) d.name [])) s =
      (.error (.resolution e), s')

/-- Pairs of different names whose types were found to be subtypes.  A pair is only missing because
its types were found not to be, or could not be compared. -/
structure Found (openRecords : Bool) (types : List (String × TypeExpr)) (r : Relation) : Prop where
  sound : ∀ a b, (a, b) ∈ r → a ≠ b ∧ ∃ t u, (a, t) ∈ types ∧ (b, u) ∈ types ∧
    ∃ s s', outcome (Action.isSubtype openRecords t u) s = (.ok true, s')
  complete : ∀ a t b u, (a, t) ∈ types → (b, u) ∈ types → a ≠ b → (a, b) ∈ r ∨
    ∃ s s', outcome (Action.isSubtype openRecords t u) s = (.ok false, s') ∨
      ∃ e, outcome (Action.isSubtype openRecords t u) s = (.error (.resolution e), s')

lemma resolved_of_normalForms {ds : List Declaration} {types : List (String × TypeExpr)}
    {s s' : Session} (run : outcome (normalForms ds) s = (.ok types, s')) : Resolved ds types := by
  change outcome (ds.filterMapM _) s = _ at run
  obtain ⟨sound, complete⟩ := outcome_filterMapM run
  constructor
  · intro name t ht
    obtain ⟨d, hd, s₁, s₂, h⟩ := sound _ ht
    by_cases plain : d.arity = 0
    · rw [if_pos plain, outcome_bind] at h
      rcases hr : outcome (ifResolvable (Action.resolve (.reference (.written none) d.name [])))
        s₁ with ⟨fault | answer, s₃⟩ <;> rw [hr] at h
      · cases h
      rcases answer_of_ifResolvable hr with ⟨u, rfl, hu⟩ | ⟨rfl, -⟩
      · cases h
        exact ⟨d, hd, rfl, plain, _, _, hu⟩
      · cases h
    · rw [if_neg plain] at h
      cases h
  · intro d hd plain
    obtain ⟨answer, s₁, s₂, h, kept⟩ := complete d hd
    rw [if_pos plain, outcome_bind] at h
    rcases hr : outcome (ifResolvable (Action.resolve (.reference (.written none) d.name [])))
      s₁ with ⟨fault | answer', s₃⟩ <;> rw [hr] at h
    · cases h
    rcases answer_of_ifResolvable hr with ⟨u, rfl, -⟩ | ⟨rfl, e, he⟩
    · cases h
      exact .inl ⟨u, kept _ rfl⟩
    · exact .inr ⟨_, _, e, he⟩

/-- What was answered to the question for one pair. -/
lemma outcome_pair {openRecords : Bool} {a b : String} {t u : TypeExpr} {s s' : Session}
    {answer : Option (String × String)}
    (run : outcome (do
      if a = b then return none
      let holds ← ifResolvable (Action.isSubtype openRecords t u)
      return if holds = some true then some (a, b) else none) s = (.ok answer, s')) :
    (∀ p ∈ answer, p = (a, b) ∧ a ≠ b ∧
        outcome (Action.isSubtype openRecords t u) s = (.ok true, s')) ∧
      (a ≠ b → answer = none →
        outcome (Action.isSubtype openRecords t u) s = (.ok false, s') ∨
          ∃ e, outcome (Action.isSubtype openRecords t u) s = (.error (.resolution e), s')) := by
  by_cases hab : a = b
  · rw [if_pos hab] at run
    cases run
    exact ⟨by simp, fun h => absurd hab h⟩
  rw [if_neg hab, outcome_bind] at run
  rcases hr : outcome (ifResolvable (Action.isSubtype openRecords t u)) s with
    ⟨fault | holds, s₁⟩ <;> rw [hr] at run <;> cases run
  rcases answer_of_ifResolvable hr with ⟨x, rfl, hx⟩ | ⟨rfl, e, he⟩
  · cases x with
    | true => exact ⟨fun p hp => ⟨(Option.mem_some.1 hp).symm, hab, hx⟩, by simp⟩
    | false => exact ⟨by simp, fun _ _ => .inl hx⟩
  · exact ⟨by simp, fun _ _ => .inr ⟨e, he⟩⟩

lemma found_of_subtypeRelation {openRecords : Bool} {types : List (String × TypeExpr)}
    {s s' : Session} (run : outcome (subtypeRelation openRecords types) s = (.ok r, s')) :
    Found openRecords types r := by
  rw [subtypeRelation, outcome_bind] at run
  rcases hrows : outcome (types.mapM _) s with ⟨fault | rows, s₁⟩ <;> rw [hrows] at run <;>
    cases run
  obtain ⟨sound, complete⟩ := outcome_mapM hrows
  constructor
  · intro a b hab
    obtain ⟨row, hrow, hab⟩ := List.mem_flatten.1 hab
    obtain ⟨⟨a', t⟩, ht, s₁, s₂, h⟩ := sound row hrow
    obtain ⟨⟨b', u⟩, hu, s₃, s₄, h⟩ := (outcome_filterMapM h).1 _ hab
    obtain ⟨hp, ne, found⟩ := (outcome_pair h).1 _ rfl
    cases hp
    exact ⟨ne, t, u, ht, hu, s₃, s₄, found⟩
  · intro a t b u ht hu ne
    obtain ⟨row, hrow, s₁, s₂, h⟩ := complete _ ht
    obtain ⟨answer, s₃, s₄, h, kept⟩ := (outcome_filterMapM h).2 _ hu
    obtain ⟨sound, missing⟩ := outcome_pair h
    cases answer with
    | none => exact .inr ⟨s₃, s₄, missing ne rfl⟩
    | some p =>
      obtain ⟨rfl, -⟩ := sound p rfl
      exact .inl (List.mem_flatten.2 ⟨row, hrow, kept _ rfl⟩)

/-! ## The triples of a taxonomy -/

/-- The triple that publishes a pair. -/
def edge (options : VocabularyOptions) (a b : String) : Triple :=
  ⟨resource options a, Rdfs.subClassOf, resource options b⟩

lemma edge_injective {options : VocabularyOptions} {a' b' : String}
    (h : edge options a b = edge options a' b') : a = a' ∧ b = b' := by
  simpa [edge, resource] using h

lemma outcome_taxonomy {options : VocabularyOptions} {s s' : Session} {triples : List Triple}
    (run : outcome (taxonomy options) s = (.ok triples, s')) :
    ∃ types r s₁, outcome (normalForms (described s.registry)) s = (.ok types, s₁) ∧
      outcome (subtypeRelation options.openRecords types) s₁ = (.ok r, s') ∧
      triples = (reduced r).map fun p => edge options p.1 p.2 := by
  simp only [taxonomy, outcome_bind, outcome_get] at run
  rcases hforms : outcome (normalForms (described s.registry)) s with ⟨fault | types, s₁⟩
  · rw [hforms] at run
    cases run
  rw [hforms] at run
  dsimp only at run
  rcases hfound : outcome (subtypeRelation options.openRecords types) s₁ with ⟨fault | r, s₂⟩
  · rw [hfound] at run
    cases run
  rw [hfound] at run
  cases run
  exact ⟨types, r, s₁, rfl, hfound, rfl⟩

/-- A taxonomy says nothing that was not found.  What was found can be followed along it, unless a
name strictly in between is strictly below itself. -/
theorem taxonomy_reaches {options : VocabularyOptions} {s s' : Session} {triples : List Triple}
    (run : outcome (taxonomy options) s = (.ok triples, s')) :
    ∃ types r s₁, outcome (normalForms (described s.registry)) s = (.ok types, s₁) ∧
      outcome (subtypeRelation options.openRecords types) s₁ = (.ok r, s') ∧
      Resolved (described s.registry) types ∧ Found options.openRecords types r ∧
      (∀ triple ∈ triples, ∃ a b, (a, b) ∈ r ∧ triple = edge options a b) ∧
      ∀ a c, (a, c) ∈ r → (∀ x ∈ between r a c, ¬ StrictWay r x x) →
        Relation.TransGen (fun x y => edge options x y ∈ triples) a c := by
  obtain ⟨types, r, s₁, forms, found, rfl⟩ := outcome_taxonomy run
  refine ⟨types, r, s₁, forms, found, resolved_of_normalForms forms, found_of_subtypeRelation found,
    fun triple ht => ?_, fun a c h once => ?_⟩
  · obtain ⟨⟨a, b⟩, hab, rfl⟩ := List.mem_map.1 ht
    exact ⟨a, b, (mem_reduced.1 hab).1, rfl⟩
  · have published : (fun x y => (x, y) ∈ reduced r) ≤ fun x y =>
        edge options x y ∈ (reduced r).map fun p => edge options p.1 p.2 :=
      fun x y hxy => List.mem_map.2 ⟨(x, y), hxy, rfl⟩
    exact Relation.TransGen.mono published _ _ (reached_of_mem h once)

/-! ## Names for tuple types

The names below stand for tuple types whose items refer to no other name.  Their normal forms depend
on the session only through the stamps that are given out, and are compared without a demand.
-/

open TypeNotation.Action TypeNotation.Expansion

/-- A named type whose body is a tuple type is productive. -/
lemma checkProductive_tuple {h : Heap} {m m' : Mark} {name : String} {items : List TypeExpr}
    (hbody : h.body? m.stamp = some (.tuple m' items)) :
    h.checkProductive [.named m name []] = .ok () := by
  have inside (bound : Nat) (path : Heap.Path) :
      h.walk bound path (.tuple m' items) [] = .ok [] := by
    cases bound <;> rfl
  simp only [Heap.checkProductive, List.foldlM, Heap.walk, Heap.walkWith, List.not_mem_nil,
    if_false, List.findIdx?_nil, hbody, inside]
  rfl

/-- A name for a tuple type, with the items that it is expanded to when a given stamp is the next,
and the number of stamps that they take up. -/
structure Tupled where
  name : String
  written : List TypeExpr
  items : Nat → List TypeExpr
  stamps : Nat

namespace Tupled

/-- The declaration of the name. -/
def declaration (d : Tupled) : Declaration :=
  ⟨d.name, [], .tuple (.written none) d.written, none⟩

/-- The normal form of the name when a given stamp is the next. -/
def form (d : Tupled) (next : Nat) : TypeExpr :=
  .tuple ⟨none, next + 2 + d.stamps⟩ (d.items (next + 2))

/-- The names with their normal forms, as they are resolved one after the other. -/
def forms : Nat → List Tupled → List (String × TypeExpr)
  | _, [] => []
  | next, d :: rest => (d.name, d.form next) :: forms (next + 2 + d.stamps + 1) rest

/-- The items are expanded without opening a declaration. -/
structure Expands (declarations : List Declaration) (d : Tupled) : Prop where
  lookup : Registry.lookupIn declarations d.name = some d.declaration
  run : ∀ memo opening (store : Store) (r : Resolver), r.pending = [] →
    outcome (expandIn ⟨declarations, memo⟩ 1 opening [] (some d.name) d.declaration.body)
      ⟨store, r⟩ =
      (.ok (.tuple ⟨none, store.nextStamp + d.stamps⟩ (d.items store.nextStamp)),
        ⟨{ store with nextStamp := store.nextStamp + d.stamps + 1 }, r⟩)

variable {s : Session} {d : Tupled}

lemma Expands.resolve (h : Expands s.registry.declarations d)
    (new : s.registry.memoized (.named (.written none) d.name []) = none) :
    ∃ s', outcome (Action.resolve (.reference (.written none) d.name [])) s =
        (.ok (d.form s.store.nextStamp), s') ∧
      s'.registry = s.registry.memoize [.named ⟨none, s.store.nextStamp + 1⟩ d.name []] ∧
      s'.store.nextStamp = s.store.nextStamp + 2 + d.stamps + 1 := by
  let node : TypeExpr := .named ⟨none, s.store.nextStamp + 1⟩ d.name []
  let e : Expanding := ⟨{ (withResolver s 10000 64).store with
      nextStamp := s.store.nextStamp + 2 + d.stamps + 1
      heap := s.store.heap.setBody (s.store.nextStamp + 1) (d.form s.store.nextStamp) },
    ⟨10000, 64, 1, [node], []⟩⟩
  have run : outcome (expand s.registry [] none (.reference (.written none) d.name []))
      ⟨(withResolver s 10000 64).store, .ofBudget 10000 64⟩ = (.ok node, e) := by
    have lookup : s.registry.lookup d.name = some d.declaration := h.lookup
    have room : expandAt s.registry 64 0 [] none (.reference (.written none) d.name []) =
        expandIn s.registry 0 (some fun body env scope => expandAt s.registry 63 1 env scope body)
          [] none (.reference (.written none) d.name []) := rfl
    have opened : expandAt s.registry 63 1 [] (some d.name) d.declaration.body =
        expandIn s.registry 1 (some fun body env scope => expandAt s.registry 62 2 env scope body)
          [] (some d.name) d.declaration.body := rfl
    have name : d.declaration.name = d.name := rfl
    have parameters : d.declaration.parameters = [] := rfl
    have start : (withResolver s 10000 64).store.nextStamp = s.store.nextStamp + 1 := rfl
    simp only [expand, outcome_bind, outcome_get, Resolver.ofBudget, room, expandIn, declarationOf,
      lookup, Declaration.arity, parameters, List.length_nil, if_true, outcome_pure, expandAll,
      outcome_reference, known?, List.find?_nil, Option.orElse_none, name, new, enter,
      Declaration.binding, Declaration.letters, List.map_nil, List.zip_nil_left, List.reverse_nil,
      opened, start]
    rw [if_neg (by decide), h.run _ _ _ _ rfl]
    rfl
  have hbody : e.store.heap.body? (s.store.nextStamp + 1) = some (d.form s.store.nextStamp) := by
    simp [e, Heap.body?, Heap.setBody]
  have unfolded : e.store.heap.unfold node = d.form s.store.nextStamp := by
    have rest (bound : Nat) (seen : List Nat) :
        e.store.heap.unfoldFrom bound seen (d.form s.store.nextStamp) =
          d.form s.store.nextStamp := by
      cases bound <;> rfl
    simp only [Heap.unfold, Heap.unfoldFrom, node, hbody, List.not_mem_nil, if_false, rest]
  have ok := outcome_resolveAnew run rfl (checkProductive_tuple hbody)
  rw [unfolded] at ok
  exact ⟨_, ok, rfl, rfl⟩

/-- Names that have not been remembered. -/
def Unknown (r : Registry) (name : String) : Prop :=
  ∀ t ∈ r.memo, t.same (.named (.written none) name []) = false

lemma Unknown.memoize {r : Registry} {name name' : String} (h : Unknown r name)
    (ne : name' ≠ name) (m : Mark) : Unknown (r.memoize [.named m name' []]) name := by
  have other : TypeExpr.same (.named m name' []) (.named (.written none) name []) = false := by
    simp [TypeExpr.same, ne]
  intro t ht
  simp only [Registry.memoize, List.foldl_cons, List.foldl_nil, Registry.remember] at ht
  split at ht
  · obtain ⟨u, hu, rfl⟩ := List.mem_map.1 ht
    split
    · exact other
    · exact h u hu
  · rcases List.mem_append.1 ht with ht | ht
    · exact h t ht
    · rw [List.mem_singleton.1 ht]
      exact other

lemma Unknown.memoized {r : Registry} {name : String} (h : Unknown r name) :
    r.memoized (.named (.written none) name []) = none :=
  List.find?_eq_none.2 fun t ht => by simp [h t ht]

/-- Different names for tuple types are all resolved. -/
lemma outcome_normalForms {ds : List Tupled}
    (expands : ∀ d ∈ ds, Expands s.registry.declarations d) (nodup : (ds.map name).Nodup)
    (unknown : ∀ d ∈ ds, Unknown s.registry d.name) :
    ∃ s', outcome (normalForms (ds.map declaration)) s =
      (.ok (forms s.store.nextStamp ds), s') := by
  induction ds generalizing s with
  | nil => exact ⟨s, rfl⟩
  | cons d ds ih =>
    obtain ⟨new, nodup⟩ := List.nodup_cons.1 nodup
    obtain ⟨s₁, first, registry, next⟩ :=
      (expands d List.mem_cons_self).resolve (unknown d List.mem_cons_self).memoized
    have declarations : s₁.registry.declarations = s.registry.declarations := by
      rw [registry]
      rfl
    obtain ⟨s₂, rest⟩ := ih (s := s₁)
      (fun d' hd' => declarations ▸ expands d' (List.mem_cons_of_mem _ hd')) nodup
      fun d' hd' => by
        rw [registry]
        refine (unknown d' (List.mem_cons_of_mem _ hd')).memoize (fun same => new ?_) _
        exact same ▸ List.mem_map_of_mem hd'
    rw [next] at rest
    refine ⟨s₂, ?_⟩
    change outcome ((ds.map declaration).filterMapM _) s₁ = _ at rest
    change outcome ((d.declaration :: ds.map declaration).filterMapM _) s = _
    have arity : d.declaration.arity = 0 := rfl
    rw [List.filterMapM_cons, if_pos arity]
    have first : outcome (Action.resolve (.reference (.written none) d.declaration.name [])) s =
      (.ok (d.form s.store.nextStamp), s₁) := first
    simp only [outcome_bind, outcome_ifResolvable, first, outcome_pure,
      Option.map_some, rest, forms]
    rfl

end Tupled

/-- Where no question demands anything, the relation that is found is made of the answers. -/
lemma outcome_subtypeRelation {openRecords : Bool} {types : List (String × TypeExpr)}
    {s : Session} (holds : String → String → Bool)
    (answers : ∀ p ∈ types, ∀ q ∈ types, p.1 ≠ q.1 →
      (Matcher.mk s.store.heap openRecords).isSubtype depthBound p.2 q.2 = .ok (holds p.1 q.1)) :
    outcome (subtypeRelation openRecords types) s =
      (.ok (types.map fun p => types.filterMap fun q =>
        if p.1 ≠ q.1 ∧ holds p.1 q.1 = true then some (p.1, q.1) else none).flatten, s) := by
  rw [subtypeRelation, outcome_bind,
    outcome_mapM_eq fun p hp => outcome_filterMapM_eq fun q hq => ?_]
  · rfl
  by_cases same : p.1 = q.1
  · simp [same]
  have asked : outcome (Action.isSubtype openRecords p.2 q.2) s = (.ok (holds p.1 q.1), s) := by
    rw [Action.isSubtype, ask, depthBound, outcome_askWith, ← depthBound, answers p hp q hq same]
  simp [same, outcome_ifResolvable, asked, Except.map]

/-- A session in which names for tuple types have been declared. -/
def declaring (ds : List Tupled) : Session :=
  (outcome (Action.load (ds.map Tupled.declaration)) (.ofRegistry .empty)).2

/-- Names for tuple types, and the relation that is found among them. -/
structure Drawn (ds : List Tupled) (r : Relation) : Prop where
  declared : described (declaring ds).registry = ds.map Tupled.declaration
  unresolved : (declaring ds).registry.memo = []
  next : (declaring ds).store.nextStamp = 1
  nodup : (ds.map Tupled.name).Nodup
  expands : ∀ d ∈ ds, Tupled.Expands (declaring ds).registry.declarations d
  answers : ∀ h : Heap, ∀ p ∈ Tupled.forms 1 ds, ∀ q ∈ Tupled.forms 1 ds, p.1 ≠ q.1 →
    (Matcher.mk h true).isSubtype depthBound p.2 q.2 = .ok (decide ((p.1, q.1) ∈ r))
  all : ((Tupled.forms 1 ds).map fun p => (Tupled.forms 1 ds).filterMap fun q =>
    if p.1 ≠ q.1 ∧ (p.1, q.1) ∈ r then some (p.1, q.1) else none).flatten = r

/-- Their taxonomy publishes what is left of the relation. -/
lemma Drawn.taxonomy {ds : List Tupled} (drawn : Drawn ds r) : ∃ s,
    outcome (normalForms (described (declaring ds).registry)) (declaring ds) =
        (.ok (Tupled.forms 1 ds), s) ∧
      outcome (subtypeRelation true (Tupled.forms 1 ds)) s = (.ok r, s) ∧
      outcome (Vocabulary.taxonomy (.standard false)) (declaring ds) =
        (.ok ((reduced r).map fun p => edge (.standard false) p.1 p.2), s) := by
  have unknown : ∀ d ∈ ds, Tupled.Unknown (declaring ds).registry d.name := by
    intro d _ t ht
    rw [drawn.unresolved] at ht
    cases ht
  obtain ⟨s, forms⟩ := Tupled.outcome_normalForms drawn.expands drawn.nodup unknown
  rw [drawn.next, ← drawn.declared] at forms
  have found := outcome_subtypeRelation (fun a b => decide ((a, b) ∈ r))
    (drawn.answers s.store.heap)
  simp only [decide_eq_true_eq, drawn.all] at found
  refine ⟨s, forms, found, ?_⟩
  have found : outcome (subtypeRelation (VocabularyOptions.standard false).openRecords
      (Tupled.forms 1 ds)) s = (.ok r, s) := found
  simp only [Vocabulary.taxonomy, outcome_bind, outcome_get, forms, found, outcome_pure]
  rfl

/-! ### Types with marks

A type is given with its marks, which are all the same as it is written, and follow each other when
it has been resolved. -/

/-- The marks of a type as it is written. -/
def asWritten (_ : Nat) : Mark := .written none

/-- The marks that are given out from a stamp on. -/
def stamped (next : Nat) (i : Nat) : Mark := ⟨none, next + i⟩

/-- Nothing at all. -/
def nothing : TypeExpr := .unit (.written none)

/-- Tuples of nothing. -/
def tuples (mark : Nat → Mark) : TypeExpr := .tuple (mark 0) [nothing]

/-- Lists of nothing. -/
def lists (mark : Nat → Mark) : TypeExpr := .list (mark 0) [nothing]

/-! ### A chain -/

/-- Tuples of a tuple, of a list, and of a list or nothing. -/
def chain : List Tupled :=
  [⟨"a", [tuples asWritten], fun n => [tuples (stamped n)], 1⟩,
    ⟨"b", [lists asWritten], fun n => [lists (stamped n)], 1⟩,
    ⟨"c", [.union (.written none) (lists asWritten) nothing],
      fun n => [.union ⟨none, n + 1⟩ (lists (stamped n)) nothing], 2⟩]

/-- Each of them is below those after it. -/
def chainRelation : Relation :=
  [("a", "b"), ("a", "c"), ("b", "c")]

lemma drawn_chain : Drawn chain chainRelation where
  declared := rfl
  unresolved := rfl
  next := rfl
  nodup := by decide
  expands := by
    intro d hd
    simp only [chain, List.mem_cons, List.not_mem_nil, or_false] at hd
    rcases hd with rfl | rfl | rfl <;> exact ⟨rfl, fun _ _ _ _ _ => rfl⟩
  answers := by
    intro h p hp q hq ne
    simp only [chain, Tupled.forms, List.mem_cons, List.not_mem_nil, or_false] at hp hq
    rcases hp with rfl | rfl | rfl <;> rcases hq with rfl | rfl | rfl <;>
      first | exact absurd rfl ne | cbv
  all := by decide

/-- The last name of a chain is reached from the first. -/
theorem taxonomy_reaches_chain : ∃ s triples,
    outcome (taxonomy (.standard false)) (declaring chain) = (.ok triples, s) ∧
      Relation.TransGen (fun x y => edge (.standard false) x y ∈ triples) "a" "c" := by
  obtain ⟨s, forms, found, run⟩ := drawn_chain.taxonomy
  obtain ⟨types, r, s₁, forms', found', -, -, -, reaches⟩ := taxonomy_reaches run
  rw [forms] at forms'
  cases forms'
  obtain rfl : chainRelation = r := by
    change outcome (subtypeRelation true _) s = _ at found'
    rw [found] at found'
    cases found'
    rfl
  have composed : ∀ p ∈ chainRelation, ∀ q ∈ chainRelation, p.2 = q.1 →
      (p.1, q.2) ∈ chainRelation := by decide
  have transitive (x : String) : ¬ StrictWay chainRelation x x :=
    not_strictWay_self (fun _ _ _ h h' => composed _ h _ h' rfl) x
  exact ⟨s, _, run, reaches "a" "c" (by decide) fun x _ => transitive x⟩

/-! ### A round -/

/-- Lists of nothing, which nothing is not among. -/
def listsAlone (mark : Nat → Mark) : TypeExpr :=
  .complement (mark 1) (lists mark) nothing

/-- The same, where nothing is named by a variable that it bounds. -/
def listsApart (mark : Nat → Mark) (scope : Option String) : TypeExpr :=
  .complement (mark 3) (lists mark) (.predicate (mark 2) nothing
    (.typeVariable (mark 1) ⟨"A", scope⟩) [⟨none, ⟨"A", scope⟩⟩])

/-- Tuples of nothing, which nothing is not among. -/
def tuplesAlone (mark : Nat → Mark) : TypeExpr :=
  .complement (mark 1) (tuples mark) nothing

/-- Tuples of the three kinds of lists in turn, and tuples of tuples. -/
def round : List Tupled :=
  [⟨"a", [tuplesAlone asWritten, tuplesAlone asWritten, tuplesAlone asWritten], fun n =>
      [tuplesAlone (stamped n), tuplesAlone (stamped (n + 2)), tuplesAlone (stamped (n + 4))], 6⟩,
    ⟨"x", [lists asWritten, listsAlone asWritten, listsApart asWritten none], fun n =>
      [lists (stamped n), listsAlone (stamped (n + 1)),
        listsApart (stamped (n + 3)) (some "x")], 7⟩,
    ⟨"y", [listsAlone asWritten, listsApart asWritten none, lists asWritten], fun n =>
      [listsAlone (stamped n), listsApart (stamped (n + 2)) (some "y"),
        lists (stamped (n + 6))], 7⟩,
    ⟨"z", [listsApart asWritten none, lists asWritten, listsAlone asWritten], fun n =>
      [listsApart (stamped n) (some "z"), lists (stamped (n + 4)),
        listsAlone (stamped (n + 5))], 7⟩]

/-- Each kind of lists is found to be below the next, but the first is not found to be below the
third. -/
def roundRelation : Relation :=
  [("a", "x"), ("a", "y"), ("a", "z"), ("x", "y"), ("y", "z"), ("z", "x")]

lemma drawn_round : Drawn round roundRelation where
  declared := rfl
  unresolved := rfl
  next := rfl
  nodup := by decide
  expands := by
    intro d hd
    simp only [round, List.mem_cons, List.not_mem_nil, or_false] at hd
    rcases hd with rfl | rfl | rfl | rfl <;> refine ⟨rfl, fun _ _ _ r h => ?_⟩ <;> cases r <;>
      cases h <;> rfl
  answers := by
    intro h p hp q hq ne
    simp only [round, Tupled.forms, List.mem_cons, List.not_mem_nil, or_false] at hp hq
    rcases hp with rfl | rfl | rfl | rfl <;> rcases hq with rfl | rfl | rfl | rfl <;>
      first | exact absurd rfl ne | cbv
  all := by decide

/-- A name that is below all names of a round is not related to any of them by the taxonomy. -/
theorem not_taxonomy_reaches_round : ∃ s triples,
    outcome (normalForms (described (declaring round).registry)) (declaring round) =
        (.ok (Tupled.forms 1 round), s) ∧
      outcome (subtypeRelation true (Tupled.forms 1 round)) s = (.ok roundRelation, s) ∧
      outcome (taxonomy (.standard false)) (declaring round) = (.ok triples, s) ∧
      ("a", "x") ∈ roundRelation ∧
      ¬ Relation.TransGen (fun x y => edge (.standard false) x y ∈ triples) "a" "x" := by
  obtain ⟨s, forms, found, run⟩ := drawn_round.taxonomy
  refine ⟨s, _, forms, found, run, by decide, fun way => ?_⟩
  obtain ⟨b, first, -⟩ := Relation.TransGen.head'_iff.1 way
  obtain ⟨⟨x, y⟩, kept, eq⟩ := List.mem_map.1 first
  obtain ⟨rfl, rfl⟩ := edge_injective eq
  have left : reduced roundRelation = [("x", "y"), ("y", "z"), ("z", "x")] := by decide
  rw [left] at kept
  simp at kept

end Vocabulary

end TypeNotation
