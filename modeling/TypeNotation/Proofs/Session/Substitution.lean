import TypeNotation.Proofs.Relation.Application
import TypeNotation.Proofs.Session.Comparison

/-!
# Functions that stand in for others

A client that is told that one function type is below another may use it in its place: whatever data
the other may be applied to it may be applied to as well, and every callable that inhabits it
inhabits the other.  Only what the inputs reach matters for that, and it has to be concrete, since a
type variable, a predicate or a power that is not computed does not decide by itself what it holds.
What is returned is compared but never matched.

The bodies of named types are needed here, too: a function of a name without a body is found to be
below functions whose arguments it never accepts.
-/

namespace TypeNotation

open TypeExpr TypeNotation.Action Expansion

namespace Client

variable {c : Client} {openRecords : Bool} {mk mk' : Mark}
  {inputs inputs' : List (Parameter TypeExpr)} {outputs outputs' : List TypeExpr}

/-- Among function types that a client holds, a subtype can be applied to all data to which the
supertype can, and every callable that inhabits the subtype inhabits the supertype. -/
theorem substitutable (h : c.Reachable) (ha : .function mk inputs outputs ∈ c.held)
    (hb : .function mk' inputs' outputs' ∈ c.held)
    (plain : ∀ t, c.session.store.heap.From ((inputs ++ inputs').map (·.type)) t →
      t.isConcrete = true ∧ t.isDelegation = false)
    (body : ∀ m name args,
      c.session.store.heap.From ((inputs ++ inputs').map (·.type)) (.named m name args) →
        (c.session.store.heap.body? m.stamp).isSome) {depth : Nat}
    (hsub : (Matcher.mk c.session.store.heap openRecords).isSubtype depth
      (.function mk inputs outputs) (.function mk' inputs' outputs') = .ok true) :
    (∀ arguments : List Value, (∀ v ∈ arguments, v.Data False) →
      (∃ depth, (Matcher.mk c.session.store.heap openRecords).contains depth (.call arguments)
        (.function mk' inputs' outputs') [] = .ok true) →
      ∃ bound, ∀ depth, bound ≤ depth →
        (Matcher.mk c.session.store.heap openRecords).contains depth (.call arguments)
          (.function mk inputs outputs) [] = .ok true) ∧
    ∀ slots : Option (List Slot),
      (∃ depth, (Matcher.mk c.session.store.heap openRecords).contains depth (.callable slots)
        (.function mk inputs outputs) [] = .ok true) →
      ∃ bound, ∀ depth, bound ≤ depth →
        (Matcher.mk c.session.store.heap openRecords).contains depth (.callable slots)
          (.function mk' inputs' outputs') [] = .ok true := by
  obtain ⟨st, on⟩ := h.on
  rw [← on.session] at plain body hsub ⊢
  have concrete := on.sound.concrete (Heap.plainOver_from (fun t ht => (plain t ht).1) body)
    (False.elim : False → _)
  have serves := Matcher.serves_of_subtype hsub
  constructor
  · rintro arguments data ⟨depth', hin⟩
    have takes : ∀ p ∈ inputs, p.type.ResolvedOver st.settled ∧
        st.store.heap.From ((inputs ++ inputs').map (·.type)) p.type := fun p hp =>
      ⟨(on.held _ ha).part (List.mem_append_left _ (List.mem_map_of_mem hp)), p.type,
        List.mem_map_of_mem (List.mem_append_left _ hp), .refl⟩
    have takes' : ∀ p ∈ inputs', p.type.ResolvedOver st.settled ∧
        st.store.heap.From ((inputs ++ inputs').map (·.type)) p.type := fun p hp =>
      ⟨(on.held _ hb).part (List.mem_append_left _ (List.mem_map_of_mem hp)), p.type,
        List.mem_map_of_mem (List.mem_append_right _ hp), .refl⟩
    have ordinary : ∀ w ∈ arguments, w.Ordinary False := fun w hw => (data w hw).definite
    refine serves.call concrete takes takes' ordinary (fun w hw x y hx hy below hwx => ?_)
      (Matcher.holds_of_contains hin)
    -- data are held by whatever is above a type that holds them
    rcases below with same | ⟨depth, hxy⟩
    · exact (Matcher.holds_congr concrete hx hy same (ordinary w hw)).1 hwx
    · have fair : (Matcher.mk st.store.heap openRecords).Fair _ (openRecords = true) False :=
        ⟨concrete, id, False.elim⟩
      have direct : Matcher.Straight (fun t => t.ResolvedOver st.settled ∧
          st.store.heap.From ((inputs ++ inputs').map (·.type)) t) False :=
        ⟨fun ht => (plain _ ht.2).2, id⟩
      have sound := (Matcher.relations_sound fair (fun _ => direct) depth).1 direct
      exact sound hx hy hxy (data w hw).definite (by simp) hwx
  · rintro slots ⟨depth', hin⟩
    exact serves.callable (Matcher.holds_of_contains hin)

/-! ### A variadic function -/

/-- Nothing at all. -/
def nothing : TypeExpr := .unit (.written none)

/-- A function of lists, however many. -/
def generous (m m' : Mark) : TypeExpr :=
  .function m [⟨.list m' [nothing], .variadic, none⟩] [nothing]

/-- A function of a tuple and at most one list. -/
def modest (m m' m'' : Mark) : TypeExpr :=
  .function m [⟨.tuple m' [nothing], .none, none⟩, ⟨.list m'' [nothing], .optional, none⟩] [nothing]

/-- A client that holds both. -/
def versed : Client :=
  ((start .empty).resolvedAnew 1 1 (generous (.written none) (.written none))).resolvedAnew 1 1
    (modest (.written none) (.written none) (.written none))

lemma versed_spec :
    versed.session.store.heap = .empty ∧
      versed.held = [generous ⟨none, 3⟩ ⟨none, 2⟩, modest ⟨none, 7⟩ ⟨none, 5⟩ ⟨none, 6⟩] := by
  rw [versed, resolvedAnew_eq (c := start .empty) rfl rfl rfl, resolvedAnew_eq rfl rfl rfl]
  exact ⟨rfl, rfl⟩

lemma reachable_versed : versed.Reachable := by
  have unit : Written nothing := throughout_iff.2 ⟨trivial, by simp [parts, nothing]⟩
  have list : Written (.list (.written none) [nothing]) :=
    throughout_iff.2 ⟨trivial, List.forall_mem_singleton.2 unit⟩
  have tuple : Written (.tuple (.written none) [nothing]) :=
    throughout_iff.2 ⟨trivial, List.forall_mem_singleton.2 unit⟩
  have generous : Written (generous (.written none) (.written none)) :=
    throughout_iff.2 ⟨trivial, by simpa [parts, generous] using ⟨list, unit⟩⟩
  have modest : Written (modest (.written none) (.written none) (.written none)) :=
    throughout_iff.2 ⟨trivial, by simpa [parts, modest] using ⟨tuple, list, unit⟩⟩
  exact ((Reachable.start List.mem_cons_self).resolvedAnew generous.over).resolvedAnew modest.over

/-- What the inputs reach. -/
lemma from_versed {t : TypeExpr}
    (h : Heap.empty.From [.list ⟨none, 2⟩ [nothing], .tuple ⟨none, 5⟩ [nothing],
      .list ⟨none, 6⟩ [nothing]] t) :
    (∃ m, t = .list m [nothing]) ∨ (∃ m, t = .tuple m [nothing]) ∨ t = nothing := by
  obtain ⟨s, hs, reaches⟩ := h
  induction reaches with
  | refl =>
    simp only [List.mem_cons, List.not_mem_nil, or_false] at hs
    rcases hs with rfl | rfl | rfl
    · exact .inl ⟨_, rfl⟩
    · exact .inr (.inl ⟨_, rfl⟩)
    · exact .inl ⟨_, rfl⟩
  | part _ _ hv ih =>
    rcases ih with ⟨m, rfl⟩ | ⟨m, rfl⟩ | rfl
    · exact .inr (.inr (List.mem_singleton.1 hv))
    · exact .inr (.inr (List.mem_singleton.1 hv))
    · cases hv
  | body _ hbody _ => simp [Heap.body?, Heap.empty] at hbody

/-- The first stands in for the second: it may be called with an empty tuple, and a callable that
takes whatever it is given is a callable of the second kind. -/
theorem substitutable_versed :
    (Matcher.mk versed.session.store.heap true).isSubtype 3 (generous ⟨none, 3⟩ ⟨none, 2⟩)
        (modest ⟨none, 7⟩ ⟨none, 5⟩ ⟨none, 6⟩) = .ok true ∧
      (∃ bound, ∀ depth, bound ≤ depth →
        (Matcher.mk versed.session.store.heap true).contains depth
          (.call [.tuple [.absent], .list []]) (generous ⟨none, 3⟩ ⟨none, 2⟩) [] = .ok true) ∧
      ∃ bound, ∀ depth, bound ≤ depth →
        (Matcher.mk versed.session.store.heap true).contains depth
          (.callable (some [⟨.restPositional, false⟩])) (modest ⟨none, 7⟩ ⟨none, 5⟩ ⟨none, 6⟩) [] =
            .ok true := by
  obtain ⟨heap, held⟩ := versed_spec
  have below : (Matcher.mk versed.session.store.heap true).isSubtype 3
      (generous ⟨none, 3⟩ ⟨none, 2⟩) (modest ⟨none, 7⟩ ⟨none, 5⟩ ⟨none, 6⟩) = .ok true := by
    rw [heap]
    cbv
  have reached {t : TypeExpr} (h : versed.session.store.heap.From [.list ⟨none, 2⟩ [nothing],
      .tuple ⟨none, 5⟩ [nothing], .list ⟨none, 6⟩ [nothing]] t) := from_versed (heap ▸ h)
  have applies := substitutable reachable_versed
    (show generous ⟨none, 3⟩ ⟨none, 2⟩ ∈ _ by simp [held])
    (show modest ⟨none, 7⟩ ⟨none, 5⟩ ⟨none, 6⟩ ∈ _ by simp [held])
    (fun t ht => by rcases reached ht with ⟨m, rfl⟩ | ⟨m, rfl⟩ | rfl <;> exact ⟨rfl, rfl⟩)
    (fun m name args ht => by rcases reached ht with ⟨m, h⟩ | ⟨m, h⟩ | h <;> cases h) below
  refine ⟨below, applies.1 _ ?_ ⟨4, ?_⟩, applies.2 _ ⟨1, ?_⟩⟩
  · simp only [List.forall_mem_cons]
    exact ⟨.tuple (by simpa using .absent), .list (by simp), by simp⟩
  · rw [heap]
    cbv
  · rw [heap]
    cbv

/-! ### An input without a body -/

/-- A name without a body, or nothing at all. -/
def unsure (m : Mark) : TypeExpr :=
  .union m (.named ⟨none, 2⟩ "a" []) nothing

/-- A function of that. -/
def hollow (m m' : Mark) : TypeExpr :=
  .function m [⟨unsure m', .none, none⟩] [nothing]

/-- A function of nothing at all. -/
def sober (m : Mark) : TypeExpr :=
  .function m [⟨nothing, .none, none⟩] [nothing]

/-- A client that was given a type without a body, and resolves a function of it. -/
def deluded : Client :=
  (misled.resolvedAnew 1 1 (hollow (.written none) ⟨none, 4⟩)).resolvedAnew 1 1
    (sober (.written none))

/-- A function type is expanded to one with new marks, and the heap stays as it is. -/
lemma resolvedAnew_hollow {c : Client} (heap : c.session.store.heap = .empty) (n : Mark) :
    ∃ m m', (c.resolvedAnew 1 1 (hollow (.written none) n)).session.store.heap = .empty ∧
      (c.resolvedAnew 1 1 (hollow (.written none) n)).held = c.held ++ [hollow m m'] := by
  obtain ⟨e, m, m', run, pending, expanded, heap⟩ : ∃ (e : Expanding) (m m' : Mark),
      outcome (expand c.session.registry [] none (hollow (.written none) n))
        ⟨(withResolver c.session 1 1).store, .ofBudget 1 1⟩ = (.ok (hollow m m'), e) ∧
      e.resolver.pending = [] ∧ e.resolver.expanded = [] ∧ e.store.heap = .empty :=
    ⟨_, _, _, rfl, rfl, rfl, heap⟩
  have productive : e.store.heap.checkProductive e.resolver.expanded = .ok () := by
    rw [heap, expanded]
    rfl
  have settles : e.store.heap.Settles (hollow m m') := trivial
  rw [resolvedAnew_eq run pending productive, Heap.unfold_of_settles settles]
  exact ⟨m, m', heap, rfl⟩

lemma resolvedAnew_sober {c : Client} (heap : c.session.store.heap = .empty) :
    ∃ m, (c.resolvedAnew 1 1 (sober (.written none))).session.store.heap = .empty ∧
      (c.resolvedAnew 1 1 (sober (.written none))).held = c.held ++ [sober m] := by
  obtain ⟨e, m, run, pending, expanded, heap⟩ : ∃ (e : Expanding) (m : Mark),
      outcome (expand c.session.registry [] none (sober (.written none)))
        ⟨(withResolver c.session 1 1).store, .ofBudget 1 1⟩ = (.ok (sober m), e) ∧
      e.resolver.pending = [] ∧ e.resolver.expanded = [] ∧ e.store.heap = .empty :=
    ⟨_, _, rfl, rfl, rfl, heap⟩
  have productive : e.store.heap.checkProductive e.resolver.expanded = .ok () := by
    rw [heap, expanded]
    rfl
  have settles : e.store.heap.Settles (sober m) := trivial
  rw [resolvedAnew_eq run pending productive, Heap.unfold_of_settles settles]
  exact ⟨m, heap, rfl⟩

lemma deluded_spec : ∃ m m' m'', deluded.session.store.heap = .empty ∧
    deluded.held = [nothing, unsure ⟨none, 4⟩, hollow m m', sober m''] := by
  obtain ⟨heap, held⟩ := misled_spec
  obtain ⟨m, m', heap, held'⟩ := resolvedAnew_hollow heap ⟨none, 4⟩
  obtain ⟨m'', heap, held''⟩ := resolvedAnew_sober heap
  rw [deluded, heap, held'', held', held]
  exact ⟨m, m', m'', rfl, rfl⟩

lemma reachable_deluded : deluded.Reachable := by
  obtain ⟨heap, held⟩ := misled_spec
  have unit : Written nothing := throughout_iff.2 ⟨trivial, by simp [parts, nothing]⟩
  have name : (TypeExpr.named ⟨none, 2⟩ "a" []).Over misled.nodes :=
    throughout_iff.2 ⟨⟨bottomless, by simp [held], by simp [bottomless, subterms]⟩, by simp [parts]⟩
  have input : (unsure ⟨none, 4⟩).Over misled.nodes :=
    throughout_iff.2 ⟨trivial, by simpa [parts, unsure] using ⟨name, unit.over⟩⟩
  have hollow : (hollow (.written none) ⟨none, 4⟩).Over misled.nodes :=
    throughout_iff.2 ⟨trivial, by simpa [parts, hollow] using ⟨input, unit.over⟩⟩
  have sober : Written (sober (.written none)) :=
    throughout_iff.2 ⟨trivial, by simpa [parts, sober] using unit⟩
  exact (reachable_misled.resolvedAnew hollow).resolvedAnew sober.over

lemma from_deluded {m : Mark} {t : TypeExpr} (h : Heap.empty.From [unsure m, nothing] t) :
    t = unsure m ∨ t = .named ⟨none, 2⟩ "a" [] ∨ t = nothing := by
  obtain ⟨s, hs, reaches⟩ := h
  induction reaches with
  | refl =>
    simp only [List.mem_cons, List.not_mem_nil, or_false] at hs
    exact hs.imp_right .inr
  | part _ href hv ih =>
    rcases ih with rfl | rfl | rfl
    · simp only [unsure, valueParts, parts, List.mem_cons, List.not_mem_nil, or_false] at hv
      exact .inr hv
    · cases href
    · cases hv
  | body _ hbody _ => simp [Heap.body?, Heap.empty] at hbody

/-- A function type whose input reaches a name without a body is found to be below another, but a
call that the other holds is never found to inhabit it. -/
theorem not_substitutable_deluded : ∃ m m' m'',
    deluded.Reachable ∧ hollow m m' ∈ deluded.held ∧ sober m'' ∈ deluded.held ∧
      (∀ t, deluded.session.store.heap.From [unsure m', nothing] t →
        t.isConcrete = true ∧ t.isDelegation = false) ∧
      (Matcher.mk deluded.session.store.heap true).isSubtype 4 (hollow m m') (sober m'') =
        .ok true ∧
      (Matcher.mk deluded.session.store.heap true).contains 2 (.call [.absent]) (sober m'') [] =
        .ok true ∧
      ∀ depth, (Matcher.mk deluded.session.store.heap true).contains depth (.call [.absent])
        (hollow m m') [] ≠ .ok true := by
  obtain ⟨m, m', m'', heap, held⟩ := deluded_spec
  rw [heap, held]
  refine ⟨m, m', m'', reachable_deluded, by simp, by simp, fun t ht => ?_, by cbv, by cbv,
    fun depth => ?_⟩
  · rcases from_deluded ht with rfl | rfl | rfl <;> exact ⟨rfl, rfl⟩
  · cases depth with
    | zero => exact fun h => by cases h
    | succ depth =>
      cases depth with
      | zero => exact fun h => by cases h
      | succ depth =>
        have input : (Matcher.mk .empty true).contains (depth + 1) .absent (unsure m') [] =
            .error .exhausted := by
          show (do
            if ← (Matcher.mk .empty true).contains depth .absent (.named ⟨none, 2⟩ "a" []) [] then
              return true
            else (Matcher.mk .empty true).contains depth .absent nothing []) = _
          rw [contains_bodiless]
          rfl
        unfold hollow Matcher.contains
        simp [Matcher.holdsFunction, Matcher.inRange, Parameter.least, Parameter.greatest?,
          Parameter.isVariadic, Parameter.receiving?, input, bind, Except.bind]

end Client

end TypeNotation
