import TypeNotation.Proofs.Relation.Soundness
import TypeNotation.Proofs.Session.NormalForm

/-!
# Comparing types and matching values

A client compares types that it has been given, and matches values against them.  Where these types
reach concrete types only, and no named type without a body, the two kinds of answers agree: a
subtype holds no data that the supertype does not hold, and types that do not overlap share no value
that is definite.

Both conditions are needed.  A named type without a body, which a memo may hold after an overflow,
is found to be above everything, since comparing with it comes back to the assumed pair; but no
value is ever found to inhabit it.  And a constructed value is also an object with attributes, so
that it may inhabit a tagged union and a record type, which are taken to be disjoint.
-/

namespace TypeNotation

open TypeExpr TypeNotation.Action Expansion

namespace Stage

variable {st : Stage} {a b : TypeExpr}

/-- Settled types of a closed set are firm, if the named ones have bodies and there is no suspended
target. -/
lemma Sound.firm_over (sound : st.Sound) {N : TypeExpr → Prop}
    (part : ∀ {t u}, N t → t.isReferring = false → u ∈ t.valueParts → N u)
    (unfold : ∀ {m name args u}, N (.named m name args) →
      st.store.heap.body? m.stamp = some u → N u)
    (body : ∀ {m name args}, N (.named m name args) → (st.store.heap.body? m.stamp).isSome)
    (present : ∀ {m target bindings}, ¬ N (.deferred m target bindings)) :
    st.store.heap.Firm fun t => t.ResolvedOver st.settled ∧ N t where
  part ht href hu := ⟨ht.1.part (valueParts_subset _ hu), part ht.2 href hu⟩
  body {m name args} ht := by
    obtain ⟨b, hb⟩ := Option.isSome_iff_exists.1 (body ht.2)
    obtain ⟨d, -, -, declared⟩ := sound.wired.declared (resolvedOver_named.1 ht.1).1
    exact ⟨b, hb, (declared b hb).1, unfold ht.2 hb⟩
  present ht := present ht.2
  grounded ht := sound.grounded_of_resolvedOver ht.1

/-- Equal named types have equal bodies. -/
lemma Sound.same_bodies (sound : st.Sound) {m m' : Mark} {name : String}
    {args args' : List TypeExpr} {body body' : TypeExpr}
    (ht : (named m name args).ResolvedOver st.settled)
    (ht' : (named m' name args').ResolvedOver st.settled) (hargs : EachSame args args')
    (hbody : st.store.heap.body? m.stamp = some body)
    (hbody' : st.store.heap.body? m'.stamp = some body') : body.same body' = true := by
  obtain ⟨d, hd, -, declared⟩ := sound.wired.declared (resolvedOver_named.1 ht).1
  obtain ⟨d', hd', -, declared'⟩ := sound.wired.declared (resolvedOver_named.1 ht').1
  obtain rfl : d = d' := by
    rw [hd] at hd'
    exact Option.some.inj hd'
  have same := (declared body hbody).2
  have same' := (declared' body' hbody').2
  exact same_trans same (same_trans (Declaration.applied_congr d hargs) (same_symm same'))

/-- Settled types that are plain belong to a closed set of concrete types. -/
lemma Sound.concrete (sound : st.Sound) {N : TypeExpr → Prop}
    (plain : st.store.heap.PlainOver N) {classed : Prop}
    (names : classed → ∀ {t}, N t → t.PlainFields) :
    st.store.heap.Concrete (fun t => t.ResolvedOver st.settled ∧ N t) classed where
  toFirm := sound.firm_over plain.part plain.unfold plain.body fun ht => by
    cases plain.concrete ht
  plain hc _ ht := names hc ht.2
  concrete ht := plain.concrete ht.2
  settled ht := (ht.1.self).mono fun _ _ => trivial
  alike ht ht' := sound.same_bodies ht.1 ht'.1

/-- Plain types can be compared, and matched with definite values. -/
lemma Sound.fair (sound : st.Sound) (plain : st.store.heap.Plain a b) (openRecords : Bool) :
    (Matcher.mk st.store.heap openRecords).Fair
      (fun t => t.ResolvedOver st.settled ∧ st.store.heap.Near a b t) (openRecords = true)
      (∀ t, st.store.heap.Near a b t → t.isRecord = false) where
  concrete := sound.concrete plain.over fun none _ ht => plainFields_of_not_record (none _ ht)
  slots := id
  records none _ ht := none _ ht.2

end Stage

namespace Client

variable {c : Client} {a b : TypeExpr} {openRecords : Bool} {v : Value}

/-- Among plain types that a client holds, a subtype holds no data that the supertype does not
hold. -/
theorem contains_of_isSubtype (h : c.Reachable) (ha : a ∈ c.held) (hb : b ∈ c.held)
    (plain : c.session.store.heap.Plain a b)
    (straight : ∀ t, c.session.store.heap.Near a b t → t.isDelegation = false) {depth : Nat}
    (hsub : (Matcher.mk c.session.store.heap openRecords).isSubtype depth a b = .ok true)
    (hv : v.Data (∀ t, c.session.store.heap.Near a b t → t.isRecord = false)) {depth' : Nat}
    (hin : (Matcher.mk c.session.store.heap openRecords).contains depth' v a [] = .ok true) :
    ∃ bound, ∀ depth, bound ≤ depth →
      (Matcher.mk c.session.store.heap openRecords).contains depth v b [] = .ok true := by
  obtain ⟨st, on⟩ := h.on
  rw [← on.session] at plain straight hsub hv hin ⊢
  have direct : Matcher.Straight (fun t => t.ResolvedOver st.settled ∧ st.store.heap.Near a b t)
      False := ⟨fun ht => straight _ ht.2, id⟩
  have sound := (Matcher.relations_sound (on.sound.fair plain openRecords) (fun _ => direct)
    depth).1 direct
  exact sound ⟨on.held a ha, .inl .refl⟩ ⟨on.held b hb, .inr .refl⟩ hsub hv.definite (by simp)
    (Matcher.holds_of_contains hin)

/-! ### Tuples among lists -/

/-- A client that holds a tuple type and a list type. -/
def flat : Client :=
  ((start .empty).resolvedAnew 1 1 (.tuple (.written none) [.unit (.written none)])).resolvedAnew
    1 1 (.list (.written none) [.unit (.written none)])

/-- The tuples of nothing at all. -/
def single : TypeExpr := .tuple ⟨none, 2⟩ [.unit (.written none)]

/-- The lists of nothing at all. -/
def several : TypeExpr := .list ⟨none, 4⟩ [.unit (.written none)]

lemma flat_spec : flat.session.store.heap = .empty ∧ flat.held = [single, several] := by
  rw [flat, resolvedAnew_eq (c := start .empty) rfl rfl rfl, resolvedAnew_eq rfl rfl rfl]
  exact ⟨rfl, rfl⟩

lemma reachable_flat : flat.Reachable := by
  have tuple : Written (.tuple (.written none) [.unit (.written none)]) :=
    throughout_iff.2 ⟨trivial, List.forall_mem_singleton.2 written_unit⟩
  have list : Written (.list (.written none) [.unit (.written none)]) :=
    throughout_iff.2 ⟨trivial, List.forall_mem_singleton.2 written_unit⟩
  exact ((Reachable.start List.mem_cons_self).resolvedAnew tuple.over).resolvedAnew list.over

lemma near_flat {t : TypeExpr} (h : Heap.empty.Near single several t) :
    t = single ∨ t = several ∨ t = .unit (.written none) := by
  have closed {s t : TypeExpr} (hs : s = single ∨ s = several ∨ s = .unit (.written none))
      (h : Heap.empty.Reaches s t) : t = single ∨ t = several ∨ t = .unit (.written none) := by
    induction h with
    | refl => exact hs
    | part _ _ hv ih =>
      rcases ih with rfl | rfl | rfl
      · exact .inr (.inr (List.mem_singleton.1 hv))
      · exact .inr (.inr (List.mem_singleton.1 hv))
      · cases hv
    | body _ _ ih => rcases ih with h | h | h <;> cases h
  exact h.elim (closed (.inl rfl)) (closed (.inr (.inl rfl)))

lemma plain_flat : Heap.empty.Plain single several where
  concrete t ht := by rcases near_flat ht with rfl | rfl | rfl <;> rfl
  body m name args ht := by rcases near_flat ht with h | h | h <;> cases h

lemma straight_flat {t : TypeExpr} (ht : Heap.empty.Near single several t) :
    t.isDelegation = false := by
  rcases near_flat ht with rfl | rfl | rfl <;> rfl

/-- A tuple type is below a list type, so that its tuples are lists. -/
theorem contains_flat :
    (Matcher.mk flat.session.store.heap true).isSubtype 2 single several = .ok true ∧
      (Matcher.mk flat.session.store.heap true).contains 2 (.tuple [.absent]) single [] =
        .ok true ∧
      ∃ bound, ∀ depth, bound ≤ depth →
        (Matcher.mk flat.session.store.heap true).contains depth (.tuple [.absent]) several [] =
          .ok true := by
  obtain ⟨heap, held⟩ := flat_spec
  have below : (Matcher.mk flat.session.store.heap true).isSubtype 2 single several =
      .ok true := by
    rw [heap]
    cbv
  have inside : (Matcher.mk flat.session.store.heap true).contains 2 (.tuple [.absent]) single
      [] = .ok true := by
    rw [heap]
    cbv
  exact ⟨below, inside, contains_of_isSubtype reachable_flat (by simp [held]) (by simp [held])
    (heap ▸ plain_flat) (fun t ht => straight_flat (heap ▸ ht)) below
    (.tuple (by simpa using .absent)) inside⟩

/-! ### A subtype of a type without a body -/

/-- A name that stands for a number which is too large to be computed, or nothing at all. -/
def optional : TypeExpr :=
  .union (.written none) (.reference (.written none) "a" []) (.unit (.written none))

/-- A client that resolves it although the memo has the name without its body. -/
def misled : Client :=
  tainted.resolvedAnew 1 1 optional

/-- What the client is given. -/
def bottomless : TypeExpr :=
  .union ⟨none, 4⟩ (.named ⟨none, 2⟩ "a" []) (.unit (.written none))

lemma tainted_spec :
    tainted.session.registry =
        declared.session.registry.memoize [.named ⟨none, 2⟩ "a" []] ∧
      tainted.session.store.heap = .empty ∧ tainted.session.store.nextStamp = 3 ∧
      tainted.held = [.unit (.written none)] := by
  have eq : tainted = ⟨taintedSession, overflowed.resolvers, overflowed.held ++
      [.unit (.written none)]⟩ := by
    simp only [tainted, after, Call.action, outcome_bind, outcome_tainted, outcome_pure,
      List.append_nil]
  rw [eq, taintedSession, overflowed_eq]
  exact ⟨rfl, rfl, rfl, rfl⟩

lemma misled_spec :
    misled.session.store.heap = .empty ∧ misled.held = [.unit (.written none), bottomless] := by
  obtain ⟨registry, heap, next, held⟩ := tainted_spec
  have lookup : tainted.session.registry.lookup "a" = some oversized := by
    rw [registry]
    rfl
  have memo (m : Mark) : tainted.session.registry.memoized (.named m "a" []) =
      some (.named ⟨none, 2⟩ "a" []) := by
    have same : TypeExpr.same (.named ⟨none, 2⟩ "a" []) (.named m "a" []) = true := by
      simp [same, sameAll]
    rw [registry]
    simp [Registry.memoized, Registry.memoize, Registry.remember, declared_session, withResolver,
      same]
  have next : (withResolver tainted.session 1 1).store.nextStamp = 4 :=
    congrArg (· + 1) next
  have heap : (withResolver tainted.session 1 1).store.heap = .empty := heap
  obtain ⟨e, run, pending, expanded, heap⟩ : ∃ e : Expanding,
      outcome (expand tainted.session.registry [] none optional)
        ⟨(withResolver tainted.session 1 1).store, .ofBudget 1 1⟩ = (.ok bottomless, e) ∧
      e.resolver.pending = [] ∧ e.resolver.expanded = [] ∧ e.store.heap = .empty := by
    simp [optional, expand, outcome_bind, Resolver.ofBudget, expandAt, expandIn, declarationOf,
      lookup, expandAll, oversized, Declaration.arity, outcome_reference, known?, memo, remark,
      Except.map, bottomless, next, heap, Mark.written]
  have productive : e.store.heap.checkProductive e.resolver.expanded = .ok () := by
    rw [heap, expanded]
    rfl
  have settles : e.store.heap.Settles bottomless := trivial
  rw [misled, resolvedAnew_eq run pending productive, held, Heap.unfold_of_settles settles]
  exact ⟨heap, rfl⟩

lemma reachable_misled : misled.Reachable := by
  have optional : optional.Written :=
    throughout_iff.2 ⟨trivial, by simpa [parts, optional] using ⟨written_name "a", written_unit⟩⟩
  exact (reachable_overflowed.call canMake_overflowed).resolvedAnew optional.over

lemma near_misled {t : TypeExpr} (h : Heap.empty.Near (.unit (.written none)) bottomless t) :
    t = .unit (.written none) ∨ t = bottomless ∨ t = .named ⟨none, 2⟩ "a" [] := by
  have closed {s t : TypeExpr}
      (hs : s = .unit (.written none) ∨ s = bottomless ∨ s = .named ⟨none, 2⟩ "a" [])
      (h : Heap.empty.Reaches s t) :
      t = .unit (.written none) ∨ t = bottomless ∨ t = .named ⟨none, 2⟩ "a" [] := by
    induction h with
    | refl => exact hs
    | part _ href hv ih =>
      rcases ih with rfl | rfl | rfl
      · cases hv
      · simp only [bottomless, valueParts, parts, List.mem_cons, List.not_mem_nil, or_false] at hv
        exact hv.elim (.inr ∘ .inr) .inl
      · cases href
    | body _ hbody _ => simp [Heap.body?, Heap.empty] at hbody
  exact h.elim (closed (.inl rfl)) (closed (.inr (.inl rfl)))

/-- Matching against a named type without a body does not end. -/
lemma contains_bodiless (depth : Nat) (v : Value) :
    (Matcher.mk .empty true).contains depth v (.named ⟨none, 2⟩ "a" []) [] =
      .error .exhausted := by
  have settles : Heap.empty.Settles (.named ⟨none, 2⟩ "a" []) := by
    simp [Heap.Settles, Heap.body?, Heap.empty]
  have reveal : Heap.empty.reveal (.named ⟨none, 2⟩ "a" []) = .ok (.named ⟨none, 2⟩ "a" []) :=
    congrArg Except.ok (Heap.unfold_of_settles settles)
  induction depth with
  | zero => rfl
  | succ depth ih =>
    show Heap.empty.reveal (.named ⟨none, 2⟩ "a" []) >>=
      (fun t => (Matcher.mk .empty true).contains depth v t []) = _
    rw [reveal]
    exact ih

/-- A type that reaches a named type without a body is found to be above a type, one of whose values
it is never found to hold. -/
theorem not_contains_misled :
    misled.Reachable ∧ TypeExpr.unit (.written none) ∈ misled.held ∧ bottomless ∈ misled.held ∧
      (∀ t, misled.session.store.heap.Near (.unit (.written none)) bottomless t →
        t.isConcrete = true ∧ t.isDelegation = false) ∧
      (Matcher.mk misled.session.store.heap true).isSubtype 3 (.unit (.written none)) bottomless =
        .ok true ∧
      (Matcher.mk misled.session.store.heap true).contains 1 .absent (.unit (.written none)) [] =
        .ok true ∧
      ∀ depth, (Matcher.mk misled.session.store.heap true).contains depth .absent bottomless [] ≠
        .ok true := by
  obtain ⟨heap, held⟩ := misled_spec
  rw [heap, held]
  refine ⟨reachable_misled, by simp, by simp, fun t ht => ?_, by cbv, rfl, fun depth => ?_⟩
  · rcases near_misled ht with rfl | rfl | rfl <;> exact ⟨rfl, rfl⟩
  · cases depth with
    | zero => exact fun h => by cases h
    | succ depth =>
      show (do
        if ← (Matcher.mk .empty true).contains depth .absent (.named ⟨none, 2⟩ "a" []) [] then
          return true
        else (Matcher.mk .empty true).contains depth .absent (.unit (.written none)) []) ≠ _
      rw [contains_bodiless]
      exact fun h => by cases h

/-- Among plain types that a client holds, two that are found not to overlap share no definite
value. -/
theorem overlaps_of_contains (h : c.Reachable) (ha : a ∈ c.held) (hb : b ∈ c.held)
    (plain : c.session.store.heap.Plain a b)
    (straight : (∃ t, c.session.store.heap.Near a b t ∧ t.isComplement = true) →
      ∀ t, c.session.store.heap.Near a b t → t.isDelegation = false)
    (hv : v.Definite (openRecords = true)
      (∀ t, c.session.store.heap.Near a b t → t.isRecord = false)
      (∀ t, c.session.store.heap.Near a b t → t.isComplement = false)) {depth depth' depth'' : Nat}
    (hina : (Matcher.mk c.session.store.heap openRecords).contains depth' v a [] = .ok true)
    (hinb : (Matcher.mk c.session.store.heap openRecords).contains depth'' v b [] = .ok true)
    {answer : Bool}
    (hover : (Matcher.mk c.session.store.heap openRecords).overlaps depth a b = .ok answer) :
    answer = true := by
  obtain ⟨st, on⟩ := h.on
  rw [← on.session] at plain straight hv hina hinb hover
  have direct : (∃ t, (t.ResolvedOver st.settled ∧ st.store.heap.Near a b t) ∧
      t.isComplement = true) →
      Matcher.Straight (fun t => t.ResolvedOver st.settled ∧ st.store.heap.Near a b t)
        (∀ t, st.store.heap.Near a b t → t.isComplement = false) := by
    rintro ⟨t, ht, hcomplement⟩
    refine ⟨fun hu => straight ⟨t, ht.2, hcomplement⟩ _ hu.2, fun none => ?_⟩
    rw [none t ht.2] at hcomplement
    cases hcomplement
  have sound := (Matcher.relations_sound (on.sound.fair plain openRecords) direct depth).2
  cases answer with
  | true => rfl
  | false =>
    exact (sound ⟨on.held a ha, .inl .refl⟩ ⟨on.held b hb, .inr .refl⟩ hover hv
      (Matcher.holds_of_contains hina) (Matcher.holds_of_contains hinb)).elim

/-- A tuple type and a list type that share a value can only be found to overlap. -/
theorem overlaps_flat :
    (Matcher.mk flat.session.store.heap true).contains 2 (.tuple [.absent]) single [] =
        .ok true ∧
      (Matcher.mk flat.session.store.heap true).contains 2 (.tuple [.absent]) several [] =
        .ok true ∧
      ∀ depth answer, (Matcher.mk flat.session.store.heap true).overlaps depth single several =
        .ok answer → answer = true := by
  obtain ⟨heap, held⟩ := flat_spec
  have left : (Matcher.mk flat.session.store.heap true).contains 2 (.tuple [.absent]) single
      [] = .ok true := by
    rw [heap]
    cbv
  have right : (Matcher.mk flat.session.store.heap true).contains 2 (.tuple [.absent]) several
      [] = .ok true := by
    rw [heap]
    cbv
  exact ⟨left, right, fun depth answer => overlaps_of_contains reachable_flat (by simp [held])
    (by simp [held]) (heap ▸ plain_flat) (fun _ t ht => straight_flat (heap ▸ ht))
    (.tuple (by simpa using .absent)) left right⟩

/-! ### A value of two structures -/

/-- A client that holds a tagged union and a record type. -/
def twofold : Client :=
  ((start .empty).resolvedAnew 1 1 (.tagged (.written none) [⟨"x", []⟩, ⟨"y", []⟩])).resolvedAnew
    1 1 (.record (.written none) [⟨"tag", .reference (.written none) "string" []⟩])

/-- The heap on which it holds them. -/
def twofoldHeap : Heap :=
  Heap.empty.setBody 4 (.primitive (.written none) "string")

/-- The constructors `x` and `y`. -/
def choice : TypeExpr := .tagged ⟨none, 2⟩ [⟨"x", []⟩, ⟨"y", []⟩]

/-- The records whose tag is text. -/
def labelled : TypeExpr := .record ⟨none, 5⟩ [⟨"tag", .named ⟨none, 4⟩ "string" []⟩]

lemma twofold_spec :
    twofold.session.store.heap = twofoldHeap ∧ twofold.held = [choice, labelled] := by
  have productive : twofoldHeap.checkProductive [.named ⟨none, 4⟩ "string" []] = .ok () := by
    simp [twofoldHeap, Heap.checkProductive, Heap.walk, Heap.walkWith, Heap.body?, Heap.setBody,
      Heap.empty, Std.HashMap.size_insert]
  rw [twofold, resolvedAnew_eq (c := start .empty) rfl rfl rfl, resolvedAnew_eq rfl rfl productive]
  exact ⟨rfl, rfl⟩

lemma contains_labelled :
    (Matcher.mk twofoldHeap true).contains 3 (.tagged "x" []) labelled [] = .ok true := by
  have reveal : twofoldHeap.reveal (.named ⟨none, 4⟩ "string" []) =
      .ok (.primitive (.written none) "string") := by
    simp [Heap.reveal, Heap.unfold, Heap.unfoldFrom, Heap.body?, twofoldHeap, Heap.setBody,
      Heap.empty, Std.HashMap.size_insert]
  have text : (Matcher.mk twofoldHeap true).contains 2 (.text "x") (.named ⟨none, 4⟩ "string" [])
      [] = .ok true := by
    show twofoldHeap.reveal (.named ⟨none, 4⟩ "string" []) >>=
      (fun t => (Matcher.mk twofoldHeap true).contains 1 (.text "x") t []) = _
    rw [reveal]
    rfl
  unfold Matcher.contains labelled
  simp only [Matcher.holdsRecord, Value.attributes?, Matcher.holdsFields, List.allM, Field.find?,
    List.cons_append, List.find?_cons, decide_true, Option.map_some]
  rw [text]
  rfl

/-- A tagged union and a record type that are found to be disjoint share a value. -/
theorem not_overlaps_twofold :
    twofold.Reachable ∧ choice ∈ twofold.held ∧ labelled ∈ twofold.held ∧
      (Matcher.mk twofold.session.store.heap true).contains 1 (.tagged "x" []) choice [] =
        .ok true ∧
      (Matcher.mk twofold.session.store.heap true).contains 3 (.tagged "x" []) labelled [] =
        .ok true ∧
      (Matcher.mk twofold.session.store.heap true).overlaps 1 choice labelled = .ok false := by
  obtain ⟨heap, held⟩ := twofold_spec
  have name : Written (.reference (.written none) "string" []) :=
    throughout_iff.2 ⟨trivial, by simp [parts]⟩
  have choice : Written (.tagged (.written none) [⟨"x", []⟩, ⟨"y", []⟩]) :=
    throughout_iff.2 ⟨trivial, by simp [parts]⟩
  have labelled :
      Written (.record (.written none) [⟨"tag", .reference (.written none) "string" []⟩]) :=
    throughout_iff.2 ⟨trivial, List.forall_mem_singleton.2 name⟩
  have reachable : twofold.Reachable :=
    ((Reachable.start List.mem_cons_self).resolvedAnew choice.over).resolvedAnew labelled.over
  rw [heap, held]
  exact ⟨reachable, by simp, by simp, by cbv, contains_labelled, by cbv⟩

end Client

end TypeNotation
