import TypeNotation.Proofs.Session.Client

/-!
# Whether the memo holds half-expanded types

A named node gets its body only when the expansion of the body is complete.  Until then it stands in
the table of its resolver.  A resolution that is refused makes its resolver forget the table; one
that ends in an arithmetic overflow does not.  The unfinished nodes that it leaves in the table are
handed to the memo when the same resolver succeeds the next time.

So the memo is whole as long as no resolver with an unfinished node in its table is used again, and
it is not if one is used again with success.
-/

namespace TypeNotation

-- powers are those of the core library, whatever else is imported
attribute [local instance (10000)] instPowNat

open TypeExpr TypeNotation.Action Expansion

/-! ## Whole memos -/

/-- The types that a type leads to: through parts, bodies, and what suspended nodes bind and result
in. -/
inductive Heap.Leads (h : Heap) (t : TypeExpr) : TypeExpr → Prop
  | refl : Leads h t t
  | part {u v : TypeExpr} : Leads h t u → v ∈ u.parts → Leads h t v
  | body {m : Mark} {name : String} {args : List TypeExpr} {v : TypeExpr} :
    Leads h t (.named m name args) → h.body? m.stamp = some v → Leads h t v
  | binding {m : Mark} {target : TypeExpr} {bindings : List (Field TypeExpr)} {b : Field TypeExpr} :
    Leads h t (.deferred m target bindings) → b ∈ bindings → Leads h t b.type
  | result {m : Mark} {target : TypeExpr} {bindings : List (Field TypeExpr)} {v : TypeExpr} :
    Leads h t (.deferred m target bindings) → h.result? m.stamp = some v → Leads h t v

namespace Session

/-- Every named type that a remembered expansion is, or leads to, has a body. -/
def MemoWhole (s : Session) : Prop :=
  ∀ t ∈ s.registry.memo, ∀ m name args, s.store.heap.Leads t (.named m name args) →
    (s.store.heap.body? m.stamp).isSome

/-- Every node in the table of a resolver has a body. -/
def Finished (s : Session) (key : Nat) : Prop :=
  ∀ r : Resolver, s.store.resolvers[key]? = some r →
    ∀ t ∈ r.expanded, (s.store.heap.body? t.stamp).isSome

end Session

/-- What types over a closed set of nodes lead to is built over them. -/
lemma Wired.leads {registry : Registry} {K : Nodes} {s : Store} (hK : Wired registry K s)
    {t u : TypeExpr} (ht : t.ResolvedOver K) (h : s.heap.Leads t u) : u.ResolvedOver K := by
  induction h with
  | refl => exact ht
  | part _ hv ih => exact ih.part hv
  | body _ hv ih =>
    obtain ⟨d, -, -, hbody⟩ := hK.declared (resolvedOver_named.1 ih).1
    exact (hbody _ hv).1
  | binding _ hb ih => exact (hK.target (resolvedOver_deferred.1 ih)).2 _ hb
  | result _ hv ih => exact hK.result (resolvedOver_deferred.1 ih) hv

/-- What settled types lead to is settled. -/
lemma Stage.Sound.leads {st : Stage} (sound : st.Sound) {t u : TypeExpr}
    (ht : t.ResolvedOver st.settled) (h : st.store.heap.Leads t u) : u.ResolvedOver st.settled :=
  sound.wired.leads ht h

lemma Client.On.memoWhole {c : Client} {st : Stage} (on : c.On st) (whole : st.Whole) :
    c.session.MemoWhole := by
  rw [← on.session]
  intro t ht m name args hleads
  have settled := on.sound.wired.node (on.sound.known.memo t ht).1
  exact whole m name args (resolvedOver_named.1 (on.sound.leads settled hleads)).1

/-! ## Careful clients -/

namespace Client

/-- Whether all resolvers that a call may use have finished tables. -/
def Clear (c : Client) (call : Call) : Prop :=
  ∀ key, c.MayUse call key → c.session.Finished key

/-- The clients whose calls were all made when the resolvers that they might use had finished
tables. -/
inductive Careful : Client → Prop
  | start {registry : Registry} (h : registry ∈ [.empty, .withPrelude]) : Careful (start registry)
  | call {c : Client} {call : Call} (h : Careful c) (can : c.CanMake call) (clear : c.Clear call) :
    Careful (c.after call)

variable {c : Client} {st : Stage}

lemma On.tidyAt (on : c.On st) {key : Nat} (h : c.session.Finished key) : st.TidyAt key := by
  rw [← on.session] at h
  exact h

lemma On.finished (on : c.On st) {key : Nat} (h : st.TidyAt key) : c.session.Finished key := by
  rw [← on.session]
  exact h

/-- A careful client works on a stage whose settled nodes all have bodies. -/
lemma Careful.on (h : c.Careful) : ∃ st, c.On st ∧ st.Whole := by
  induction h with
  | start h => exact ⟨_, on_start (Registry.over_initial h), fun _ _ _ hn => hn.elim⟩
  | @call c call _ can clear ih =>
    obtain ⟨st, on, whole⟩ := ih
    have on := on.activate call.resolver?
    have tidy := (on.tidy_iff rfl).2 fun key hkey => on.tidyAt (clear key hkey)
    obtain ⟨st', on', -, neat, -⟩ := on.after rfl can
    exact ⟨st', on', (neat whole tidy).1⟩

end Client

/-! ## What is handed to the memo -/

namespace Registry

lemma mem_remember_self (memo : List TypeExpr) (t : TypeExpr) : t ∈ remember memo t := by
  unfold remember
  split
  · rename_i h
    obtain ⟨u, hu, hsame⟩ := List.any_eq_true.1 h
    exact List.mem_map.2 ⟨u, hu, by simp [hsame]⟩
  · simp

lemma mem_remember_of_mem {memo : List TypeExpr} {t u : TypeExpr} (ht : t ∈ memo)
    (h : t.same u = false) : t ∈ remember memo u := by
  unfold remember
  split
  · exact List.mem_map.2 ⟨t, ht, by simp [h]⟩
  · exact List.mem_append_left _ ht

/-- Expansions no two of which are equal are all remembered. -/
lemma mem_foldl_remember_of_distinct {ts memo : List TypeExpr}
    (distinct : ts.Pairwise fun t u => t.same u = false) {t : TypeExpr} (ht : t ∈ ts) :
    t ∈ ts.foldl remember memo := by
  have kept : ∀ us : List TypeExpr, (∀ u ∈ us, t.same u = false) → ∀ memo, t ∈ memo →
      t ∈ us.foldl remember memo := by
    intro us hus
    induction us with
    | nil => exact fun _ h => h
    | cons u us ih =>
      rw [List.forall_mem_cons] at hus
      exact fun memo h => ih hus.2 _ (mem_remember_of_mem h hus.1)
  induction ts generalizing memo with
  | nil => cases ht
  | cons u ts ih =>
    rw [List.pairwise_cons] at distinct
    rcases List.mem_cons.1 ht with rfl | ht
    · exact kept ts distinct.1 _ (mem_remember_self memo t)
    · exact ih distinct.2 ht

end Registry

namespace Action

variable {α : Type} {key : Nat} {force : TypeExpr → Action TypeExpr} {s s' : Session}

/-- Whether the last thing that was done is to remember the table of a resolver. -/
def Handed (s : Session) (key : Nat) : Prop :=
  ∃ registry : Registry, s.registry = registry.memoize (s.store.resolver key).expanded

lemma handed_conclude {u : Unit} (h : outcome (conclude force key) s = (.ok u, s')) :
    Handed s' key := by
  simp only [conclude, outcome_bind, outcome_get] at h
  split at h
  · simp [outcome_throw] at h
  · simp only [outcome_bind, outcome_modifyResolver] at h
    split at h
    · rename_i s₂ hforM
      simp only [outcome_modify, Prod.mk.injEq] at h
      rw [← h.2]
      exact ⟨s₂.registry, rfl⟩
    · simp at h

lemma handed_resolving {x : Expansion α} {a : α}
    (h : outcome (resolving force key x) s = (.ok a, s')) : Handed s' key := by
  rw [outcome_resolving] at h
  split at h
  · rename_i b s₂ hrun
    rw [outcome_bind] at hrun
    split at hrun
    · rw [outcome_bind] at hrun
      split at hrun
      · rename_i hconclude
        simp only [outcome_pure, Prod.mk.injEq] at hrun h
        rw [← h.2, ← hrun.2]
        exact handed_conclude hconclude
      · simp at hrun
    · simp at hrun
  · simp at h

lemma handed_resolveWith {t u : TypeExpr} {bindings : List (Field TypeExpr)}
    (h : outcome (resolveWith key t bindings) s = (.ok u, s')) : Handed s' key := by
  simp only [resolveWith, outcome_bind, outcome_get] at h
  split at h
  · rename_i hresolving
    simp only [outcome_pure, Prod.mk.injEq] at h
    rw [← h.2]
    exact handed_resolving hresolving
  · simp at h

lemma handed_forceAnew {t u : TypeExpr} (h : outcome (forceAnew force t) s = (.ok u, s')) :
    Handed s' t.stamp ∧ s'.store.heap.result? t.stamp = some u := by
  simp only [forceAnew, outcome_bind, outcome_get] at h
  split at h
  · rename_i v s₁ hresolving
    simp only [outcome_modify, outcome_pure, Prod.mk.injEq, Except.ok.injEq] at h
    obtain ⟨registry, hregistry⟩ := handed_resolving hresolving
    rw [← h.2, ← h.1]
    exact ⟨⟨registry, hregistry⟩, by simp [Heap.result?, Heap.setResult]⟩
  · simp at h

lemma handed_forceWithin {bound : Nat} {t u : TypeExpr}
    (unknown : s.store.heap.result? t.stamp = none)
    (h : outcome (forceWithin bound t) s = (.ok u, s')) :
    Handed s' t.stamp ∧ s'.store.heap.result? t.stamp = some u := by
  cases bound with
  | zero => simp [forceWithin] at h
  | succ bound =>
    simp only [forceWithin, outcome_bind, outcome_get, unknown] at h
    exact handed_forceAnew h

/-- Revealing a suspended node for the first time resolves it and does nothing else. -/
lemma handed_reveal {m : Mark} {target u : TypeExpr} {bindings : List (Field TypeExpr)}
    (unknown : s.store.heap.result? m.stamp = none)
    (h : outcome (reveal (.deferred m target bindings)) s = (.ok u, s')) : Handed s' m.stamp := by
  have bound : depthBound = 19998 + 1 + 1 := rfl
  simp only [reveal, ask, bound] at h
  rw [outcome_askWith] at h
  simp only [Heap.reveal, unknown] at h
  rw [outcome_bind] at h
  split at h
  · rename_i v s₁ hforce
    obtain ⟨handed, hresult⟩ := handed_forceWithin unknown hforce
    have hresult : s₁.store.heap.result? m.stamp = some v := hresult
    rw [outcome_askWith] at h
    simp only [hresult, Prod.mk.injEq] at h
    rw [← h.2]
    exact handed
  · simp at h

end Action

namespace Client

variable {c : Client}

/-- The resolver that a call certainly works with: the one that it names, or that of a suspended
node which it is the first to reveal. -/
def Uses (c : Client) (call : Call) (key : Nat) : Prop :=
  call.resolver? = some key ∨
    ∃ m target bindings, call = .ask (.reveal (.deferred m target bindings)) ∧ m.stamp = key ∧
      c.session.store.heap.result? key = none

lemma handed_after {call : Call} {key : Nat} (uses : c.Uses call key)
    (ok : (outcome call.action c.session).1.isOk) : Action.Handed (c.after call).session key := by
  unfold after
  rcases hout : outcome call.action c.session with ⟨fault | reply, s⟩
  · simp [hout, Except.isOk, Except.toBool] at ok
  · rcases uses with h | ⟨m, target, bindings, rfl, rfl, unknown⟩
    · cases call <;> simp only [Call.resolver?, Option.some.injEq, reduceCtorEq] at h
      subst h
      simp only [Call.action, outcome_bind] at hout
      split at hout
      · rename_i hresolve
        simp only [outcome_pure, Prod.mk.injEq] at hout
        exact hout.2 ▸ Action.handed_resolveWith hresolve
      · simp at hout
    · simp only [Call.action, Question.action, outcome_bind] at hout
      split at hout
      · rename_i hreveal
        simp only [outcome_pure, Prod.mk.injEq] at hout
        split at hreveal
        · rename_i hreveal'
          simp only [outcome_pure, Prod.mk.injEq] at hreveal
          rw [← hout.2, ← hreveal.2]
          exact Action.handed_reveal unknown hreveal'
        · simp at hreveal
      · simp at hout

/-- A resolver with an unfinished node in its table that is used with success leaves a memo that is
not whole. -/
lemma not_memoWhole_after (h : c.Reachable) {call : Call} (can : c.CanMake call) {key : Nat}
    (uses : c.Uses call key) (unfinished : ¬ c.session.Finished key)
    (ok : (outcome call.action c.session).1.isOk) : ¬ (c.after call).session.MemoWhole := by
  obtain ⟨st, on⟩ := h.on
  have on := on.activate call.resolver?
  obtain ⟨st', on', later, -, kept⟩ := on.after rfl can
  obtain ⟨registry, hregistry⟩ := handed_after uses ok
  intro whole
  apply unfinished
  intro r hr t ht
  rw [← on.session] at hr
  obtain ⟨hnode, m, name, args, rfl⟩ := (on.sound.resolvers hr).table t ht
  have placed := ((on.sound.shelved key).placed hnode).2
  obtain ⟨r', hr', hpre⟩ := (kept ok).tables hr
  have hr' : (c.after call).session.store.resolvers[key]? = some r' := by
    rw [← on'.session]
    exact hr'
  have hmemo : TypeExpr.named m name args ∈ (c.after call).session.registry.memo := by
    rw [hregistry]
    simp only [Store.resolver, hr', Option.getD_some]
    refine Registry.mem_foldl_remember_of_distinct ?_ (hpre.subset ht)
    rw [← on'.session] at hr'
    exact (on'.sound.resolvers hr').distinct
  have hbody := whole _ hmemo m name args .refl
  rw [← on'.session] at hbody
  rw [← on.session]
  exact (later.bodies placed) ▸ hbody

/-- The memo is whole as long as every call is made when the resolvers that it may use have finished
tables; such a call leaves an unfinished node in one of them only if it ends in an overflow.  A
resolver with an unfinished node that is used with success leaves a memo that is not whole. -/
theorem memoWhole_while_clear (c : Client) :
    (c.Careful → c.session.MemoWhole ∧
      ∀ call, c.CanMake call → c.Clear call →
        (outcome call.action c.session).1 ≠ .error (.arithmetic .overflow) →
          ∀ key, c.MayUse call key → (c.after call).session.Finished key) ∧
    (c.Reachable → ∀ call key, c.CanMake call → c.Uses call key →
      ¬ c.session.Finished key → (outcome call.action c.session).1.isOk →
        ¬ (c.after call).session.MemoWhole) := by
  refine ⟨fun careful => ?_, fun h call key can uses unfinished ok =>
    not_memoWhole_after h can uses unfinished ok⟩
  obtain ⟨st, on, whole⟩ := careful.on
  refine ⟨on.memoWhole whole, fun call can clear noOverflow key hkey => ?_⟩
  have on := on.activate call.resolver?
  have tidy := (on.tidy_iff rfl).2 fun key hkey => on.tidyAt (clear key hkey)
  obtain ⟨st', on', -, neat, -⟩ := on.after rfl can
  exact on'.finished ((neat whole tidy).2.resolve_right noOverflow key hkey)

/-! ### An overflow that reaches the memo -/

/-- A power whose exponent is beyond the range of doubles. -/
def tooLarge : Numeral :=
  .power none (.literal none (.int 2)) (.literal none (.int (10 ^ (400 : Nat))))

lemma value?_tooLarge : tooLarge.value? = .error .overflow := by
  have : (match tooLarge.value? with | .error .overflow => true | _ => false) = true := by
    decide +kernel
  revert this
  rcases tooLarge.value? with (_ | _) | _ <;> simp

lemma numeral_tooLarge : numeral tooLarge = throw (.arithmetic .overflow) := by
  have value := value?_tooLarge
  unfold tooLarge at value ⊢
  simp only [numeral, value]

/-- A name for it. -/
def oversized : Declaration :=
  ⟨"a", [], .number tooLarge, none⟩

/-- A client that has declared it and has made a resolver. -/
def declared : Client :=
  ((start .empty).after (.declare oversized)).after (.newResolver 1 1)

/-- The client after it has resolved the first of them, which fails. -/
def overflowed : Client :=
  declared.after (.resolve 1 (.reference (.written none) "a" []) [])

lemma declared_session : declared.session =
    withResolver ⟨⟨Registry.builtins ++ [oversized], []⟩, .empty⟩ 1 1 := by
  rfl

lemma resolver_declared : declared.session.store.resolver 1 = .ofBudget 1 1 := by
  simp [declared_session, withResolver, Store.resolver, Store.setResolver, Store.empty]

lemma outcome_oversized (s : Store) :
    outcome (expand declared.session.registry [] none (.reference (.written none) "a" []))
      ⟨s, .ofBudget 1 1⟩ = (.error (.arithmetic .overflow),
        enter ⟨s, .ofBudget 1 1⟩ (.named ⟨none, s.nextStamp⟩ "a" [])) := by
  have lookup : declared.session.registry.lookup "a" = some oversized := by rfl
  have memo : declared.session.registry.memoized (.named (.written none) "a" []) = none := by rfl
  have value := value?_tooLarge
  unfold tooLarge at value
  simp only [expand, outcome_bind, outcome_get, Resolver.ofBudget, expandAt, expandIn,
    declarationOf, lookup, expandAll, outcome_pure, oversized, Declaration.arity, List.length_nil,
    if_true, outcome_reference, known?, memo, List.find?_nil, Option.orElse, tooLarge, numeral,
    value, outcome_throw, enter]
  simp [Mark.written]

/-- The state in which the expansion stops: the name is in the table, and has no body. -/
def halfway : Expanding :=
  enter ⟨declared.session.store, .ofBudget 1 1⟩ (.named ⟨none, 2⟩ "a" [])

lemma overflowed_eq : overflowed =
    ⟨⟨declared.session.registry, halfway.store.setResolver 1 halfway.resolver⟩,
      declared.resolvers, declared.held⟩ := by
  have out : outcome (expand declared.session.registry [] none
      (.reference (.written none) "a" []))
      ⟨declared.session.store, (declared.session.store.resolver 1).restart⟩ =
        (.error (.arithmetic .overflow), halfway) := by
    rw [resolver_declared]
    exact outcome_oversized declared.session.store
  simp only [overflowed, after, Call.action, resolveWith, outcome_bind, outcome_get,
    outcome_resolving, outcome_runExpansion, List.mapM_nil, pure_bind, out, Fault.isRegular]
  rfl

lemma overflowed_session : overflowed.session =
    ⟨declared.session.registry, halfway.store.setResolver 1 halfway.resolver⟩ := by
  rw [overflowed_eq]

lemma overflowed_table : overflowed.session.store.resolvers[1]? = some halfway.resolver := by
  rw [overflowed_session]
  simp [Store.setResolver]

lemma unfinished_overflowed : ¬ overflowed.session.Finished 1 := by
  intro finished
  have := finished _ overflowed_table (.named ⟨none, 2⟩ "a" []) (by simp [halfway, enter])
  rw [overflowed_session] at this
  have heap : halfway.store.heap = .empty := rfl
  simp [heap, Heap.body?, Heap.empty] at this

/-- The client after it has resolved something else with the same resolver. -/
def tainted : Client :=
  overflowed.after (.resolve 1 (.unit (.written none)) [])

/-- A name without a body leads nowhere. -/
lemma checkProductive_halfway :
    Heap.empty.checkProductive halfway.resolver.expanded = .ok () := by
  simp [halfway, enter, Resolver.ofBudget, Heap.checkProductive, Heap.walk, Heap.walkWith,
    Heap.body?, Heap.empty, bind, Except.bind, pure, Except.pure]

/-- What the client remembers after the second resolution, which succeeds. -/
def taintedSession : Session :=
  Action.remembering overflowed.session 1 ⟨overflowed.session.store, halfway.resolver.restart⟩

lemma outcome_tainted :
    outcome (resolveWith 1 (.unit (.written none)) []) overflowed.session =
      (.ok (.unit (.written none)), taintedSession) := by
  have resolver : overflowed.session.store.resolver 1 = halfway.resolver := by
    simp only [Store.resolver, overflowed_table, Option.getD_some]
  have heap : overflowed.session.store.heap = .empty := by
    rw [overflowed_session]
    rfl
  have run : outcome (expand overflowed.session.registry [] none (.unit (.written none)))
      ⟨overflowed.session.store, (overflowed.session.store.resolver 1).restart⟩ =
        (.ok (.unit (.written none)),
          ⟨overflowed.session.store, halfway.resolver.restart⟩) := by
    rw [resolver]
    rfl
  have out := Action.outcome_resolveWith run rfl (by rw [heap]; exact checkProductive_halfway)
  rw [heap] at out
  exact out

lemma ok_tainted : (outcome (Call.action (.resolve 1 (.unit (.written none)) []))
    overflowed.session).1.isOk := by
  simp only [Call.action, outcome_bind, outcome_tainted]
  rfl

lemma resolvers_subset_after (c : Client) (call : Call) :
    c.resolvers ⊆ (c.after call).resolvers := by
  unfold after
  rcases outcome call.action c.session with ⟨fault | reply, s⟩
  · exact fun _ h => h
  · exact List.subset_append_left _ _

lemma Careful.reachable (h : c.Careful) : c.Reachable := by
  induction h with
  | start h => exact .start h
  | call _ can _ ih => exact ih.call can

/-- A call is clear if there is no resolver yet. -/
lemma clear_of_no_resolver {call : Call} (h : ∀ key : Nat, c.session.store.resolvers[key]? = none) :
    c.Clear call := by
  intro key _ r hr
  rw [h] at hr
  cases hr

lemma careful_declared : declared.Careful := by
  refine .call (.call (.start List.mem_cons_self) ?_ ?_) trivial ?_
  · exact throughout_number (fun _ => trivial) _
  · exact clear_of_no_resolver fun key => by simp [start, Session.ofRegistry, Store.empty]
  · refine clear_of_no_resolver fun key => ?_
    show (Store.empty.resolvers)[key]? = none
    simp [Store.empty]

lemma clear_declared (call : Call) : declared.Clear call := by
  intro key _ r hr t ht
  simp only [declared_session, withResolver, Store.setResolver, Store.empty,
    Std.HashMap.getElem?_insert, Std.HashMap.getElem?_empty] at hr
  split at hr
  · cases hr
    simp [Resolver.ofBudget] at ht
  · cases hr

lemma reachable_overflowed : overflowed.Reachable :=
  careful_declared.reachable.call ⟨by decide, (written_name "a").over, by simp⟩

lemma canMake_overflowed :
    overflowed.CanMake (.resolve 1 (.unit (.written none)) []) :=
  ⟨resolvers_subset_after _ _ (by decide), written_unit.over, by simp⟩

/-- There is a client whose memo holds a half-expanded type. -/
theorem not_memoWhole_tainted : tainted.Reachable ∧ ¬ tainted.session.MemoWhole :=
  ⟨reachable_overflowed.call canMake_overflowed,
    not_memoWhole_after reachable_overflowed canMake_overflowed (.inl rfl) unfinished_overflowed
      ok_tainted⟩

/-- Up to the overflow the memo of that client is whole. -/
theorem memoWhole_declared :
    declared.session.MemoWhole ∧
      (∀ key, declared.MayUse (.newResolver 1 1) key →
        (declared.after (.newResolver 1 1)).session.Finished key) ∧
      ¬ tainted.session.MemoWhole := by
  obtain ⟨whole, finished⟩ := (memoWhole_while_clear declared).1 careful_declared
  refine ⟨whole, finished (.newResolver 1 1) trivial (clear_declared _) ?_, ?_⟩
  · exact fun h => by cases h
  · exact (memoWhole_while_clear overflowed).2 reachable_overflowed _ 1
      canMake_overflowed (.inl rfl)
      unfinished_overflowed ok_tainted

end Client

end TypeNotation
