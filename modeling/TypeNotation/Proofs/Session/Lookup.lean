import TypeNotation.Proofs.Relation.Search
import TypeNotation.Proofs.Session.FirstMember

/-!
# When looking up a member ends

A lookup searches the normal form of a type for a member, and resolves the suspended targets that it
comes to.  The search passes no node twice, and so it ends on a heap that stays as it is; but every
target that is resolved adds nodes.  A parametric delegation can refer to itself with ever new
arguments, and each of its targets is resolved within a budget of its own, so that no budget puts an
end to such a lookup.

What decides is how many targets there are to be resolved.  A target that is demanded has no result,
and it is given one before the search is made again.  Hence a lookup that resolves only so many
targets, however far it may go, demands no more than these, and comes to an end.  The other way
round, a lookup that ends leaves a heap with finitely many results, and one that is cut short has
resolved no other targets.
-/

namespace TypeNotation

open TypeExpr Query Expansion

namespace Action

variable {α : Type} {st : Stage} {q : Nat → Heap → Query α}

/-! ## Limits -/

/-- A question asks for suspended targets only, as long as a stage grows. -/
def Asks (q : Nat → Heap → Query α) (st : Stage) : Prop :=
  ∀ steps st', st.Grows st' → (q steps st'.store.heap).Free st'.settled

lemma Asks.grows {st' : Stage} (asks : Asks q st) (grows : st.Grows st') : Asks q st' :=
  fun steps st'' grows' => asks steps st'' (grows.trans grows')

/-- A question that demands a target: resolving it makes the stage grow. -/
lemma Asks.demanded (asks : Asks q st) (ripe : st.Ripe) {steps : Nat} {t : TypeExpr}
    (hanswer : q steps st.store.heap = .error (.demand t)) :
    ∃ st' : Stage, st'.session = (outcome (force t) st.session).2 ∧ st.Grows st' ∧
      ((outcome (force t) st.session).1.isOk → (st'.store.heap.result? t.stamp).isSome) := by
  have free := asks steps st ripe.refl
  rw [hanswer] at free
  obtain ⟨hnode, m, target, bindings, rfl⟩ := free
  obtain ⟨settled, shelf, grows, known⟩ := grows_force ripe hnode
  exact ⟨_, rfl, grows, known⟩

/-- A question that demands a target which cannot be resolved fails with it. -/
lemma outcome_askWith_of_failed {question : Heap → Query α} {s s' : Session} {t : TypeExpr}
    {fault : Fault} (hanswer : question s.store.heap = .error (.demand t))
    (failed : outcome (force t) s = (.error fault, s')) (demands : Nat) :
    outcome (askWith force question (demands + 1)) s = (.error fault, s') := by
  rw [outcome_askWith, hanswer]
  simp only [outcome_bind, failed]

/-- Targets that have results keep them while a question is asked. -/
lemma Asks.results_kept (asks : Asks q st) (ripe : st.Ripe) (steps demands : Nat) {n : Nat}
    (known : (st.store.heap.result? n).isSome) :
    ((outcome (askWith force (q steps) demands) st.session).2.store.heap.result? n).isSome := by
  induction demands generalizing st with
  | zero => exact known
  | succ demands ih =>
    by_cases demanded : ∃ t, q steps st.store.heap = .error (.demand t)
    · obtain ⟨t, hanswer⟩ := demanded
      obtain ⟨st', hst', grows, -⟩ := asks.demanded ripe hanswer
      obtain ⟨r, hr⟩ := Option.isSome_iff_exists.1 known
      have known' : (st'.store.heap.result? n).isSome := by simp [grows.results hr]
      rcases hout : outcome (force t) st.session with ⟨fault | u, s⟩
      · simp only [hout] at hst'
        rw [outcome_askWith_of_failed hanswer hout, ← hst']
        exact known'
      · simp only [hout] at hst'
        rw [outcome_askWith_of_demand hanswer hout, ← hst']
        exact ih (asks.grows grows) grows.ripe known'
    · rw [outcome_askWith_of_undemanding rfl fun t h => demanded ⟨t, h⟩]
      exact known

/-- A question that is cut short has resolved no other targets than one that may go further. -/
lemma Asks.results_of_further (asks : Asks q st) (ripe : st.Ripe)
    {steps steps' demands demands' : Nat}
    (lasts : ∀ heap, (q steps heap).Lasts (q steps' heap)) (more : demands ≤ demands') {n : Nat}
    (known :
      ((outcome (askWith force (q steps) demands) st.session).2.store.heap.result? n).isSome) :
    ((outcome (askWith force (q steps') demands') st.session).2.store.heap.result? n).isSome := by
  induction demands generalizing st demands' with
  | zero => exact asks.results_kept ripe steps' demands' known
  | succ demands ih =>
    obtain ⟨demands', rfl⟩ := Nat.exists_eq_add_of_le' (Nat.one_le_of_lt more)
    by_cases demanded : ∃ t, q steps st.store.heap = .error (.demand t)
    · obtain ⟨t, hanswer⟩ := demanded
      have hanswer' : q steps' st.store.heap = .error (.demand t) := by
        rw [lasts st.store.heap (by simp [hanswer]), hanswer]
      obtain ⟨st', hst', grows, -⟩ := asks.demanded ripe hanswer
      rcases hout : outcome (force t) st.session with ⟨fault | u, s⟩
      · rw [outcome_askWith_of_failed hanswer hout] at known
        rwa [outcome_askWith_of_failed hanswer' hout]
      · simp only [hout] at hst'
        rw [outcome_askWith_of_demand hanswer hout, ← hst'] at known
        rw [outcome_askWith_of_demand hanswer' hout, ← hst']
        exact ih (asks.grows grows) grows.ripe (Nat.le_of_succ_le_succ more) known
    · rw [outcome_askWith_of_undemanding rfl fun t h => demanded ⟨t, h⟩] at known
      exact asks.results_kept ripe steps' _ known

/-- From some limits on, what is asked has one outcome, and it is not that a limit was reached. -/
def HasOutcome (x : Nat → Nat → Action α) (s : Session) : Prop :=
  ∃ (bound : Nat) (result : Except Fault α × Session), result.1 ≠ .error .exhausted ∧
    ∀ steps, bound ≤ steps → ∀ demands, bound ≤ demands → outcome (x steps demands) s = result

/-- However far it may go, what is asked leaves results for finitely many targets only. -/
def ResolvesFinitely (x : Nat → Nat → Action α) (s : Session) : Prop :=
  ∃ last, ∀ steps demands n,
    ((outcome (x steps demands) s).2.store.heap.result? n).isSome → n < last

/-- Resolving a target that goes too deep says so as an error about its input. -/
lemma outcome_force_ne_exhausted (t : TypeExpr) (s : Session) :
    (outcome (force t) s).1 ≠ .error .exhausted := by
  obtain ⟨bound, hbound⟩ : ∃ bound, depthBound = bound + 1 := ⟨19999, rfl⟩
  simp only [force, hbound, forceWithin, outcome_bind, outcome_get]
  cases s.store.heap.result? t.stamp with
  | some r => simp
  | none =>
    simp only [forceAnew, outcome_bind, outcome_get]
    let expansion := Expansion.expand s.registry (suspensionAt s.store t).env
      (suspensionAt s.store t).scope (suspensionAt s.store t).target
    have reported :
        (outcome (resolving (forceWithin bound) t.stamp expansion) s).1 ≠ .error .exhausted :=
      outcome_resolving_ne_exhausted _ _ _
    rcases hout : outcome (resolving (forceWithin bound) t.stamp expansion) s with ⟨fault | u, s'⟩
    · rw [hout] at reported
      exact reported
    · simp

/-- The targets below a stamp that have no result yet. -/
def pending (st : Stage) (last : Nat) : Finset Nat :=
  (Finset.range last).filter fun n => st.store.heap.result? n = none

/-- A question that terminates on every heap, and resolves finitely many targets, ends. -/
lemma Asks.hasOutcome (asks : Asks q st) (ripe : st.Ripe)
    (terminates : ∀ heap : Heap, Terminates heap.Stops fun steps => q steps heap)
    {least last : Nat} (finitely : ∀ steps, least ≤ steps → ∀ demands n,
      ((outcome (askWith force (q steps) demands) st.session).2.store.heap.result? n).isSome →
        n < last) :
    HasOutcome (fun steps demands => askWith force (q steps) demands) st.session := by
  -- each demand gives a result to one of the targets below the last stamp
  induction hpending : (pending st last).card using Nat.strong_induction_on
      generalizing st least with
  | _ count ih =>
    obtain ⟨bound, answer, final, same⟩ := terminates st.store.heap
    by_cases demanded : ∃ t, answer = .error (.demand t)
    · obtain ⟨t, rfl⟩ := demanded
      have unknown : st.store.heap.result? t.stamp = none := final.unknown rfl
      obtain ⟨st', hst', grows, known⟩ := asks.demanded ripe (same bound (Nat.le_refl bound))
      rcases hout : outcome (force t) st.session with ⟨fault | u, s⟩
      · refine ⟨bound + 1, (.error fault, s), ?_, fun steps longer demands more => ?_⟩
        · have reported := outcome_force_ne_exhausted t st.session
          rw [hout] at reported
          exact fun h => reported (by cases h; rfl)
        · obtain ⟨demands, rfl⟩ := Nat.exists_eq_add_of_le' (Nat.one_le_of_lt more)
          exact outcome_askWith_of_failed (same steps (by omega)) hout demands
      · simp only [hout] at hst' known
        have known := known rfl
        have next {steps : Nat} (longer : bound ≤ steps) (demands : Nat) :
            outcome (askWith force (q steps) (demands + 1)) st.session =
              outcome (askWith force (q steps) demands) st'.session := by
          rw [outcome_askWith_of_demand (same steps longer) hout, hst']
        have finitely' : ∀ steps, max least bound ≤ steps → ∀ demands n,
            ((outcome (askWith force (q steps) demands) st'.session).2.store.heap.result?
              n).isSome →
              n < last := by
          intro steps longer demands n hn
          rw [← next (by omega)] at hn
          exact finitely steps (by omega) (demands + 1) n hn
        have fewer : (pending st' last).card < count := by
          rw [← hpending]
          refine Finset.card_lt_card (Finset.ssubset_iff_of_subset ?_ |>.2 ⟨t.stamp, ?_, ?_⟩)
          · intro n hn
            simp only [pending, Finset.mem_filter] at hn ⊢
            refine ⟨hn.1, ?_⟩
            cases hr : st.store.heap.result? n with
            | none => rfl
            | some r => rw [grows.results hr] at hn; cases hn.2
          · have below : t.stamp < last := finitely' _ (Nat.le_refl _) 0 t.stamp known
            simp [pending, below, unknown]
          · simp only [pending, Finset.mem_filter, not_and]
            intro _ none
            rw [none] at known
            cases known
        obtain ⟨bound', result, final', ends⟩ :=
          ih _ fewer (asks.grows grows) grows.ripe finitely' rfl
        refine ⟨max bound bound' + 1, result, final', fun steps longer demands more => ?_⟩
        obtain ⟨demands, rfl⟩ := Nat.exists_eq_add_of_le' (Nat.one_le_of_lt more)
        show outcome (askWith force (q steps) (demands + 1)) st.session = result
        rw [next (by omega)]
        exact ends steps (by omega) demands (by omega)
    · refine ⟨bound + 1, (answer.mapError faultOf, st.session), ?_,
        fun steps longer demands more => ?_⟩
      · cases answer with
        | ok a => simp [Except.mapError]
        | error halt =>
          have unbounded := final.unbounded
          cases halt <;> simp_all [Except.mapError, faultOf]
      · obtain ⟨demands, rfl⟩ := Nat.exists_eq_add_of_le' (Nat.one_le_of_lt more)
        exact outcome_askWith_of_undemanding (same steps (by omega))
          (fun t ht => demanded ⟨t, ht⟩) demands

/-- A question that ends has resolved finitely many targets, however it was cut short. -/
lemma Asks.resolvesFinitely (asks : Asks q st) (ripe : st.Ripe)
    (lasts : ∀ {steps steps'}, steps ≤ steps' → ∀ heap, (q steps heap).Lasts (q steps' heap))
    (ends : HasOutcome (fun steps demands => askWith force (q steps) demands) st.session) :
    ResolvesFinitely (fun steps demands => askWith force (q steps) demands) st.session := by
  obtain ⟨bound, ⟨answer, s⟩, -, same⟩ := ends
  obtain ⟨last, below⟩ := s.store.heap.exists_last
  refine ⟨last, fun steps demands n known => below ?_⟩
  have further := asks.results_of_further ripe (lasts (Nat.le_max_left steps bound))
    (Nat.le_max_left demands bound) known
  rwa [same _ (Nat.le_max_right steps bound) _ (Nat.le_max_right demands bound)] at further

/-! ## Looking up a member -/

/-- The type of a member of the type that a text denotes, with bounds on the length of the path to
it and on the number of targets that are resolved. -/
def lookupWithin (steps demands : Nat) (text name : String) : Action (Option TypeExpr) := do
  memberWithin steps demands (← resolveText text) name

lemma outcome_resolveWith_ne_exhausted (key : Nat) (t : TypeExpr)
    (bindings : List (Field TypeExpr)) (s : Session) :
    (outcome (resolveWith key t bindings) s).1 ≠ .error .exhausted := by
  let expansion := Expansion.phase s.registry t bindings
  have reported : (outcome (resolving force key expansion) s).1 ≠ .error .exhausted :=
    outcome_resolving_ne_exhausted _ _ _
  rw [resolveWith_eq_phase]
  simp only [outcome_bind, outcome_get]
  rcases hout : outcome (resolving force key expansion) s with ⟨fault | u, s'⟩
  · rw [hout] at reported
    exact reported
  · simp

lemma outcome_resolveText_ne_exhausted (text : String) (s : Session) :
    (outcome (resolveText text) s).1 ≠ .error .exhausted := by
  simp only [resolveText, outcome_bind]
  cases parseType text with
  | error e => simp [reading]
  | ok t =>
    simp only [reading, outcome_pure, resolve, outcome_bind, outcome_newResolver]
    exact outcome_resolveWith_ne_exhausted _ t [] _

/-- The type that a text denotes is settled, and the session is still one of a client that
writes. -/
lemma ripe_resolveText (ripe : st.Ripe) {text : String} {t : TypeExpr} {s : Session}
    (h : outcome (resolveText text) st.session = (.ok t, s)) :
    ∃ st' : Stage, st'.session = s ∧ st'.Ripe ∧ t.ResolvedOver st'.settled := by
  obtain ⟨settled, shelf, -, sound, -, -, post⟩ := acts_resolveText text ripe.sound
  have direct := (ripens_resolveText text ripe.sound ripe.direct).1
  rw [h] at sound post direct
  obtain ⟨-, based, -⟩ := post t rfl
  exact ⟨⟨s, settled, shelf, st.own, st.active⟩, rfl, ⟨sound, direct⟩, based⟩

/-- A search for a member asks for suspended targets only. -/
lemma asks_member? {t : TypeExpr} (based : t.ResolvedOver st.settled) (name : String) :
    Asks (fun steps heap => heap.member? steps t name) st :=
  fun steps _ grows => (stays_member? grows.ripe.sound.wired steps
    (based.mono fun _ => grows.later.settled) name).free

/-- A search for a member ends exactly if it resolves finitely many targets. -/
lemma memberWithin_ends_iff (ripe : st.Ripe) {t : TypeExpr} (based : t.ResolvedOver st.settled)
    (name : String) :
    HasOutcome (fun steps demands => memberWithin steps demands t name) st.session ↔
      ResolvesFinitely (fun steps demands => memberWithin steps demands t name) st.session := by
  have asks := asks_member? based name
  constructor
  · exact asks.resolvesFinitely ripe fun longer heap => heap.lasts_member? longer t name
  · rintro ⟨last, finitely⟩
    exact asks.hasOutcome ripe (fun heap => heap.terminates_member? t name)
      fun steps (_ : 0 ≤ steps) => finitely steps

end Action

open TypeNotation.Action

/-- In every session of a client that writes, looking up a member ends exactly if it resolves
finitely many suspended targets: exactly then its outcome is the same from some limits on, and is
not that a limit was reached. -/
theorem Client.Writes.lookup_ends_iff {c : Client} (h : c.Writes) (text name : String) :
    lookupMember text name = lookupWithin depthBound depthBound text name ∧
      (HasOutcome (fun steps demands => lookupWithin steps demands text name) c.session ↔
        ResolvesFinitely (fun steps demands => lookupWithin steps demands text name)
          c.session) := by
  obtain ⟨st, on⟩ := h.reachable.on
  have ripe : st.Ripe := ⟨on.sound, by rw [on.session]; exact h.direct⟩
  rw [← on.session]
  refine ⟨rfl, ?_⟩
  rcases hout : outcome (resolveText text) st.session with ⟨fault | t, s⟩
  · -- a type that cannot be resolved is not searched
    have fails (steps demands : Nat) :
        outcome (lookupWithin steps demands text name) st.session = (.error fault, s) := by
      simp only [lookupWithin, outcome_bind, hout]
    have reported := outcome_resolveText_ne_exhausted text st.session
    rw [hout] at reported
    refine iff_of_true ⟨0, _, ?_, fun steps _ demands _ => fails steps demands⟩ ?_
    · exact fun h => reported (by cases h; rfl)
    · obtain ⟨last, below⟩ := s.store.heap.exists_last
      refine ⟨last, fun steps demands n known => below ?_⟩
      rwa [fails] at known
  · obtain ⟨st', rfl, ripe', based⟩ := ripe_resolveText ripe hout
    have goes (steps demands : Nat) : outcome (lookupWithin steps demands text name) st.session =
        outcome (memberWithin steps demands t name) st'.session := by
      simp only [lookupWithin, outcome_bind, hout]
    simp only [HasOutcome, ResolvesFinitely, goes]
    exact memberWithin_ends_iff ripe' based name

/-! ### A ring of delegations -/

namespace Client

lemma outcome_resolveText_ring : ∃ s,
    outcome (resolveText "n") ringed.session = (.ok ringBody, s) ∧
      s.store.heap = Heap.empty.setBody 2 ringBody ∧ Remembered s 4 "n" ringName := by
  obtain ⟨heap, -, ⟨suspended, ⟨steps, depth, resolver⟩, d, lookup, arity, memo⟩, stamp⟩ :=
    ringed_spec
  have parsed : parseType "n" = .ok (.reference (.written (some ⟨1, 1⟩)) "n" []) := by rfl
  let started := withResolver ringed.session 10000 64
  have fresh : started.store.resolver 6 = .ofBudget 10000 64 := by
    rw [← stamp]
    exact Store.resolver_setResolver _ _ _
  have run : outcome (Expansion.expand started.registry [] none
      (.reference (.written (some ⟨1, 1⟩)) "n" []))
        ⟨started.store, (started.store.resolver 6).restart⟩ =
          (.ok ringName, ⟨started.store, .ofBudget 10000 64⟩) := by
    have lookup : started.registry.lookup "n" = some d := lookup
    have memo (m : Mark) : started.registry.memoized (.named m d.name []) = some ringName := by
      have equal : (TypeExpr.named m d.name []).same (.named (.written none) d.name []) = true := by
        simp [same, sameAll]
      rw [← memo]
      simp only [Registry.memoized, same_comm _ (named _ _ _), same_congr equal]
      rfl
    rw [fresh]
    simp [expand, outcome_bind, Resolver.restart, Resolver.ofBudget, expandAt, expandIn,
      declarationOf, lookup, arity, expandAll, outcome_reference, known?, memo]
  have resolved := outcome_resolveWith run rfl rfl
  have heap' : started.store.heap = Heap.empty.setBody 2 ringBody := heap
  have unfolds : started.store.heap.unfold ringName = ringBody := by
    rw [heap']
    simp [ringBody, ringName, Heap.unfold, Heap.unfoldFrom, Heap.body?, Heap.setBody, Heap.empty,
      Std.HashMap.size_insert]
  refine ⟨remembering started 6 ⟨started.store, .ofBudget 10000 64⟩, ?_, heap', suspended,
    ⟨steps, depth, ?_⟩, d, lookup, arity, memo⟩
  · simp only [resolveText, parsed, Action.reading, outcome_bind, outcome_pure, resolve,
      outcome_newResolver, stamp]
    rw [← unfolds]
    exact resolved
  · rw [remembering, Store.getElem?_setResolver, if_neg (by decide), Store.getElem?_setResolver,
      if_neg (by decide)]
    show (Store.setResolver _ _ _).resolvers[4]? = _
    rw [Store.getElem?_setResolver, stamp, if_neg (by decide), resolver]

lemma member?_ring_of_unknown {h : Heap} (unknown : h.result? 4 = none) (bound : Nat) :
    h.member? (bound + 20) ringBody "x" = .error (.demand ringTarget) := by
  simp [Heap.member?, ringBody, memberFrom_delegation, firstHit, ringBase, memberFrom_record,
    ringTarget, memberFrom_of_unknown unknown, Field.find?, bind, Except.bind]

lemma member?_ring_of_known {h : Heap} (known : h.result? 4 = some ringName)
    (unfolds : h.unfold ringName = ringBody) (bound : Nat) :
    h.member? (bound + 20) ringBody "x" = .ok none := by
  rw [ringName] at unfolds known
  simp [Heap.member?, ringBody, memberFrom_delegation, firstHit, ringBase, memberFrom_record,
    ringTarget, memberFrom_of_result known, memberFrom_of_unfold unfolds, Field.find?, bind,
    Except.bind, pure, Except.pure]

/-- Looking for a member in a ring of delegations resolves one target. -/
lemma resolvesFinitely_ring :
    ResolvesFinitely (fun steps demands => lookupWithin steps demands "n" "x") ringed.session := by
  obtain ⟨s, out, heap, remembered⟩ := outcome_resolveText_ring
  obtain ⟨s', forced, heap'⟩ := outcome_force_ring remembered heap
  have before {n : Nat} (known : (s.store.heap.result? n).isSome) : n < 5 := by
    rw [heap, result_unringed] at known
    cases known
  have after {n : Nat} (known : (s'.store.heap.result? n).isSome) : n < 5 := by
    by_contra above
    have other : 4 ≠ n := by omega
    rw [heap'] at known
    simp [ringHeap, Heap.result?, Heap.setResult, other, Heap.setBody, Heap.empty] at known
  refine ⟨5, fun steps demands n known => ?_⟩
  simp only [lookupWithin, outcome_bind, out, memberWithin] at known
  -- a search that reaches its limit resolves nothing more, and any other goes the same way
  cases demands with
  | zero => exact before known
  | succ demands =>
    by_cases reached : s.store.heap.member? steps ringBody "x" = .error .exhausted
    · rw [outcome_askWith_of_undemanding reached (by simp)] at known
      exact before known
    · have demanded : s.store.heap.member? steps ringBody "x" = .error (.demand ringTarget) := by
        rw [← s.store.heap.lasts_member? (Nat.le_add_right steps 20) ringBody "x" reached]
        exact member?_ring_of_unknown (by rw [heap, result_unringed]) steps
      rw [outcome_askWith_of_demand demanded forced] at known
      cases demands with
      | zero => exact after known
      | succ demands =>
        have undemanding : ∀ t, s'.store.heap.member? steps ringBody "x" ≠ .error (.demand t) := by
          intro t ht
          have lasts := s'.store.heap.lasts_member? (Nat.le_add_right steps 20) ringBody "x"
            (by simp [ht])
          rw [ht, heap', member?_ring_of_known result_ring unfold_ring] at lasts
          cases lasts
        rw [outcome_askWith_of_undemanding rfl undemanding] at known
        exact after known

/-- Looking for a member that a ring of delegations does not have comes to an end. -/
theorem ringed_lookup_ends : ringed.Writes ∧
    HasOutcome (fun steps demands => lookupWithin steps demands "n" "x") ringed.session :=
  ⟨writes_ringed, (writes_ringed.lookup_ends_iff "n" "x").2.2 resolvesFinitely_ring⟩

/-! ### A delegation with ever longer arguments -/

/-- What a type delegates to: itself, for lists of its argument. -/
def again : TypeExpr :=
  .reference (.written none) "a"
    [.list (.written none) [.typeVariable (.written none) ⟨"A", none⟩]]

/-- A type that delegates to itself with an ever longer argument. -/
def growing : Declaration :=
  ⟨"a", [⟨none, ⟨"A", none⟩⟩], .delegation (.written none) (.record (.written none) []) [again],
    none⟩

/-- A client that has declared it. -/
def delegating : Client :=
  (start .empty).after (.declare growing)

/-- What the type stands for with an argument, with nodes made from a stamp on. -/
def storey (n : Nat) (u : TypeExpr) : TypeExpr :=
  .delegation ⟨none, n + 3⟩ (.record ⟨none, n + 1⟩ [])
    [.deferred ⟨none, n + 2⟩ again [⟨"A", u⟩]]

/-- The state in which the type has been expanded for an argument. -/
def raised (e : Expanding) (m : Mark) (u : TypeExpr) : Expanding :=
  let n := e.store.nextStamp
  { store :=
      { heap := e.store.heap.setBody n (storey n u)
        suspensions := e.store.suspensions.insert (n + 2) ⟨again, [⟨"A", u⟩], some "a"⟩
        resolvers := e.store.resolvers.insert (n + 2)
          (.ofBudget e.resolver.maxSteps e.resolver.maxDepth)
        nextStamp := n + 4 }
    resolver := (enter e (.named ⟨m.position, n⟩ "a" [u])).resolver }

lemma targetBindings_again (u : TypeExpr) : targetBindings [⟨"A", u⟩] again = [⟨"A", u⟩] := by
  rfl

/-- Expanding the type for a new argument makes a new target. -/
lemma outcome_reference_growing {registry : Registry} {e : Expanding} {m : Mark} {u : TypeExpr}
    (room : Nat) (unknown : known? registry e (.named m "a" [u]) = none)
    (budget : e.resolver.steps < e.resolver.maxSteps) :
    outcome (reference registry 0 (some fun body env scope =>
      expandAt registry (room + 1) 1 env scope body) m growing [u]) e =
        (.ok (.named ⟨m.position, e.store.nextStamp⟩ "a" [u]), raised e m u) := by
  have within : ¬ e.resolver.maxSteps < e.resolver.steps + 1 := by omega
  have binding : growing.binding [u] = [⟨"A", u⟩] := rfl
  rw [outcome_reference]
  simp only [show growing.name = "a" from rfl, unknown, within, if_false, binding]
  simp [growing, expandAt, expandIn, expandFields, outcome_bind, Expansion.remark, outcome_suspend,
    withSuspension, targetBindings_again, enter, raised, storey, Mark.written, Except.map]

/-- The first stamp of a storey, that of its argument. -/
def ground (k : Nat) : Nat :=
  5 * k + 1

/-- The arguments: nothing at all, lists of that, and so on. -/
def nested : Nat → TypeExpr
  | 0 => .unit (.written (some ⟨1, 3⟩))
  | k + 1 => .list ⟨none, ground (k + 1)⟩ [nested k]

/-- The type for one of these arguments, when it is resolved. -/
def storeyName (k : Nat) : TypeExpr :=
  .named ⟨if k = 0 then some ⟨1, 1⟩ else none, ground k + 1⟩ "a" [nested k]

/-- What it stands for. -/
def storeyBody (k : Nat) : TypeExpr :=
  storey (ground k + 1) (nested k)

/-- Its target. -/
def storeyTarget (k : Nat) : TypeExpr :=
  .deferred ⟨none, ground k + 3⟩ again [⟨"A", nested k⟩]

/-- The heap when so many targets have been resolved. -/
def tower : Nat → Heap
  | 0 => Heap.empty.setBody (ground 0 + 1) (storeyBody 0)
  | k + 1 => ((tower k).setBody (ground (k + 1) + 1) (storeyBody (k + 1))).setResult (ground k + 3)
      (storeyName (k + 1))

lemma ground_succ (k : Nat) : ground (k + 1) = ground k + 5 := by
  simp only [ground]
  omega

/-- No two of the arguments are equal. -/
lemma same_nested {i j : Nat} (h : (nested i).same (nested j) = true) : i = j := by
  induction i generalizing j with
  | zero =>
    cases j with
    | zero => rfl
    | succ j => simp [nested, same] at h
  | succ i ih =>
    cases j with
    | zero => simp [nested, same] at h
    | succ j =>
      by_cases equal : (nested i).same (nested j)
      · rw [ih equal]
      · simp [nested, same, sameMembers, equal] at h

lemma body?_tower {i k : Nat} (h : i ≤ k) :
    (tower k).body? (ground i + 1) = some (storeyBody i) := by
  induction k with
  | zero =>
    obtain rfl := Nat.le_zero.1 h
    simp [tower, Heap.body?, Heap.setBody]
  | succ k ih =>
    rcases Nat.lt_or_eq_of_le h with h | rfl
    · have other : ground (k + 1) ≠ ground i := by
        simp only [ground]
        omega
      rw [← ih (Nat.le_of_lt_succ h)]
      simp [tower, Heap.body?, Heap.setBody, Heap.setResult, Std.HashMap.getElem?_insert, other]
    · simp [tower, Heap.body?, Heap.setBody, Heap.setResult]

lemma result?_tower_of_le {k n : Nat} (h : ground k + 3 ≤ n) : (tower k).result? n = none := by
  induction k with
  | zero => simp [tower, Heap.result?, Heap.setBody, Heap.empty]
  | succ k ih =>
    rw [ground_succ] at h
    have other : ground k + 3 ≠ n := by omega
    rw [← ih (by omega)]
    simp [tower, Heap.result?, Heap.setBody, Heap.setResult, Std.HashMap.getElem?_insert, other]

lemma result?_tower {i k : Nat} (h : i < k) :
    (tower k).result? (ground i + 3) = some (storeyName (i + 1)) := by
  induction k with
  | zero => omega
  | succ k ih =>
    rcases Nat.lt_or_eq_of_le (Nat.le_of_lt_succ h) with h | rfl
    · have other : ground k ≠ ground i := by
        simp only [ground]
        omega
      rw [← ih h]
      simp [tower, Heap.result?, Heap.setBody, Heap.setResult, Std.HashMap.getElem?_insert, other]
    · simp [tower, Heap.result?, Heap.setResult]

lemma unfold_tower {i k : Nat} (h : i ≤ k) : (tower k).unfold (storeyName i) = storeyBody i :=
  Heap.Chain.unfold_eq (.step (body?_tower h) (.done trivial))

lemma productive_of_body? {h : Heap} {k : Nat}
    (hbody : h.body? (ground k + 1) = some (storeyBody k)) :
    h.checkProductive [storeyName k] = .ok () := by
  have passes (bound : Nat) (path : Heap.Path) (done : List Nat) :
      h.walk bound path (storeyBody k) done = .ok done := by
    cases bound <;> rfl
  simp [storeyName, Heap.checkProductive, Heap.walk, Heap.walkWith, hbody, passes, bind,
    Except.bind, pure, Except.pure]

/-- A session in which so many targets have been resolved. -/
structure Towers (k : Nat) (s : Session) : Prop where
  lookup : s.registry.lookup "a" = some growing
  memo : ∀ t ∈ s.registry.memo, ∃ i ≤ k, t = storeyName i
  heap : s.store.heap = tower k
  next : s.store.nextStamp = ground (k + 1)
  suspended : s.store.suspensions[ground k + 3]? = some ⟨again, [⟨"A", nested k⟩], some "a"⟩
  resolver : s.store.resolver (ground k + 3) = .ofBudget 10000 64

/-- The next argument is new. -/
lemma Towers.memoized {k : Nat} {s : Session} (h : Towers k s) (m : Mark) :
    s.registry.memoized (.named m "a" [nested (k + 1)]) = none := by
  refine List.find?_eq_none.2 fun t ht same => ?_
  obtain ⟨i, hi, rfl⟩ := h.memo t ht
  simp only [storeyName, TypeExpr.same, sameAll, Bool.and_eq_true, decide_eq_true_eq] at same
  have equal := same_nested same.2.1
  omega

/-- To expand the target is to expand the type for a list of what was its argument. -/
lemma outcome_again {registry : Registry} (lookup : registry.lookup "a" = some growing)
    (room : Nat) (u : TypeExpr) (e : Expanding) :
    outcome (expandAt registry (room + 2) 0 [⟨"A", u⟩] (some "a") again) e =
      outcome (reference registry 0 (some fun body env scope =>
        expandAt registry (room + 1) 1 env scope body) (.written none) growing
          [.list ⟨none, e.store.nextStamp⟩ [u]])
        { e with store := { e.store with nextStamp := e.store.nextStamp + 1 } } := by
  rw [expandAt]
  simp [again, expandIn, expandAll, outcome_bind, declarationOf, lookup, growing, Declaration.arity,
    Expansion.typeVariable, Field.find?, Expansion.remark, listOf, withoutRepeats, Mark.written]

/-- The state in which the target of a storey has been expanded. -/
def risen (k : Nat) (s : Session) : Expanding :=
  raised ⟨{ s.store with nextStamp := ground (k + 1) + 1 }, .ofBudget 10000 64⟩ (.written none)
    (nested (k + 1))

/-- The session in which it has been resolved. -/
def heightened (k : Nat) (s : Session) : Session :=
  let s' := remembering s (ground k + 3) (risen k s)
  { s' with store := { s'.store with
    heap := s'.store.heap.setResult (ground k + 3) (storeyName (k + 1)) } }

lemma Towers.expanded {k : Nat} {s : Session} (h : Towers k s) :
    outcome (expand s.registry [⟨"A", nested k⟩] (some "a") again)
      ⟨s.store, (s.store.resolver (ground k + 3)).restart⟩ =
        (.ok (storeyName (k + 1)), risen k s) := by
  let opened : Expanding := ⟨{ s.store with nextStamp := ground (k + 1) + 1 }, .ofBudget 10000 64⟩
  -- the memo has the earlier arguments only, so that this one is expanded anew
  have unknown : known? s.registry opened (.named (.written none) "a" [nested (k + 1)]) = none :=
    h.memoized _
  have expanded := outcome_reference_growing 62 unknown (show 0 < 10000 by decide)
  rw [h.resolver]
  refine (outcome_again h.lookup 62 (nested k) ⟨s.store, .ofBudget 10000 64⟩).trans ?_
  simp only [h.next]
  exact expanded

lemma Towers.resolved {k : Nat} {s : Session} (h : Towers k s)
    (force : TypeExpr → Action TypeExpr) :
    outcome (resolving force (ground k + 3)
      (expand s.registry [⟨"A", nested k⟩] (some "a") again)) s =
        (.ok (storeyName (k + 1)), remembering s (ground k + 3) (risen k s)) := by
  have body : (risen k s).store.heap.body? (ground (k + 1) + 1) = some (storeyBody (k + 1)) := by
    simp [risen, raised, Heap.body?, Heap.setBody, storeyBody]
  exact outcome_resolving_of_hold h.expanded (by simp [risen, raised, enter, Resolver.ofBudget])
    (productive_of_body? body)

/-- Resolving the target of the last storey gives the name of the next one. -/
lemma Towers.forced {k : Nat} {s : Session} (h : Towers k s) :
    outcome (force (storeyTarget k)) s = (.ok (storeyName (k + 1)), heightened k s) := by
  obtain ⟨bound, hbound⟩ : ∃ bound, depthBound = bound + 1 := ⟨19999, rfl⟩
  have unknown : s.store.heap.result? (ground k + 3) = none := by
    rw [h.heap]
    exact result?_tower_of_le (Nat.le_refl _)
  generalize hnode : storeyTarget k = node
  have own : node.stamp = ground k + 3 := by rw [← hnode]; rfl
  have suspends : suspensionAt s.store node = ⟨again, [⟨"A", nested k⟩], some "a"⟩ := by
    rw [← hnode]
    show (s.store.suspensions[ground k + 3]?).getD _ = _
    rw [h.suspended, Option.getD_some]
  simp only [Action.force, hbound, forceWithin, outcome_bind, outcome_get, own, unknown, forceAnew,
    suspends, h.resolved, outcome_modify, outcome_pure, heightened]

/-- So there is one storey more. -/
lemma Towers.heightened {k : Nat} {s : Session} (h : Towers k s) :
    Towers (k + 1) (heightened k s) where
  lookup := h.lookup
  memo := fun t ht => by
    rcases Registry.mem_foldl_remember ht with ht | ht
    · obtain ⟨i, hi, rfl⟩ := h.memo t ht
      exact ⟨i, Nat.le_succ_of_le hi, rfl⟩
    · exact ⟨k + 1, Nat.le_refl _, List.mem_singleton.1 ht⟩
  heap := by
    have heap : (risen k s).store.heap =
        (tower k).setBody (ground (k + 1) + 1) (storeyBody (k + 1)) := by
      rw [← h.heap]
      rfl
    show (risen k s).store.heap.setResult (ground k + 3) (storeyName (k + 1)) = _
    rw [heap]
    rfl
  next := (ground_succ (k + 1)).symm
  suspended := by simp [Client.heightened, remembering, Store.setResolver, risen, raised]
  resolver := by
    have other : ground (k + 1) + 3 ≠ ground k + 3 := by
      rw [ground_succ]
      omega
    show ((remembering s (ground k + 3) (risen k s)).store.resolvers[ground (k + 1) + 3]?).getD
      .fresh = _
    rw [remembering, Store.getElem?_setResolver, if_neg other, Store.getElem?_setResolver,
      if_neg other]
    simp [risen, raised, Resolver.ofBudget]

/-! A search for a member comes to the last target. -/

lemma firstHit_of_second {search : TypeExpr → Visited → Query (Option TypeExpr × Visited)}
    {t u : TypeExpr} {visited : Visited} {halt : Halt}
    (first : search t visited = .ok (none, visited)) (second : search u visited = .error halt) :
    firstHit search [t, u] visited = .error halt := by
  simp only [firstHit, first]
  show (search u visited >>= _) = _
  rw [second]
  rfl

lemma memberFrom_storeyBody (name : String) {i k : Nat} (d : Nat) (hk : i + d = k) (bound : Nat)
    {visited : Visited} (new : ∀ j, i ≤ j →
      storeyTarget j ∉ visited ∧ storeyName (j + 1) ∉ visited) :
    (tower k).memberFrom name (bound + 3 * d + 2) (storeyBody i) visited =
      .error (.demand (storeyTarget k)) := by
  induction d generalizing i visited with
  | zero =>
    obtain rfl : i = k := hk
    have unknown : (tower i).result? (ground i + 3) = none := result?_tower_of_le (Nat.le_refl _)
    show firstHit ((tower i).memberFrom name (bound + 1)) [.record _ [], storeyTarget i] visited = _
    refine firstHit_of_second rfl ?_
    exact (memberFrom_of_unknown unknown).trans (if_neg (new i (Nat.le_refl _)).1)
  | succ d ih =>
    -- the search goes through the target and the name that it has for a result: no storey further
    -- up shares a node with these
    have known := result?_tower (show i < k by omega)
    have unfolds := unfold_tower (show i + 1 ≤ k by omega)
    have fresh := new i (Nat.le_refl _)
    have apart (j : Nat) (hj : i + 1 ≤ j) : storeyTarget j ≠ storeyTarget i ∧
        storeyName (j + 1) ≠ storeyName (i + 1) := by
      simp only [storeyTarget, storeyName, ground, ne_eq, TypeExpr.deferred.injEq,
        TypeExpr.named.injEq, Mark.mk.injEq]
      omega
    have other (i j : Nat) : storeyName i ≠ storeyTarget j := by simp [storeyName, storeyTarget]
    have rest : (tower k).memberFrom name (bound + 3 * d + 2) (storeyBody (i + 1))
        (storeyName (i + 1) :: storeyTarget i :: visited) =
          .error (.demand (storeyTarget k)) := by
      refine ih (by omega) fun j hj => ?_
      obtain ⟨newTarget, newName⟩ := new j (by omega)
      obtain ⟨apartTarget, apartName⟩ := apart j hj
      constructor
      · simp [newTarget, apartTarget, (other _ _).symm]
      · simp [newName, apartName, other]
    show firstHit ((tower k).memberFrom name (bound + 3 * d + 2 + 1 + 1))
      [.record _ [], storeyTarget i] visited = _
    refine firstHit_of_second rfl ?_
    refine (memberFrom_of_result known).trans ((if_neg fresh.1).trans ?_)
    refine (memberFrom_of_unfold unfolds).trans ((if_neg ?_).trans rest)
    exact fun h => (List.mem_cons.1 h).elim (other _ _) fresh.2

/-- However far it may go, a search for a member that is nowhere comes to a target that has no
result yet. -/
lemma member?_tower (k steps : Nat) :
    (tower k).member? steps (storeyBody 0) "x" = .error .exhausted ∨
      (tower k).member? steps (storeyBody 0) "x" = .error (.demand (storeyTarget k)) := by
  by_cases reached : (tower k).member? steps (storeyBody 0) "x" = .error .exhausted
  · exact .inl reached
  · refine .inr ?_
    have more : steps ≤ steps + 3 * k + 2 := by omega
    have found := memberFrom_storeyBody "x" k (Nat.zero_add k) steps fun j _ =>
      ⟨List.not_mem_nil, List.not_mem_nil⟩
    rw [← (tower k).lasts_member? more (storeyBody 0) "x" reached, Heap.member?, found]
    rfl

lemma Towers.exhausted {steps demands k : Nat} {s : Session} (h : Towers k s) :
    (outcome (askWith force (fun heap => heap.member? steps (storeyBody 0) "x") demands) s).1 =
      .error .exhausted := by
  induction demands generalizing k s with
  | zero => rfl
  | succ demands ih =>
    rcases member?_tower k steps with reached | demanded
    · rw [← h.heap] at reached
      rw [outcome_askWith_of_undemanding reached (by simp)]
      rfl
    · rw [← h.heap] at demanded
      rw [outcome_askWith_of_demand demanded h.forced]
      exact ih h.heightened

/-- The session in which the type is resolved for nothing at all. -/
def founding : Session :=
  withResolver delegating.session 10000 64

/-- The state in which the type has been expanded for that. -/
def founded : Expanding :=
  raised ⟨founding.store, .ofBudget 10000 64⟩ (.written (some ⟨1, 1⟩)) (nested 0)

lemma heap_founded : founded.store.heap = tower 0 := by rfl

lemma outcome_expand_founding :
    outcome (expand founding.registry [] none (.reference (.written (some ⟨1, 1⟩)) "a" [nested 0]))
      ⟨founding.store, (founding.store.resolver 1).restart⟩ = (.ok (storeyName 0), founded) := by
  let opened : Expanding := ⟨founding.store, .ofBudget 10000 64⟩
  have unknown : known? founding.registry opened
      (.named (.written (some ⟨1, 1⟩)) "a" [nested 0]) = none := by rfl
  refine Eq.trans ?_ (outcome_reference_growing 62 unknown (show 0 < 10000 by decide))
  have fresh : founding.store.resolver 1 = .ofBudget 10000 64 := Store.resolver_setResolver _ _ _
  have lookup : founding.registry.lookup "a" = some growing := by rfl
  rw [fresh]
  show outcome (expandAt founding.registry 64 0 _ _ _) _ = _
  rw [expandAt]
  simp [expandIn, expandAll, declarationOf, lookup, nested, growing, Declaration.arity, opened,
    Resolver.ofBudget, Resolver.restart]

/-- The first storey stands when the type has been resolved. -/
lemma towers_founded : Towers 0 (remembering founding 1 founded) where
  lookup := by rfl
  memo := fun t ht => by
    rcases Registry.mem_foldl_remember ht with ht | ht
    · rw [show founding.registry.memo = [] by rfl] at ht
      cases ht
    · exact ⟨0, Nat.le_refl _, List.mem_singleton.1 ht⟩
  heap := heap_founded
  next := by rfl
  suspended := by
    have next : delegating.session.store.nextStamp + 1 + 2 = ground 0 + 3 := by rfl
    simp [remembering, Store.setResolver, founded, raised, founding, withResolver, next]
  resolver := by
    have other : ground 0 + 3 ≠ 1 := by decide
    have next : founding.store.nextStamp + 2 = ground 0 + 3 := by rfl
    show ((remembering founding 1 founded).store.resolvers[ground 0 + 3]?).getD .fresh = _
    rw [remembering, Store.getElem?_setResolver, if_neg other, Store.getElem?_setResolver,
      if_neg other]
    simp [founded, raised, Resolver.ofBudget, next]

lemma outcome_resolveText_delegating : outcome (resolveText "a void") delegating.session =
    (.ok (storeyBody 0), remembering founding 1 founded) := by
  have parsed : parseType "a void" =
      .ok (.reference (.written (some ⟨1, 1⟩)) "a" [nested 0]) := by
    decide +kernel
  have body : founded.store.heap.body? (ground 0 + 1) = some (storeyBody 0) := by
    rw [heap_founded]
    exact body?_tower (Nat.le_refl 0)
  have resolved :=
    outcome_resolveWith outcome_expand_founding (by rfl) (productive_of_body? body)
  rw [heap_founded, unfold_tower (Nat.le_refl 0)] at resolved
  simp only [resolveText, parsed, Action.reading, outcome_bind, outcome_pure, resolve,
    outcome_newResolver]
  exact resolved

lemma writes_delegating : delegating.Writes := by
  have again : again.Written := throughout_iff.2 ⟨trivial, List.forall_mem_singleton.2
    (throughout_iff.2 ⟨trivial, List.forall_mem_singleton.2
      (throughout_iff.2 ⟨trivial, by simp [parts]⟩)⟩)⟩
  have members : Written (.record (.written none) []) :=
    throughout_iff.2 ⟨trivial, by simp [parts]⟩
  have body : growing.body.Written := throughout_iff.2 ⟨trivial, by
    simpa [parts, growing] using ⟨members, again⟩⟩
  exact .call (.start List.mem_cons_self) body.over body

/-- A lookup need not end: here every target leads to another one, however many are resolved. -/
theorem not_lookup_ends_delegating : delegating.Writes ∧ ∀ steps demands,
    (outcome (lookupWithin steps demands "a void" "x") delegating.session).1 =
      .error .exhausted := by
  refine ⟨writes_delegating, fun steps demands => ?_⟩
  simp only [lookupWithin, outcome_bind, outcome_resolveText_delegating]
  exact towers_founded.exhausted

end Client

end TypeNotation
