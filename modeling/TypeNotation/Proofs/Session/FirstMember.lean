import TypeNotation.Proofs.Relation.FirstHit
import TypeNotation.Proofs.Session.Growth

/-!
# Members of resolved types

A client that asks for all members of a type has all targets resolved that the type leads to.  A
client that asks for one member instead has them resolved in the same order, up to the one where the
search hits; and what it finds is what would be found at the end.
-/

namespace TypeNotation

open TypeExpr Query Expansion

namespace Stage

variable {st st' : Stage} {t u : TypeExpr}

/-- What a settled type consults is settled. -/
lemma Sound.consults (sound : st.Sound) (ht : t.ResolvedOver st.settled)
    (htu : st.store.heap.Consults t u) : u.ResolvedOver st.settled := by
  induction htu with
  | refl => exact ht
  | @tail x y _ hy ih =>
    cases x with
    | named m name args =>
      obtain ⟨d, -, -, declared⟩ := sound.wired.declared ih.self
      exact (declared y (Option.mem_toList.1 hy)).1
    | deferred m target bindings => exact sound.wired.result ih.self (Option.mem_toList.1 hy)
    | predicate m constraint body listed =>
      rw [List.mem_singleton.1 hy]
      exact ih.part (by simp [parts])
    | delegation m base targets => exact ih.part hy
    | _ => cases hy

lemma Sound.grounded_consults (sound : st.Sound) (ht : t.ResolvedOver st.settled) :
    ∀ u, st.store.heap.Consults t u → st.store.heap.Grounded u :=
  fun _ htu => sound.grounded_of_resolvedOver (sound.consults ht htu)

/-- Where the loop of a search goes on, it goes on to the same later. -/
lemma Grows.passage (grows : st.Grows st') (sound : st.Sound) (ht : t.ResolvedOver st.settled)
    (hnext : st.store.heap.passage? t = some (.ok u)) :
    st'.store.heap.passage? t = some (.ok u) := by
  cases t with
  | named m name args =>
    cases hnext
    rw [← grows.later.unfold sound ht]
    rfl
  | predicate => exact hnext
  | deferred m target bindings =>
    simp only [Heap.passage?, Heap.reveal, Option.some.injEq] at hnext ⊢
    split at hnext
    · rename_i r hr
      rw [grows.results hr]
      exact hnext
    · cases hnext
  | _ => cases hnext

/-- What a search has found is found later as well. -/
lemma Grows.memberFrom (grows : st.Grows st') (sound : st.Sound) {name : String} {bound : Nat}
    (ht : t.ResolvedOver st.settled) {visited : Visited} {r : Option TypeExpr × Visited}
    (hr : st.store.heap.memberFrom name bound t visited = .ok r) :
    st'.store.heap.memberFrom name bound t visited = .ok r := by
  induction bound generalizing t visited r with
  | zero => cases hr
  | succ bound ih =>
    obtain ⟨_, ⟨⟩, went⟩ := Heap.went_of_memberFrom hr
    refine Heap.memberFrom_of_went ?_
    cases went with
    | again passage passed => exact .again (by cases t <;> first | rfl | cases passage) passed
    | on passage new rest =>
      have settled : ResolvedOver st.settled _ := stays_passage sound.wired ht passage
      exact .on (grows.passage sound ht passage) new (ih settled rest)
    | @parts m base targets _ hits =>
      refine .parts ?_
      have among {ts : List TypeExpr} (hts : ∀ u ∈ ts, u.ResolvedOver st.settled)
          {visited : Visited}
          (hits : firstHit (st.store.heap.memberFrom name bound) ts visited = .ok r) :
          firstHit (st'.store.heap.memberFrom name bound) ts visited = .ok r := by
        induction ts generalizing visited with
        | nil => exact hits
        | cons u ts iht =>
          rw [List.forall_mem_cons] at hts
          obtain ⟨⟨_ | a, passed⟩, hu, hits⟩ := bind_eq_ok.1 hits
          · exact bind_eq_ok.2 ⟨_, ih hts.1 hu, iht hts.2 hits⟩
          · exact bind_eq_ok.2 ⟨_, ih hts.1 hu, hits⟩
      exact among (fun u hu => ht.part hu) hits
    | bare passage ahead =>
      cases t with
      | named | deferred | predicate => cases passage
      | delegation => cases ahead
      | _ => exact .bare rfl rfl

lemma Grows.member? (grows : st.Grows st') (sound : st.Sound) {name : String} {bound : Nat}
    (ht : t.ResolvedOver st.settled) {found : Option TypeExpr}
    (hr : st.store.heap.member? bound t name = .ok found) :
    st'.store.heap.member? bound t name = .ok found := by
  obtain ⟨r, hr, hfound⟩ := bind_eq_ok.1 hr
  exact bind_eq_ok.2 ⟨r, grows.memberFrom sound ht hr, hfound⟩

end Stage

open Stage

namespace Action

variable {st : Stage} {t u : TypeExpr} {s : Session}

/-- The members of a type, with bounds on the length of a path to them and on the number of targets
that are resolved. -/
def membersWithin (steps demands : Nat) (t : TypeExpr) : Action (List String) :=
  askWith force (fun heap => heap.members steps t) demands

/-- The type of a member, with bounds on the length of the path to it and on the number of targets
that are resolved. -/
def memberWithin (steps demands : Nat) (t : TypeExpr) (name : String) : Action (Option TypeExpr) :=
  askWith force (fun heap => heap.member? steps t name) demands

/-- Where all members are known in the end, a lookup finds what it would find in the end. -/
lemma outcome_memberWithin (ripe : st.Ripe) (ht : t.ResolvedOver st.settled)
    {steps demands : Nat} {names : List String}
    (h : outcome (membersWithin steps demands t) st.session = (.ok names, s)) (name : String) :
    ∃ st' : Stage, st'.session = s ∧ st.Grows st' ∧ s.store.heap.members steps t = .ok names ∧
      ∀ found, s.store.heap.member? steps t name = .ok found →
        ∃ s', outcome (memberWithin steps demands t name) st.session = (.ok found, s') := by
  induction demands generalizing st with
  | zero => cases h
  | succ demands ih =>
    unfold membersWithin memberWithin at *
    rw [outcome_askWith] at h
    cases hanswer : st.store.heap.members steps t with
    | ok answer =>
      simp only [hanswer] at h
      cases h
      refine ⟨st, rfl, ripe.refl, hanswer, fun found hfound => ⟨st.session, ?_⟩⟩
      rw [outcome_askWith, hfound]
    | error halt =>
      simp only [hanswer] at h
      cases halt with
      | demand d =>
        have free := free_members ripe.sound.wired steps ht
        rw [hanswer] at free
        obtain ⟨hnode, m, target, bindings, rfl⟩ := free
        obtain ⟨settled, shelf, grows, -⟩ := grows_force ripe hnode
        simp only [outcome_bind] at h
        rcases hout : outcome (force (.deferred m target bindings)) st.session with ⟨fault | u, s₁⟩
        · rw [hout] at h
          cases h
        · simp only [hout] at h grows
          obtain ⟨st', rfl, grows', hmembers, hfind⟩ :=
            ih grows.ripe (ht.mono fun _ => grows.later.settled) h
          refine ⟨st', rfl, grows.trans grows', hmembers, fun found hfound => ?_⟩
          rcases Heap.member?_of_members_eq_error hanswer name with stops | ⟨a, hit⟩
          · obtain ⟨s', hs'⟩ := hfind found hfound
            refine ⟨s', ?_⟩
            rw [outcome_askWith, stops]
            simp only [outcome_bind, hout]
            exact hs'
          · rw [(grows.trans grows').member? ripe.sound ht hit] at hfound
            cases hfound
            exact ⟨st.session, by rw [outcome_askWith, hit]⟩
      | _ => cases h

/-! ## Targets that have been expanded before -/

/-- A question that has an answer leaves the session as it is. -/
lemma outcome_askWith_of_answer {question : Heap → Query α} {s : Session} {answer : α}
    (h : question s.store.heap = .ok answer) {demands : Nat} :
    outcome (askWith force question (demands + 1)) s = (.ok answer, s) := by
  rw [outcome_askWith, h]

/-- A question that demands a target is asked again when the target has been resolved. -/
lemma outcome_askWith_of_demand {α : Type} {question : Heap → Query α} {s' : Session}
    (demands : question s.store.heap = .error (.demand t))
    (forced : outcome (force t) s = (.ok u, s')) (bound : Nat) :
    outcome (askWith force question (bound + 1)) s =
      outcome (askWith force question bound) s' := by
  rw [outcome_askWith, demands]
  simp only [outcome_bind, forced]

/-- A session in which a suspended target has a result, and everything else is as it was, apart from
the resolver of the target. -/
structure Answered (s s' : Session) (stamp : Nat) (t : TypeExpr) : Prop where
  registry : s'.registry = s.registry
  heap : s'.store.heap = s.store.heap.setResult stamp t
  suspensions : s'.store.suspensions = s.store.suspensions
  resolvers : ∀ {key : Nat}, key ≠ stamp → s'.store.resolvers[key]? = s.store.resolvers[key]?

/-- A suspended target that names a declaration without parameters, whose expansion is
remembered. -/
structure Remembered (s : Session) (stamp : Nat) (name : String) (t : TypeExpr) : Prop where
  suspended : ∃ scope, s.store.suspensions[stamp]? =
    some ⟨.reference (.written none) name [], [], scope⟩
  resolver : ∃ steps depth, s.store.resolvers[stamp]? = some (.ofBudget steps (depth + 1))
  expanded : ∃ d, s.registry.lookup name = some d ∧ d.arity = 0 ∧
    s.registry.memoized (.named (.written none) d.name []) = some t

lemma Answered.remembered {s s' : Session} {stamp key : Nat} {t u : TypeExpr} {name : String}
    (answered : Answered s s' stamp t) (hkey : key ≠ stamp) (h : Remembered s key name u) :
    Remembered s' key name u where
  suspended := by
    rw [answered.suspensions]
    exact h.suspended
  resolver := by
    rw [answered.resolvers hkey]
    exact h.resolver
  expanded := by
    rw [answered.registry]
    exact h.expanded

lemma Answered.unknown {s s' : Session} {stamp key : Nat} {t : TypeExpr}
    (answered : Answered s s' stamp t) (hkey : key ≠ stamp)
    (unknown : s.store.heap.result? key = none) : s'.store.heap.result? key = none := by
  rw [answered.heap]
  simpa [Heap.result?, Heap.setResult, Std.HashMap.getElem?_insert, Ne.symm hkey] using unknown

/-- Such a target results in that expansion. -/
lemma Remembered.answered {stamp : Nat} {name : String} (h : Remembered s stamp name t)
    (unknown : s.store.heap.result? stamp = none) (target : TypeExpr)
    (bindings : List (Field TypeExpr)) :
    ∃ s', outcome (force (.deferred ⟨none, stamp⟩ target bindings)) s = (.ok t, s') ∧
      Answered s s' stamp t := by
  obtain ⟨⟨scope, suspended⟩, ⟨steps, depth, resolver⟩, d, lookup, arity, memo⟩ := h
  have resolver : s.store.resolver stamp = .ofBudget steps (depth + 1) := by
    rw [Store.resolver, resolver, Option.getD_some]
  have run : outcome (expand s.registry [] scope (.reference (.written none) name []))
      ⟨s.store, (s.store.resolver stamp).restart⟩ =
        (.ok t, ⟨s.store, .ofBudget steps (depth + 1)⟩) := by
    rw [resolver]
    simp [expand, outcome_bind, Resolver.restart, Resolver.ofBudget, expandAt, expandIn,
      declarationOf, lookup, arity, expandAll, outcome_reference, known?, memo]
  have hold : ∀ c ∈ (Resolver.ofBudget steps (depth + 1)).pending,
      (Matcher.mk s.store.heap true).isSubtype depthBound c.binding c.constraint = .ok true :=
    fun c hc => by cases hc
  obtain ⟨bound, hbound⟩ : ∃ bound, depthBound = bound + 1 := ⟨19999, rfl⟩
  let s₁ := remembering s stamp ⟨s.store, .ofBudget steps (depth + 1)⟩
  have resolved : outcome (resolving (forceWithin bound) stamp
      (expand s.registry [] scope (.reference (.written none) name []))) s = (.ok t, s₁) :=
    outcome_resolving_of_hold run hold rfl
  refine ⟨{ s₁ with store := { s₁.store with heap := s₁.store.heap.setResult stamp t } }, ?_,
    rfl, rfl, rfl, fun {key} hkey => ?_⟩
  · generalize hnode : TypeExpr.deferred ⟨none, stamp⟩ target bindings = node
    have own : node.stamp = stamp := by rw [← hnode]; rfl
    have suspends : suspensionAt s.store node =
      ⟨.reference (.written none) name [], [], scope⟩ := by
      rw [← hnode]
      show (s.store.suspensions[stamp]?).getD _ = _
      rw [suspended, Option.getD_some]
    simp only [force, hbound, forceWithin, outcome_bind, outcome_get, own, unknown, forceAnew,
      suspends, resolved, outcome_modify, outcome_pure, s₁]
  · show ((s.store.setResolver stamp _).setResolver stamp _).resolvers[key]? = _
    rw [Store.getElem?_setResolver, if_neg hkey, Store.getElem?_setResolver, if_neg hkey]

end Action

open TypeNotation.Action

namespace Client

/-- Member lookup is complete, and agrees with the list of members.

Both calls have a bound on the path of the search and on the number of targets.  Where all targets
that a type leads to have been resolved, both calls have an answer.  And whenever the list of
members has an answer, all targets can be resolved, and a lookup that is made instead has an answer
as well. It finds a member exactly if the name is listed, and if some record that the type leads to
has the field; what it finds is the field of such a record, and of the first one in depth-first
order unless the search comes back to a delegation with parts that are still to be searched. -/
theorem Writes.member_complete {c : Client} (h : c.Writes) {t : TypeExpr}
    (ht : t.ResolvedOver c.nodes) (name : String) :
    (member? t name = memberWithin depthBound depthBound t name ∧
      members t = membersWithin depthBound depthBound t) ∧
    (c.session.store.heap.Forced t → ∃ bound found names, ∀ steps, bound ≤ steps → ∀ demands,
      outcome (memberWithin steps (demands + 1) t name) c.session = (.ok found, c.session) ∧
        outcome (membersWithin steps (demands + 1) t) c.session = (.ok names, c.session)) ∧
    ∀ steps demands names s, outcome (membersWithin steps demands t) c.session = (.ok names, s) →
      s.store.heap.Forced t ∧ ∃ found s',
        outcome (memberWithin steps demands t name) c.session = (.ok found, s') ∧
          s.store.heap.Finds t name found names := by
  obtain ⟨st, on⟩ := h.reachable.on
  have ripe : st.Ripe := ⟨on.sound, by rw [on.session]; exact h.direct⟩
  have settled := resolvedOver_settled on.held ht
  rw [← on.session]
  refine ⟨⟨rfl, rfl⟩, fun forced => ?_, fun steps demands names s hmembers => ?_⟩
  · obtain ⟨bound, ⟨found, visited⟩, same⟩ := forced.exists_memberFrom name
    obtain ⟨bound', ⟨names, visited'⟩, same'⟩ := forced.exists_membersFrom
    refine ⟨max bound bound', found, names, fun steps le demands => ⟨?_, ?_⟩⟩
    · refine outcome_askWith_of_answer ?_
      simp only [Heap.member?, same steps (by omega)]
      rfl
    · refine outcome_askWith_of_answer ?_
      simp only [Heap.members, same' steps (by omega)]
      rfl
  · obtain ⟨st', rfl, grows, hnames, hfind⟩ := outcome_memberWithin ripe settled hmembers name
    have grounded := grows.ripe.sound.grounded_consults (settled.mono fun _ => grows.later.settled)
    obtain ⟨listed, collected, -⟩ := bind_eq_ok.1 hnames
    obtain ⟨found, hfound, finds⟩ := Heap.exists_finds grounded hnames name
    obtain ⟨s', lookedUp⟩ := hfind found hfound
    exact ⟨Heap.forced_of_membersFrom collected grounded, found, s', lookedUp, finds⟩

lemma Writes.resolvedAnew {c : Client} (h : c.Writes) {maxSteps maxDepth : Nat} {t : TypeExpr}
    (ht : t.Written) : (c.resolvedAnew maxSteps maxDepth t).Writes := by
  have made : (c.after (.newResolver maxSteps maxDepth)).Writes := h.call trivial trivial
  refine made.call ⟨?_, ht.over, by simp⟩ ⟨ht, by simp⟩
  exact List.mem_append_right _ (List.mem_singleton_self _)

/-! ### A ring of delegations -/

/-- A type that delegates to itself. -/
def ring : Declaration :=
  ⟨"n", [], .delegation (.written none) (.record (.written none) [⟨"k", .unit (.written none)⟩])
    [.reference (.written none) "n" []], none⟩

/-- A client that has declared it. -/
def unringed : Client :=
  (start .empty).after (.declare ring)

/-- A client that has resolved it. -/
def ringed : Client :=
  unringed.resolvedAnew 1 1 (.reference (.written none) "n" [])

/-- Its name, when it is resolved. -/
def ringName : TypeExpr := .named ⟨none, 2⟩ "n" []

/-- Its own members. -/
def ringBase : TypeExpr := .record ⟨none, 3⟩ [⟨"k", .unit (.written none)⟩]

/-- Its target. -/
def ringTarget : TypeExpr := .deferred ⟨none, 4⟩ (.reference (.written none) "n" []) []

/-- What it stands for. -/
def ringBody : TypeExpr := .delegation ⟨none, 5⟩ ringBase [ringTarget]

lemma outcome_ring : ∃ e : Expanding,
    outcome (expand unringed.session.registry [] none (.reference (.written none) "n" []))
      ⟨(withResolver unringed.session 1 1).store, .ofBudget 1 1⟩ = (.ok ringName, e) ∧
    e.resolver.pending = [] ∧ e.resolver.expanded = [ringName] ∧
    e.store.heap = Heap.empty.setBody 2 ringBody ∧
    e.store.suspensions[4]? = some ⟨.reference (.written none) "n" [], [], some "n"⟩ ∧
    e.store.resolvers[4]? = some (.ofBudget 1 1) ∧ e.store.nextStamp = 6 := by
  have lookup : unringed.session.registry.lookup "n" = some ring := by rfl
  have memo (m : Mark) : unringed.session.registry.memoized (.named m "n" []) = none := by rfl
  have next : (withResolver unringed.session 1 1).store.nextStamp = 2 := by rfl
  have heap : (withResolver unringed.session 1 1).store.heap = .empty := by rfl
  simp [expand, outcome_bind, Resolver.ofBudget, expandAt, expandIn, declarationOf, lookup,
    expandAll, expandFields, ring, Declaration.arity, outcome_reference, known?, memo, enter,
    Mark.written, remark, Except.map, outcome_suspend, withSuspension, Declaration.binding,
    Declaration.letters, targetBindings_nil, next, heap, ringName, ringBase, ringTarget, ringBody]

/-- The heap after the type and its target have been resolved. -/
def ringHeap : Heap := (Heap.empty.setBody 2 ringBody).setResult 4 ringName

lemma ringed_spec :
    ringed.session.store.heap = Heap.empty.setBody 2 ringBody ∧ ringed.held = [ringBody] ∧
      Remembered ringed.session 4 "n" ringName ∧ ringed.session.store.nextStamp = 6 := by
  obtain ⟨e, run, pending, expanded, heap, suspended, resolver, stamp⟩ := outcome_ring
  have productive : e.store.heap.checkProductive e.resolver.expanded = .ok () := by
    rw [heap, expanded]
    simp [ringBody, ringBase, ringName, Heap.checkProductive, Heap.walk, Heap.walkWith, Heap.body?,
      Heap.setBody, Heap.empty, Std.HashMap.size_insert]
  have unfolds : e.store.heap.unfold ringName = ringBody := by
    rw [heap]
    simp [ringBody, ringName, Heap.unfold, Heap.unfoldFrom, Heap.body?, Heap.setBody, Heap.empty,
      Std.HashMap.size_insert]
  have next : unringed.session.store.nextStamp = 1 := by rfl
  rw [ringed, resolvedAnew_eq run pending productive, unfolds, next]
  refine ⟨heap, rfl, ⟨⟨some "n", suspended⟩, ⟨1, 0, ?_⟩, ring, rfl, rfl, ?_⟩, stamp⟩
  · rw [remembering, Store.getElem?_setResolver, if_neg (by decide), Store.getElem?_setResolver,
      if_neg (by decide), resolver]
  · have none : unringed.session.registry.memo = [] := by rfl
    show Registry.memoized (unringed.session.registry.memoize e.resolver.expanded) _ = _
    rw [expanded]
    simp [Registry.memoized, Registry.memoize, Registry.remember, none, ringName, ring,
      same, sameAll]

lemma result_unringed (n : Nat) : (Heap.empty.setBody 2 ringBody).result? n = none := by
  simp [Heap.result?, Heap.setBody, Heap.empty]

/-- When its target is resolved, the type is what it results in. -/
lemma outcome_force_ring {s : Session} (remembered : Remembered s 4 "n" ringName)
    (heap : s.store.heap = Heap.empty.setBody 2 ringBody) :
    ∃ s', outcome (force ringTarget) s = (.ok ringName, s') ∧ s'.store.heap = ringHeap := by
  have unknown : s.store.heap.result? 4 = none := by rw [heap, result_unringed]
  obtain ⟨s', out, answered⟩ := remembered.answered unknown (.reference (.written none) "n" []) []
  exact ⟨s', out, by rw [answered.heap, heap]; rfl⟩

lemma unfold_ring : ringHeap.unfold ringName = ringBody := by
  simp [ringHeap, ringName, ringBody, Heap.unfold, Heap.unfoldFrom, Heap.body?, Heap.setBody,
    Heap.setResult, Heap.empty, Std.HashMap.size_insert]

lemma result_ring : ringHeap.result? 4 = some ringName := by
  simp [ringHeap, Heap.result?, Heap.setResult]

lemma members_ring_of_unknown {h : Heap} (unknown : h.result? 4 = none) (bound : Nat) :
    h.members (bound + 5) ringBody = .error (.demand ringTarget) := by
  simp [Heap.members, Heap.membersFrom, ringBody, ringBase, ringTarget, allHits, Heap.passage?,
    Heap.reveal, unknown, bind, Except.bind]

lemma members_ring_of_known {h : Heap} (known : h.result? 4 = some ringName)
    (unfolds : h.unfold ringName = ringBody) (bound : Nat) :
    h.members (bound + 5) ringBody = .ok ["k"] := by
  have target : h.passage? ringTarget = some (.ok ringName) := by
    simp [Heap.passage?, ringTarget, Heap.reveal, known]
  have name : h.passage? ringName = some (.ok ringBody) := by
    rw [← unfolds]
    rfl
  have apart : ringName ≠ ringTarget := by simp [ringName, ringTarget]
  have body (b : Nat) (visited : Visited) : h.membersFrom (b + 2) ringBody visited =
      (h.membersFrom (b + 1) ringTarget visited >>= fun hit =>
        pure (["k"] ++ (hit.1.filter (· ∉ ["k"])).eraseDups, hit.2)) := rfl
  have again : h.membersFrom (bound + 1) ringTarget [ringName, ringTarget] =
      .ok ([], [ringName, ringTarget]) := by
    rw [Heap.membersFrom_of_passage target, if_pos (by simp)]
  have further : h.membersFrom (bound + 4) ringTarget [] = .ok (["k"], [ringName, ringTarget]) := by
    rw [Heap.membersFrom_of_passage target, if_neg List.not_mem_nil]
    show h.membersFrom (bound + 3) ringName [ringTarget] = _
    rw [Heap.membersFrom_of_passage name, if_neg (by simp [apart])]
    show h.membersFrom (bound + 2) ringBody [ringName, ringTarget] = _
    rw [body, again]
    rfl
  rw [Heap.members, body, further]
  rfl

lemma outcome_members_ring : ∃ s, outcome (members ringBody) ringed.session = (.ok ["k"], s) ∧
    s.store.heap = ringHeap := by
  obtain ⟨heap, -, remembered, -⟩ := ringed_spec
  obtain ⟨s, forced, heap'⟩ := outcome_force_ring remembered heap
  obtain ⟨bound, hbound⟩ : ∃ bound, depthBound = bound + 5 := ⟨19995, rfl⟩
  have unknown : ringed.session.store.heap.result? 4 = none := by rw [heap, result_unringed]
  refine ⟨s, ?_, heap'⟩
  rw [members, ask, hbound,
    outcome_askWith_of_demand (members_ring_of_unknown unknown bound) forced, outcome_askWith,
    heap', members_ring_of_known result_ring unfold_ring]

lemma writes_ringed : ringed.Writes := by
  have members : Written (.record (.written none) [⟨"k", .unit (.written none)⟩]) :=
    throughout_iff.2 ⟨trivial, List.forall_mem_singleton.2 written_unit⟩
  have body : ring.body.Written := throughout_iff.2 ⟨trivial, by
    simpa [parts, ring] using ⟨members, written_name "n"⟩⟩
  have declared : unringed.Writes := .call (.start List.mem_cons_self) body.over body
  exact declared.resolvedAnew (written_name "n")

lemma resolvedOver_ring : ringBody.ResolvedOver ringed.nodes := by
  obtain ⟨-, held, -⟩ := ringed_spec
  have node : ringed.nodes ringTarget :=
    ⟨ringBody, by simp [held], by simp [ringBody, ringTarget, subterms, subtermsOfAll]⟩
  have base : ringBase.ResolvedOver ringed.nodes := throughout_iff.2 ⟨trivial, by
    simpa [parts, ringBase] using throughout_iff.2 ⟨trivial, by simp [parts]⟩⟩
  exact throughout_iff.2 ⟨trivial, by
    simpa [parts, ringBody] using ⟨base, resolvedOver_deferred.2 node⟩⟩

/-- All that the type leads to is itself. -/
lemma consults_ring {u : TypeExpr} (h : ringHeap.Consults ringBody u) :
    u ∈ [ringBody, ringBase, ringTarget, ringName] := by
  have body : ringHeap.ahead ringBody = [ringBase, ringTarget] := rfl
  have base : ringHeap.ahead ringBase = [] := rfl
  have target : ringHeap.ahead ringTarget = [ringName] := by
    simp [Heap.ahead, ringTarget, result_ring]
  have name : ringHeap.ahead ringName = [ringBody] := by
    simp [Heap.ahead, ringName, ringHeap, Heap.body?, Heap.setBody, Heap.setResult]
  have closed : ∀ t ∈ [ringBody, ringBase, ringTarget, ringName], ∀ v ∈ ringHeap.ahead t,
      v ∈ [ringBody, ringBase, ringTarget, ringName] := by
    simp [body, base, target, name]
  induction h with
  | refl => exact List.mem_cons_self
  | tail _ hu ih => exact closed _ ih _ hu

lemma straight_ring : ringHeap.Straight ringBody := by
  refine Heap.straight_of_chain fun m base targets h => ?_
  have mem := consults_ring h
  simp only [List.mem_cons, List.not_mem_nil, or_false] at mem
  rcases mem with heq | heq | heq | heq <;> cases heq
  exact ⟨rfl, rfl, Nat.le_refl 1⟩

/-- A type that delegates to itself has its own member, which is the first. -/
theorem member_complete_ring : ringed.Writes ∧ ringBody.ResolvedOver ringed.nodes ∧
    ∃ s, outcome (members ringBody) ringed.session = (.ok ["k"], s) ∧
      s.store.heap.Forced ringBody ∧ s.store.heap.Straight ringBody ∧ ∃ found s',
        outcome (member? ringBody "k") ringed.session = (.ok found, s') ∧
          s.store.heap.Finds ringBody "k" found ["k"] := by
  obtain ⟨s, listed, heap⟩ := outcome_members_ring
  obtain ⟨-, -, complete⟩ := writes_ringed.member_complete resolvedOver_ring "k"
  obtain ⟨forced, found, s', lookedUp, finds⟩ := complete depthBound depthBound ["k"] s listed
  exact ⟨writes_ringed, resolvedOver_ring, s, listed, forced, heap ▸ straight_ring,
    found, s', lookedUp, finds⟩

/-! ### A delegation that is come back to -/

/-- A reference without arguments. -/
def called (name : String) : TypeExpr := .reference (.written none) name []

/-- The number zero. -/
def zero : TypeExpr := .number (.literal none (.int 0))

/-- Two records with a member of the same name, a delegation to the second of them, and one that
extends this delegation and is its first target. -/
def circuit : List Declaration :=
  [⟨"o", [], .record (.written none) [⟨"k", zero⟩], none⟩,
    ⟨"z", [], .record (.written none) [⟨"k", .unit (.written none)⟩], none⟩,
    ⟨"p", [], .delegation (.written none)
      (.record (.written none) [⟨"o", called "o"⟩, ⟨"z", called "z"⟩])
        [called "q", called "z"], none⟩,
    ⟨"q", [], .delegation (.written none) (called "p") [called "o"], none⟩]

/-- A client that has declared them. -/
def unlooped : Client :=
  (start .empty).after (.load circuit)

/-- A client that has resolved the last. -/
def looped : Client :=
  unlooped.resolvedAnew 4 4 (called "q")

/-! The names of the four types, when they are resolved, and what they stand for. -/

def loopO : TypeExpr := .named ⟨none, 4⟩ "o" []
def loopZ : TypeExpr := .named ⟨none, 6⟩ "z" []
def loopP : TypeExpr := .named ⟨none, 3⟩ "p" []
def loopQ : TypeExpr := .named ⟨none, 2⟩ "q" []
def recordO : TypeExpr := .record ⟨none, 5⟩ [⟨"k", zero⟩]
def recordZ : TypeExpr := .record ⟨none, 7⟩ [⟨"k", .unit (.written none)⟩]
def baseP : TypeExpr := .record ⟨none, 8⟩ [⟨"o", loopO⟩, ⟨"z", loopZ⟩]
def targetQ : TypeExpr := .deferred ⟨none, 9⟩ (called "q") []
def targetZ : TypeExpr := .deferred ⟨none, 10⟩ (called "z") []
def targetO : TypeExpr := .deferred ⟨none, 12⟩ (called "o") []
def bodyP : TypeExpr := .delegation ⟨none, 11⟩ baseP [targetQ, targetZ]
def bodyQ : TypeExpr := .delegation ⟨none, 13⟩ loopP [targetO]

/-- The heap after the last has been resolved. -/
def loopedHeap : Heap :=
  (((Heap.empty.setBody 4 recordO).setBody 6 recordZ).setBody 3 bodyP).setBody 2 bodyQ

lemma outcome_looped : ∃ e : Expanding,
    outcome (expand unlooped.session.registry [] none (called "q"))
      ⟨(withResolver unlooped.session 4 4).store, .ofBudget 4 4⟩ = (.ok loopQ, e) ∧
    e.resolver.pending = [] ∧ e.resolver.expanded = [loopQ, loopP, loopO, loopZ] ∧
    e.store.heap = loopedHeap ∧
    e.store.suspensions[9]? = some ⟨called "q", [], some "p"⟩ ∧
    e.store.suspensions[10]? = some ⟨called "z", [], some "p"⟩ ∧
    e.store.suspensions[12]? = some ⟨called "o", [], some "q"⟩ ∧
    e.store.resolvers[9]? = some (.ofBudget 4 4) ∧
    e.store.resolvers[10]? = some (.ofBudget 4 4) ∧
    e.store.resolvers[12]? = some (.ofBudget 4 4) := by
  have o : unlooped.session.registry.lookup "o" = circuit[0]? := by rfl
  have z : unlooped.session.registry.lookup "z" = circuit[1]? := by rfl
  have p : unlooped.session.registry.lookup "p" = circuit[2]? := by rfl
  have q : unlooped.session.registry.lookup "q" = circuit[3]? := by rfl
  have memo (m : Mark) (name : String) :
      unlooped.session.registry.memoized (.named m name []) = none := by rfl
  have next : (withResolver unlooped.session 4 4).store.nextStamp = 2 := by rfl
  have heap : (withResolver unlooped.session 4 4).store.heap = .empty := by rfl
  simp [expand, outcome_bind, Resolver.ofBudget, expandAt, expandIn, declarationOf, o, z, p, q,
    circuit, called, expandAll, expandFields, Declaration.arity, outcome_reference, known?, memo,
    enter, Mark.written, remark, Except.map, outcome_suspend, withSuspension, Declaration.binding,
    Declaration.letters, targetBindings_nil, next, heap, loopO, loopZ, loopP, loopQ, recordO,
    recordZ, baseP, targetQ, targetZ, targetO, bodyP, bodyQ, loopedHeap, zero, numeral, same,
    sameAll, Std.HashMap.getElem_insert]

/-- A heap on which the four types stand for these. -/
structure Circuit (h : Heap) : Prop where
  o : h.unfold loopO = recordO
  z : h.unfold loopZ = recordZ
  p : h.unfold loopP = bodyP
  q : h.unfold loopQ = bodyQ

section Circuit

variable {h : Heap} {name : String} {bound : Nat} {visited : Visited} {m : Mark} {n : String}
  {k : Nat} {target t : TypeExpr} {args : List TypeExpr} {bindings : List (Field TypeExpr)}

lemma memberFrom_of_unfold (unfolds : h.unfold (.named m n args) = t) :
    h.memberFrom name (bound + 1) (.named m n args) visited =
      if .named m n args ∈ visited then .ok (none, visited)
      else h.memberFrom name bound t (.named m n args :: visited) := by
  have passage : h.passage? (.named m n args) = some (.ok t) := by
    rw [← unfolds]
    rfl
  exact Heap.memberFrom_of_passage passage

lemma memberFrom_of_result (known : h.result? k = some t) :
    h.memberFrom name (bound + 1) (.deferred ⟨none, k⟩ target bindings) visited =
      if .deferred ⟨none, k⟩ target bindings ∈ visited then .ok (none, visited)
      else h.memberFrom name bound t (.deferred ⟨none, k⟩ target bindings :: visited) := by
  have passage : h.passage? (.deferred ⟨none, k⟩ target bindings) = some (.ok t) := by
    simp [Heap.passage?, Heap.reveal, known]
  exact Heap.memberFrom_of_passage passage

lemma memberFrom_of_unknown (unknown : h.result? k = none) :
    h.memberFrom name (bound + 1) (.deferred ⟨none, k⟩ target bindings) visited =
      if .deferred ⟨none, k⟩ target bindings ∈ visited then .ok (none, visited)
      else .error (.demand (.deferred ⟨none, k⟩ target bindings)) := by
  have passage : h.passage? (.deferred ⟨none, k⟩ target bindings) =
      some (.error (.demand (.deferred ⟨none, k⟩ target bindings))) := by
    simp [Heap.passage?, Heap.reveal, unknown]
  exact Heap.memberFrom_of_passage passage

lemma memberFrom_delegation {base : TypeExpr} {targets : List TypeExpr} :
    h.memberFrom name (bound + 1) (.delegation m base targets) visited =
      firstHit (h.memberFrom name bound) (base :: targets) visited := rfl

lemma memberFrom_record {fields : List (Field TypeExpr)} :
    h.memberFrom name (bound + 1) (.record m fields) visited =
      .ok (Field.find? fields name, visited) := rfl

/-! A search for a member that is nowhere comes to all targets, to one after the other. -/

lemma demands_targetQ (circuit : Circuit h) (q : h.result? 9 = none) (bound : Nat) :
    h.member? (bound + 20) bodyQ "y" = .error (.demand targetQ) := by
  have p := circuit.p
  rw [loopP] at p
  simp [Heap.member?, bodyQ, memberFrom_delegation, firstHit, loopP, memberFrom_of_unfold p, bodyP,
    baseP, memberFrom_record, targetQ, memberFrom_of_unknown q, Field.find?, bind, Except.bind]

lemma demands_targetO (circuit : Circuit h) (q : h.result? 9 = some loopQ)
    (o : h.result? 12 = none) (bound : Nat) :
    h.member? (bound + 20) bodyQ "y" = .error (.demand targetO) := by
  obtain ⟨-, -, unfoldP, unfoldQ⟩ := circuit
  rw [loopP] at unfoldP
  rw [loopQ] at unfoldQ q
  simp [Heap.member?, bodyQ, memberFrom_delegation, firstHit, loopP, memberFrom_of_unfold unfoldP,
    memberFrom_of_unfold unfoldQ, bodyP, baseP, memberFrom_record, targetQ, targetO,
    memberFrom_of_unknown o, memberFrom_of_result q, Field.find?, bind, Except.bind]

lemma demands_targetZ (circuit : Circuit h) (q : h.result? 9 = some loopQ)
    (o : h.result? 12 = some loopO) (z : h.result? 10 = none) (bound : Nat) :
    h.member? (bound + 20) bodyQ "y" = .error (.demand targetZ) := by
  obtain ⟨unfoldO, -, unfoldP, unfoldQ⟩ := circuit
  rw [loopP] at unfoldP
  rw [loopQ] at unfoldQ q
  rw [loopO] at unfoldO o
  simp [Heap.member?, bodyQ, memberFrom_delegation, firstHit, loopP, memberFrom_of_unfold unfoldP,
    memberFrom_of_unfold unfoldQ, memberFrom_of_unfold unfoldO, bodyP, baseP, recordO,
    memberFrom_record, targetQ, targetO, targetZ, memberFrom_of_unknown z, memberFrom_of_result q,
    memberFrom_of_result o, Field.find?, bind, Except.bind]

lemma finds_loop (circuit : Circuit h) (q : h.result? 9 = some loopQ)
    (o : h.result? 12 = some loopO) (z : h.result? 10 = some loopZ) (bound : Nat) :
    h.member? (bound + 20) bodyQ "y" = .ok none ∧
      h.member? (bound + 20) bodyQ "k" = .ok (some zero) := by
  obtain ⟨unfoldO, unfoldZ, unfoldP, unfoldQ⟩ := circuit
  rw [loopP] at unfoldP
  rw [loopQ] at unfoldQ q
  rw [loopO] at unfoldO o
  rw [loopZ] at unfoldZ z
  constructor
  all_goals
    simp [Heap.member?, bodyQ, memberFrom_delegation, firstHit, loopP, memberFrom_of_unfold unfoldP,
      memberFrom_of_unfold unfoldQ, memberFrom_of_unfold unfoldO, memberFrom_of_unfold unfoldZ,
      bodyP, baseP, recordO, recordZ, memberFrom_record, targetQ, targetO, targetZ,
      memberFrom_of_result q, memberFrom_of_result o, memberFrom_of_result z, Field.find?, bind,
      Except.bind, pure, Except.pure]

end Circuit

/-- Results of targets do not matter to what named types stand for. -/
lemma circuit_looped (results : Std.HashMap Nat TypeExpr) :
    Circuit ⟨loopedHeap.bodies, results⟩ := by
  constructor
  all_goals
    simp [loopedHeap, loopO, loopZ, loopP, loopQ, recordO, recordZ, bodyP, bodyQ, Heap.unfold,
      Heap.unfoldFrom, Heap.body?, Heap.setBody, Heap.empty, Std.HashMap.size_insert,
      Std.HashMap.getElem_insert]

lemma looped_spec : looped.held = [bodyQ] ∧ looped.session.store.heap = loopedHeap ∧
    Remembered looped.session 9 "q" loopQ ∧ Remembered looped.session 12 "o" loopO ∧
      Remembered looped.session 10 "z" loopZ := by
  obtain ⟨e, run, pending, expanded, heap, suspendQ, suspendZ, suspendO, resolverQ, resolverZ,
    resolverO⟩ := outcome_looped
  have productive : e.store.heap.checkProductive e.resolver.expanded = .ok () := by
    rw [heap, expanded]
    simp [loopedHeap, loopO, loopZ, loopP, loopQ, recordO, recordZ, baseP, bodyP, bodyQ,
      Heap.checkProductive, Heap.walk, Heap.walkWith, Heap.body?, Heap.setBody, Heap.empty,
      Std.HashMap.size_insert, Std.HashMap.getElem_insert, bind, Except.bind, pure, Except.pure]
  have next : unlooped.session.store.nextStamp = 1 := by rfl
  have none : unlooped.session.registry.memo = [] := by rfl
  rw [looped, resolvedAnew_eq run pending productive, next, heap, (circuit_looped _).q]
  have memo : (unlooped.session.registry.memoize e.resolver.expanded).memo =
      [loopQ, loopP, loopO, loopZ] := by
    rw [expanded]
    simp [Registry.memoize, none, Registry.remember, loopQ, loopP, loopO, loopZ, same]
  have resolver {key : Nat} (hkey : key ≠ 1) (h : e.store.resolvers[key]? = some (.ofBudget 4 4)) :
      ∃ steps depth, (remembering (withResolver unlooped.session 4 4) 1 e).store.resolvers[key]? =
        some (.ofBudget steps (depth + 1)) := by
    refine ⟨4, 3, ?_⟩
    rw [remembering, Store.getElem?_setResolver, if_neg hkey, Store.getElem?_setResolver,
      if_neg hkey, h]
  refine ⟨rfl, heap, ⟨⟨_, suspendQ⟩, resolver (by decide) resolverQ, circuit[3], rfl, rfl, ?_⟩,
    ⟨⟨_, suspendO⟩, resolver (by decide) resolverO, circuit[0], rfl, rfl, ?_⟩,
    ⟨⟨_, suspendZ⟩, resolver (by decide) resolverZ, circuit[1], rfl, rfl, ?_⟩⟩
  all_goals
    show List.find? _ (unlooped.session.registry.memoize e.resolver.expanded).memo = _
    rw [memo]
    simp [circuit, loopQ, loopP, loopO, loopZ, same, sameAll]

/-- The heap after all targets have been resolved. -/
def closedHeap : Heap :=
  ((loopedHeap.setResult 9 loopQ).setResult 12 loopO).setResult 10 loopZ

lemma finds_closedHeap (bound : Nat) :
    closedHeap.member? (bound + 20) bodyQ "y" = .ok none ∧
      closedHeap.member? (bound + 20) bodyQ "k" = .ok (some zero) := by
  refine finds_loop (circuit_looped _) ?_ ?_ ?_ bound
  all_goals simp [Heap.result?, Heap.setResult, Std.HashMap.getElem_insert]

lemma outcome_member_looped : ∃ s,
    outcome (member? bodyQ "y") looped.session = (.ok none, s) ∧ s.store.heap = closedHeap := by
  obtain ⟨-, heap, q, o, z⟩ := looped_spec
  have unknown {k : Nat} : looped.session.store.heap.result? k = none := by
    rw [heap]
    simp [Heap.result?, loopedHeap, Heap.setBody, Heap.empty]
  obtain ⟨s₁, forceQ, atQ⟩ := q.answered unknown (called "q") []
  obtain ⟨s₂, forceO, atO⟩ := (atQ.remembered (by decide) o).answered
    (atQ.unknown (by decide) unknown) (called "o") []
  obtain ⟨s₃, forceZ, atZ⟩ := (atO.remembered (by decide) (atQ.remembered (by decide) z)).answered
    (atO.unknown (by decide) (atQ.unknown (by decide) unknown)) (called "z") []
  obtain ⟨bound, hbound⟩ : ∃ bound, depthBound = bound + 20 := ⟨19980, rfl⟩
  have heapQ : s₁.store.heap = loopedHeap.setResult 9 loopQ := heap ▸ atQ.heap
  have heapO : s₂.store.heap = (loopedHeap.setResult 9 loopQ).setResult 12 loopO := heapQ ▸ atO.heap
  have heapZ : s₃.store.heap = closedHeap := by
    rw [atZ.heap, heapO]
    rfl
  have demandQ : looped.session.store.heap.member? (bound + 20) bodyQ "y" =
      .error (.demand targetQ) := by
    refine demands_targetQ ?_ unknown bound
    rw [heap]
    exact circuit_looped _
  have demandO : s₁.store.heap.member? (bound + 20) bodyQ "y" = .error (.demand targetO) := by
    refine demands_targetO ?_ ?_ (atQ.unknown (by decide) unknown) bound
    · rw [heapQ]
      exact circuit_looped _
    · rw [heapQ]
      simp [Heap.result?, Heap.setResult]
  have demandZ : s₂.store.heap.member? (bound + 20) bodyQ "y" = .error (.demand targetZ) := by
    refine demands_targetZ ?_ ?_ ?_
      (atO.unknown (by decide) (atQ.unknown (by decide) unknown)) bound
    · rw [heapO]
      exact circuit_looped _
    · rw [heapO]
      simp [Heap.result?, Heap.setResult, Std.HashMap.getElem_insert]
    · rw [heapO]
      simp [Heap.result?, Heap.setResult]
  refine ⟨s₃, ?_, heapZ⟩
  rw [member?, ask, hbound, outcome_askWith_of_demand demandQ forceQ,
    outcome_askWith_of_demand demandO forceO, outcome_askWith_of_demand demandZ forceZ,
    outcome_askWith, heapZ, (finds_closedHeap bound).1]

/-- A client that has looked for a member that is nowhere. -/
def closed : Client :=
  looped.after (.ask (.member bodyQ "y"))

lemma closed_spec : closed.session.store.heap = closedHeap ∧ bodyQ ∈ closed.held := by
  obtain ⟨s, out, heap⟩ := outcome_member_looped
  obtain ⟨held, -⟩ := looped_spec
  simp only [closed, after, Call.action, Question.action, outcome_bind, out, outcome_pure]
  exact ⟨heap, by simp [held]⟩

lemma resolvedOver_bodyQ {c : Client} (held : bodyQ ∈ c.held) : bodyQ.ResolvedOver c.nodes := by
  have name : c.nodes loopP := ⟨bodyQ, held, by simp [bodyQ, loopP, subterms]⟩
  have target : c.nodes targetO :=
    ⟨bodyQ, held, by simp [bodyQ, targetO, subterms, subtermsOfAll]⟩
  refine throughout_iff.2 ⟨trivial, ?_⟩
  simpa [parts, bodyQ] using
    ⟨resolvedOver_named.2 ⟨name, by simp⟩, resolvedOver_deferred.2 target⟩

lemma writes_closed : closed.Writes := by
  have call (name : String) : (called name).Written := written_name name
  have written : ∀ d ∈ circuit, d.body.Written := by
    have record (fields : List (Field TypeExpr)) (h : ∀ f ∈ fields, f.type.Written) :
        Written (.record (.written none) fields) :=
      throughout_iff.2 ⟨trivial, by simpa [parts] using h⟩
    have delegation (base : TypeExpr) (targets : List TypeExpr)
      (h : ∀ t ∈ base :: targets, t.Written) :
        Written (.delegation (.written none) base targets) :=
      throughout_iff.2 ⟨trivial, by simpa [parts] using h⟩
    have number : zero.Written := throughout_number (fun _ => trivial) _
    simp [circuit, record, delegation, call, written_unit, number]
  have declared : unlooped.Writes :=
    .call (.start List.mem_cons_self) (fun d hd => (written d hd).over) written
  have can : looped.CanMake (.ask (.member bodyQ "y")) :=
    List.forall_mem_singleton.2 (resolvedOver_bodyQ (by simp [looped_spec.1]))
  exact (declared.resolvedAnew (call "q")).call can trivial

/-- All that the last of the types leads to, in depth-first order. -/
def loopOrder : List TypeExpr :=
  [bodyQ, loopP, bodyP, baseP, targetQ, loopQ, targetZ, loopZ, recordZ, targetO, loopO, recordO]

lemma depthFirst_loop : DepthFirst closedHeap.ahead [bodyQ] [] loopOrder := by
  have body {m : Mark} {name : String} {body : TypeExpr}
    (h : closedHeap.body? m.stamp = some body) :
      closedHeap.ahead (.named m name []) = [body] := by simp [Heap.ahead, h]
  have result {m : Mark} {target u : TypeExpr} (h : closedHeap.result? m.stamp = some u) :
      closedHeap.ahead (.deferred m target []) = [u] := by simp [Heap.ahead, h]
  have visit {t : TypeExpr} (us : List TypeExpr) {rest seen order : List TypeExpr}
    (hahead : closedHeap.ahead t = us)
      (new : t ∉ seen) (tail : DepthFirst closedHeap.ahead (us ++ rest) (t :: seen) order) :
      DepthFirst closedHeap.ahead (t :: rest) seen (t :: order) := .visit new (by rwa [hahead])
  have o : closedHeap.ahead loopO = [recordO] := body (by
    simp [closedHeap, Heap.body?, Heap.setResult, loopedHeap, Heap.setBody,
      Std.HashMap.getElem_insert])
  have z : closedHeap.ahead loopZ = [recordZ] := body (by
    simp [closedHeap, Heap.body?, Heap.setResult, loopedHeap, Heap.setBody,
      Std.HashMap.getElem_insert])
  have p : closedHeap.ahead loopP = [bodyP] := body (by
    simp [closedHeap, Heap.body?, Heap.setResult, loopedHeap, Heap.setBody,
      Std.HashMap.getElem_insert])
  have q : closedHeap.ahead loopQ = [bodyQ] := body (by
    simp [closedHeap, Heap.body?, Heap.setResult, loopedHeap, Heap.setBody])
  have toO : closedHeap.ahead targetO = [loopO] := result (by
    simp [closedHeap, Heap.result?, Heap.setResult, Std.HashMap.getElem_insert])
  have toZ : closedHeap.ahead targetZ = [loopZ] := result (by
    simp [closedHeap, Heap.result?, Heap.setResult])
  have toQ : closedHeap.ahead targetQ = [loopQ] := result (by
    simp [closedHeap, Heap.result?, Heap.setResult, Std.HashMap.getElem_insert])
  refine visit [loopP, targetO] rfl ?_ <| visit _ p ?_ <| visit [baseP, targetQ, targetZ] rfl ?_ <|
    visit [] rfl ?_ <| visit _ toQ ?_ <| visit _ q ?_ <| .again ?_ <| visit _ toZ ?_ <|
    visit _ z ?_ <| visit [] rfl ?_ <| visit _ toO ?_ <| visit _ o ?_ <| visit [] rfl ?_ .done
  all_goals
    simp [bodyQ, loopP, bodyP, baseP, targetQ, loopQ, targetZ, loopZ, recordZ, targetO,
      loopO, recordO]

/-- The member is not always that of the first record in depth-first order, even if all targets have
been resolved: here that of a target is found before that of the base. -/
theorem not_first_member_loop : closed.Writes ∧ bodyQ.ResolvedOver closed.nodes ∧
    closed.session.store.heap.Forced bodyQ ∧
    (∃ s, outcome (member? bodyQ "k") closed.session = (.ok (some zero), s)) ∧
    ∃ order, DepthFirst closed.session.store.heap.ahead [bodyQ] [] order ∧
      order.findSome? (·.fieldAt? "k") = some (.unit (.written none)) := by
  obtain ⟨heap, held⟩ := closed_spec
  obtain ⟨bound, hbound⟩ : ∃ bound, depthBound = bound + 20 := ⟨19980, rfl⟩
  refine ⟨writes_closed, resolvedOver_bodyQ held, ?_, ⟨closed.session, ?_⟩, loopOrder, ?_, ?_⟩
  · obtain ⟨order, first, -, mem⟩ := closedHeap.exists_depthFirst bodyQ
    rw [first.unique depthFirst_loop] at mem
    rw [heap]
    intro m target bindings h
    have among := (mem _).2 h
    simp [loopOrder, bodyQ, loopP, bodyP, baseP, targetQ, loopQ, targetZ, loopZ, recordZ, targetO,
      loopO, recordO] at among
    rcases among with ⟨rfl, -⟩ | ⟨rfl, -⟩ | ⟨rfl, -⟩
    all_goals simp [closedHeap, Heap.result?, Heap.setResult]
  · rw [member?, ask, hbound, outcome_askWith, heap, (finds_closedHeap bound).2]
  · rw [heap]
    exact depthFirst_loop
  · rfl

end Client

end TypeNotation
