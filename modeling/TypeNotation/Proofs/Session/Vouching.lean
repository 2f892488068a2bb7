import TypeNotation.Proofs.Session.NormalForm

/-!
# Checked conditions

When a resolution succeeds, the conditions that came up in it have been checked, and only then are
its expansions remembered.  So whatever a client is given, each predicate that was met while some
node in it was expanded has been found to hold of the types that its variables were bound to, be the
node new or remembered.

There is one exception.  To check a condition a suspended target may have to be resolved, by a
session of its own.  When that one succeeds its expansions are remembered at once, and they may
refer to nodes of the resolution that demanded it; if a check fails afterwards, nobody takes them
back.  So nobody vouches for the nodes that were made in a call that failed.  These nodes are called
*lost*.
-/

namespace TypeNotation

open TypeExpr

namespace Session

/-- A condition on a closed type has been checked: on an earlier state of the store, where
everything that it is about was complete, the type was found to be a subtype of the constraint. -/
def Upholds (s : Session) (binding constraint : TypeExpr) : Prop :=
  binding.isClosed → ∃ (before : Store) (K : Nodes), before.Precedes s.store ∧
    (∀ m name args, K (.named m name args) → (before.heap.body? m.stamp).isSome) ∧
    before.Passes s.registry K binding constraint

end Session

/-- Where all settled nodes have bodies they had them when a condition was checked. -/
lemma Stage.Upholds.session {st : Stage} (whole : st.Whole) {binding constraint : TypeExpr}
    (h : st.Upholds binding constraint) : st.session.Upholds binding constraint := by
  intro closed
  obtain ⟨before, K, precedes, settled, passes⟩ := h closed
  refine ⟨before, K, precedes, fun m name args hn => ?_, passes⟩
  have placed : m.stamp < before.nextStamp := (passes.wired.placed hn).2
  rw [← precedes.bodies placed]
  exact whole m name args (settled _ hn)

namespace Client

variable {c : Client} {st : Stage} {lost : Nat → Prop}

/-- The clients none of whose calls has broken off, with the stamps that were given out by calls
that failed. -/
inductive Recorded : Client → (Nat → Prop) → Prop
  | start {registry : Registry} (h : registry ∈ [.empty, .withPrelude]) :
    Recorded (start registry) fun _ => False
  | success {c : Client} {lost : Nat → Prop} {call : Call} (h : Recorded c lost)
    (can : c.CanMake call) (ok : (outcome call.action c.session).1.isOk) :
    Recorded (c.after call) lost
  | failure {c : Client} {lost : Nat → Prop} {call : Call} {fault : Fault} (h : Recorded c lost)
    (can : c.CanMake call) (failed : (outcome call.action c.session).1 = .error fault)
    (regular : fault.isRegular) :
    Recorded (c.after call) fun n => lost n ∨
      c.session.store.nextStamp ≤ n ∧ n < (c.after call).session.store.nextStamp

/-- All named nodes that are settled are vouched for, or lost. -/
def Vouches (st : Stage) (lost : Nat → Prop) : Prop :=
  ∀ {m name args}, st.settled (.named m name args) → ¬ lost m.stamp → st.Vouched name args

/-- A call that succeeds vouches for everything that it has settled. -/
lemma Vouches.success {st' : Stage} (vouches : Vouches st lost) (sound : st.Sound)
    (swept : st.Swept) (later : st.Later st') (kept : st.Kept st') : Vouches st' lost := by
  intro m name args hn kept'
  by_cases old : st.settled (.named m name args)
  · obtain ⟨d, hd, -⟩ := sound.wired.declared old
    exact (vouches old kept').later later hd
  · exact kept.vouched swept hn old

/-- What a call that fails has settled is lost. -/
lemma Vouches.failure {st' : Stage} (vouches : Vouches st lost) (sound : st.Sound)
    (sound' : st'.Sound) (swept : st.Swept) (later : st.Later st') :
    Vouches st' fun n => lost n ∨ st.store.nextStamp ≤ n ∧ n < st'.store.nextStamp := by
  intro m name args hn found
  obtain ⟨unlost, older⟩ := not_or.1 found
  rcases later.settled_or swept hn with old | new
  · obtain ⟨d, hd, -⟩ := sound.wired.declared old
    exact (vouches old unlost).later later hd
  · exact absurd ⟨new, (sound'.wired.placed hn).2⟩ older

/-- Whatever a client has done, as long as no call has broken off, all settled nodes are vouched for
or lost. -/
lemma Recorded.vouches (h : c.Recorded lost) :
    ∃ st, c.Finished st ∧ st.Swept ∧ Vouches st lost := by
  induction h with
  | start h =>
    obtain ⟨st, fin, swept, nothing⟩ := finished_start h
    exact ⟨st, fin, swept, fun hn => absurd hn (nothing _)⟩
  | @success c lost call _ can ok ih =>
    obtain ⟨st, fin, swept, vouches⟩ := ih
    obtain ⟨st', fin', later, swept', kept⟩ := fin.after can fun fault failed => by
      rw [failed] at ok
      cases ok
    exact ⟨st', fin', swept' swept, vouches.success fin.sound swept later (kept ok)⟩
  | @failure c lost call fault _ can failed regular ih =>
    obtain ⟨st, fin, swept, vouches⟩ := ih
    obtain ⟨st', fin', later, swept', -⟩ := fin.after can fun fault' failed' => by
      rw [failed] at failed'
      cases failed'
      exact regular
    refine ⟨st', fin', swept' swept, ?_⟩
    rw [← fin.session, ← fin'.session]
    exact vouches.failure fin.sound fin'.sound swept later

/-- Every predicate that was met while a named type that a client can reach was expanded has been
checked, unless the node was made in a call that failed; and when a type is resolved with success,
the predicates in it have been checked as well.  A variable that was bound to a type with variables
is left to later. -/
theorem upheld_of_recorded (h : c.Recorded lost) :
    (∀ t ∈ c.held, ∀ m name args, c.session.store.heap.Leads t (.named m name args) →
      ¬ lost m.stamp → ∃ d, c.session.registry.lookup name = some d ∧
        d.body.Discharged c.session.Upholds (d.binding args) (some name)) ∧
    ∀ key t bindings u s, c.CanMake (.resolve key t bindings) →
      outcome (Action.resolveWith key t bindings) c.session = (.ok u, s) →
        ∃ env : Env, List.Forall₂ (fun b f => f.name = b.name ∧
            f.type.same (b.type.instantiate [] none) = true) bindings env ∧
          t.Discharged s.Upholds env none := by
  obtain ⟨st, fin, -, vouches⟩ := h.vouches
  constructor
  · intro t ht m name args leads kept
    rw [← fin.session] at leads ⊢
    have node := (resolvedOver_named.1 (fin.sound.leads (fin.held t ht) leads)).1
    obtain ⟨d, hd, -⟩ := fin.sound.wired.declared node
    exact ⟨d, hd, (vouches node kept d hd).mono fun _ _ upheld => upheld.session fin.whole⟩
  · intro key t bindings u s can ok
    have acts := Action.acts_resolveWith (fin.placed key can.1) (fun aside => fin.free key aside.1)
      (over_settled fin.held can.2.1) fun b hb => over_settled fin.held (can.2.2 b hb)
    obtain ⟨settled, shelf, -, -, neat, -, post⟩ := acts fin.sound
    obtain ⟨whole, -⟩ := neat fin.whole fin.tidy
    rw [fin.session, ok] at whole post
    obtain ⟨-, -, w, -, env, henv, -, -, discharged⟩ := post u rfl
    refine ⟨env, henv.imp fun b f hf => ⟨hf.1, hf.2.2⟩, ?_⟩
    exact discharged.mono fun _ _ upheld => upheld.session whole

/-! ### A condition that holds -/

/-- A predicate on a variable, which must stand for something below `void`. -/
def guard : TypeExpr :=
  .predicate (.written none) (.unit (.written none)) (.typeVariable (.written none) ⟨"A", none⟩)
    [⟨none, ⟨"A", none⟩⟩]

/-- A name for it. -/
def guarded : Declaration :=
  ⟨"p", [⟨none, ⟨"A", none⟩⟩], guard, none⟩

/-- A client that has declared it, and has made a resolver. -/
def guarding : Client :=
  ((start .empty).after (.declare guarded)).after (.newResolver 1 1)

/-- A list that uses the name for a variable, and the predicate itself. -/
def guardedList : TypeExpr :=
  .list (.written none)
    [.reference (.written none) "p" [.typeVariable (.written none) ⟨"A", none⟩], guard]

/-- The client resolves the list with the variable bound to `void`. -/
def guardedCall : Call :=
  .resolve 1 guardedList [⟨"A", .unit (.written none)⟩]

/-- The node that has been made for the name. -/
def guardedName : TypeExpr :=
  .named ⟨none, 2⟩ "p" [.unit (.written none)]

/-- What the client is given. -/
def vouchedList : TypeExpr :=
  .list ⟨none, 3⟩ [guardedName, .unit (.written none)]

lemma outcome_guarded : ∃ e : Expanding,
    outcome (do
      let env ← [(⟨"A", .unit (.written none)⟩ : Field TypeExpr)].mapM fun b =>
        return (⟨b.name, ← Expansion.expand guarding.session.registry [] none b.type⟩ :
          Field TypeExpr)
      Expansion.expand guarding.session.registry env none guardedList)
      ⟨guarding.session.store, .ofBudget 1 1⟩ = (.ok vouchedList, e) ∧
    (∀ c ∈ e.resolver.pending,
      c.binding = .unit (.written none) ∧ c.constraint = .unit (.written none)) ∧
    e.resolver.expanded = [guardedName] ∧
    e.store.heap = Heap.empty.setBody 2 (.unit (.written none)) := by
  have lookup : guarding.session.registry.lookup "p" = some guarded := by rfl
  have memo : guarding.session.registry.memoized
      (.named ⟨none, 0⟩ "p" [.unit ⟨none, 0⟩]) = none := by rfl
  have next : guarding.session.store.nextStamp = 2 := by rfl
  have heap : guarding.session.store.heap = .empty := by rfl
  simp [Expansion.expand, outcome_bind, Resolver.ofBudget, Expansion.expandAt, Expansion.expandIn,
    Expansion.declarationOf, lookup, Expansion.expandAll, guarded, guardedList, guard,
    Declaration.arity, Expansion.outcome_reference, Expansion.known?, memo, Expansion.enter,
    Mark.written, Expansion.remark, Except.map, listOf, withoutRepeats, next, heap, guardedName,
    vouchedList, Expansion.predicate, quantified, Expansion.binding?, Expansion.typeVariable,
    Field.find?, Declaration.binding, Declaration.letters, same]

lemma isSubtype_unit (heap : Heap) (m m' : Mark) :
    (Matcher.mk heap true).isSubtype Action.depthBound (.unit m) (.unit m') = .ok true := by
  have bound : Action.depthBound = 19999 + 1 := rfl
  rw [bound, Matcher.isSubtype, Matcher.subtype]
  simp [isReferring, same]

lemma ok_guarded : ∃ s : Session,
    outcome (Action.resolveWith 1 guardedList [⟨"A", .unit (.written none)⟩]) guarding.session =
      (.ok vouchedList, s) ∧ s.registry.lookup "p" = some guarded := by
  obtain ⟨e, run, pending, expanded, heap⟩ := outcome_guarded
  have resolver : (guarding.session.store.resolver 1).restart = .ofBudget 1 1 := by
    have session : guarding.session =
        Action.withResolver ⟨⟨Registry.builtins ++ [guarded], []⟩, .empty⟩ 1 1 := by rfl
    simp [session, Action.withResolver, Store.resolver, Store.setResolver, Store.empty,
      Resolver.restart, Resolver.ofBudget]
  have productive : e.store.heap.checkProductive e.resolver.expanded = .ok () := by
    rw [heap, expanded]
    simp [guardedName, Heap.checkProductive, Heap.walk, Heap.walkWith, Heap.body?, Heap.setBody,
      Heap.empty, Std.HashMap.size_insert]
  refine ⟨_, Action.outcome_resolveWith_of_hold (resolver ▸ run) (fun c hc => ?_) productive, rfl⟩
  rw [(pending c hc).1, (pending c hc).2]
  exact isSubtype_unit _ _ _

lemma written_guard : guard.Written :=
  throughout_iff.2 ⟨trivial, by
    simp only [guard, parts, List.forall_mem_cons]
    exact ⟨written_unit, written_variable "A", by simp⟩⟩

lemma recorded_guarding : guarding.Recorded fun _ => False := by
  refine .success (.success (.start List.mem_cons_self) written_guard.over ?_) trivial ?_
  · rfl
  · rfl

lemma canMake_guarding : guarding.CanMake guardedCall := by
  have name : Written (.reference (.written none) "p"
      [.typeVariable (.written none) ⟨"A", none⟩]) :=
    throughout_iff.2 ⟨trivial, List.forall_mem_singleton.2 (written_variable "A")⟩
  have list : guardedList.Written := throughout_iff.2 ⟨trivial, by
    simp only [guardedList, parts, List.forall_mem_cons]
    exact ⟨name, written_guard, by simp⟩⟩
  exact ⟨by decide, list.over, by simpa using written_unit.over⟩

/-- A client that has resolved the list can rely on the conditions of both, the name and the
predicate. -/
theorem upheld_vouched :
    (∃ c, (guarding.after guardedCall).session.Upholds (.unit (.written none)) c ∧
      c.same (.unit (.written none)) = true) ∧
    ∃ a c, (guarding.after guardedCall).session.Upholds a c ∧
      a.same (.unit (.written none)) = true ∧ c.same (.unit (.written none)) = true := by
  obtain ⟨s, ok, lookup⟩ := ok_guarded
  have after : guarding.after guardedCall =
    ⟨s, guarding.resolvers, guarding.held ++ [vouchedList]⟩ := by
    simp only [guardedCall, Client.after, Call.action, outcome_bind, ok, outcome_pure,
      List.append_nil]
  have success : (outcome guardedCall.action guarding.session).1.isOk := by
    simp only [guardedCall, Call.action, outcome_bind, ok]
    rfl
  have recorded := recorded_guarding.success canMake_guarding success
  have owes (env : Env) (a : TypeExpr) (ha : Field.find? env "A" = some a) :
      Owes env guard a (.unit (.written none)) :=
    .bound (List.mem_singleton_self _) ha
  rw [after] at recorded ⊢
  constructor
  -- what the body of the name owes
  · have held : vouchedList ∈ guarding.held ++ [vouchedList] := by simp
    have leads : s.store.heap.Leads vouchedList guardedName := .part .refl List.mem_cons_self
    obtain ⟨d, hd, discharged⟩ := (upheld_of_recorded recorded).1 _ held _ _ _ leads id
    obtain rfl : guarded = d := Option.some.inj (lookup.symm.trans hd)
    obtain ⟨c, same, upheld⟩ := discharged _ _ (owes _ _ rfl)
    exact ⟨c, upheld, same⟩
  -- what the list itself owes
  · obtain ⟨env, henv, discharged⟩ :=
      (upheld_of_recorded recorded_guarding).2 _ _ _ _ _ canMake_guarding ok
    obtain ⟨f, rfl, hname, hsame⟩ : ∃ f, env = [f] ∧ f.name = "A" ∧
        f.type.same (.unit (.written none)) = true := by
      cases henv with
      | cons hf rest =>
        cases rest
        exact ⟨_, rfl, hf⟩
    have bound : Field.find? [f] "A" = some f.type := by simp [Field.find?, hname]
    obtain ⟨c, same, upheld⟩ := discharged _ _
      (.part (List.mem_cons_of_mem _ List.mem_cons_self) (owes _ _ bound))
    exact ⟨f.type, c, upheld, hsame, same⟩

end Client

end TypeNotation
