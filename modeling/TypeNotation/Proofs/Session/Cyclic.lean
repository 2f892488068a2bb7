import TypeNotation.Proofs.Resolution.Budget
import TypeNotation.Proofs.Session.NormalForm

/-!
# Which resolutions are refused as cyclic

Right after an expansion, the table of its resolver is checked for productivity.  So a resolution is
refused as cyclic if a cycle goes through anything that the expansion has to do with, and reports
such a cycle.  Otherwise it can only be refused as cyclic while conditions are checked, since they
may demand suspended targets, which are resolved in the same way.

A resolver that broke off with an overflow keeps its table.  When it is used again, the nodes that
it has left there are checked again, and a cycle among them is reported of a type that has nothing
to do with it.  As long as no call has broken off, the types on a cycle were all made by the call
that reports it.
-/

namespace TypeNotation

open TypeExpr Expansion

/-- What an expansion to a type has to do with: all that the type or a node in the table of the
resolver leads to. -/
def Expanding.Reaches (e : Expanding) (u n : TypeExpr) : Prop :=
  ∃ v ∈ u :: e.resolver.expanded, e.store.heap.Leads v n

namespace Action

variable {α : Type} {s : Session} {key : Nat} {t u : TypeExpr} {bindings : List (Field TypeExpr)}
  {e : Expanding}

/-- A step is refused because a type is cyclic, with some names. -/
def FindsCyclic (x : Action α) (s : Session) (names : List String) : Prop :=
  ∃ position, (outcome x s).1 = .error (.resolution (.cyclic names position))

/-- The session in which the conditions are checked that an expansion has noted. -/
def checking (s : Session) (key : Nat) (e : Expanding) : Session :=
  ⟨s.registry, (e.store.setResolver key e.resolver).setResolver key
    { e.resolver with pending := [] }⟩

/-- Once its expansion is complete, what comes of a resolution depends on the check for
productivity, and then on the conditions. -/
lemma outcome_resolveWith_of_run
    (run : outcome (phase s.registry t bindings) ⟨s.store, (s.store.resolver key).restart⟩ =
      (.ok u, e)) :
    (outcome (resolveWith key t bindings) s).1 =
      match e.store.heap.checkProductive e.resolver.expanded with
      | .error error => .error (.resolution error)
      | .ok () =>
        match outcome (e.resolver.pending.forM (checkCondition force)) (checking s key e) with
        | (.error fault, s') => .error ((s'.store.resolver key).report fault)
        | (.ok (), s') => .ok (s'.store.heap.unfold u) := by
  simp only [resolveWith_eq_phase, outcome_bind, outcome_get, outcome_resolving,
    outcome_runExpansion, run, conclude, Store.resolver_setResolver, Store.heap_setResolver]
  cases e.store.heap.checkProductive e.resolver.expanded with
  | error error => simp only [outcome_throw, Resolver.report]
  | ok =>
    simp only [outcome_bind, outcome_modifyResolver, Store.resolver_setResolver, checking]
    rcases outcome (e.resolver.pending.forM (checkCondition force)) _ with ⟨fault | _, s'⟩
    · rfl
    · rfl

/-- Once its expansion is complete, a resolution is refused as cyclic by the check, or by a
condition.
-/
lemma findsCyclic_iff_of_run {names : List String}
    (run : outcome (phase s.registry t bindings) ⟨s.store, (s.store.resolver key).restart⟩ =
      (.ok u, e)) :
    FindsCyclic (resolveWith key t bindings) s names ↔
      (∃ position, e.store.heap.checkProductive e.resolver.expanded =
        .error (.cyclic names position)) ∨
        e.store.heap.checkProductive e.resolver.expanded = .ok () ∧
          FindsCyclic (e.resolver.pending.forM (checkCondition force))
            (checking s key e) names := by
  simp only [FindsCyclic, outcome_resolveWith_of_run run]
  cases e.store.heap.checkProductive e.resolver.expanded with
  | error error => simp
  | ok =>
    rcases outcome (e.resolver.pending.forM (checkCondition force)) (checking s key e) with
      ⟨fault | _, s'⟩
    · have reported {position : Option Position} :
          (s'.store.resolver key).report fault = .resolution (.cyclic names position) ↔
            fault = .resolution (.cyclic names position) :=
        ⟨eq_cyclic_of_report, fun h => by rw [h]; rfl⟩
      simp [reported]
    · simp

/-! ### Conditions -/

section Conditions

variable {β : Type} {names : List String} {force : TypeExpr → Action TypeExpr}

lemma FindsCyclic.of_bind {x : Action α} {f : α → Action β}
    (found : FindsCyclic (x >>= f) s names) :
    FindsCyclic x s names ∨ ∃ a s', FindsCyclic (f a) s' names := by
  obtain ⟨position, found⟩ := found
  rw [outcome_bind] at found
  rcases hx : outcome x s with ⟨fault | a, s'⟩ <;> rw [hx] at found
  · cases found
    exact .inl ⟨position, by rw [hx]⟩
  · exact .inr ⟨a, s', position, found⟩

lemma not_findsCyclic_pure (a : α) : ¬ FindsCyclic (pure a) s names := by
  rintro ⟨position, ⟨⟩⟩

lemma not_findsCyclic_throw {fault : Fault} (acyclic : ¬ fault.IsCyclic) :
    ¬ FindsCyclic (throw fault : Action α) s names := fun ⟨_, found⟩ =>
  Fault.ne_cyclic acyclic (Except.error.inj found)

/-- A question is refused as cyclic only by the resolution of a suspended target that it demands. -/
lemma FindsCyclic.force_of_askWith {question : Heap → Query α} {bound : Nat}
    (found : FindsCyclic (askWith force question bound) s names) :
    ∃ node s', FindsCyclic (force node) s' names := by
  induction bound generalizing s with
  | zero => exact absurd found (not_findsCyclic_throw id)
  | succ bound ih =>
    rw [FindsCyclic, outcome_askWith] at found
    split at found
    · exact absurd found (not_findsCyclic_pure _)
    · rename_i node _
      rcases FindsCyclic.of_bind found with found | ⟨_, _, found⟩
      · exact ⟨node, s, found⟩
      · exact ih found
    · rename_i halt _ _
      have acyclic : ¬ (faultOf halt).IsCyclic := by cases halt <;> exact id
      exact absurd found (not_findsCyclic_throw (α := α) acyclic)

lemma FindsCyclic.force_of_checkCondition {c : Condition}
    (found : FindsCyclic (checkCondition force c) s names) :
    ∃ node s', FindsCyclic (force node) s' names := by
  unfold checkCondition at found
  split at found
  · rcases FindsCyclic.of_bind found with found | ⟨holds, _, found⟩
    · exact found.force_of_askWith
    · cases holds
      · exact absurd found (not_findsCyclic_throw id)
      · exact absurd found (not_findsCyclic_pure ())
  · exact absurd found (not_findsCyclic_pure ())

/-- So is a list of conditions. -/
lemma FindsCyclic.force_of_forM {conditions : List Condition}
    (found : FindsCyclic (conditions.forM (checkCondition force)) s names) :
    ∃ node s', FindsCyclic (force node) s' names := by
  induction conditions generalizing s with
  | nil => exact absurd found (not_findsCyclic_pure ())
  | cons c conditions ih =>
    rcases FindsCyclic.of_bind found with found | ⟨_, _, found⟩
    · exact found.force_of_checkCondition
    · exact ih found

end Conditions

end Action

/-! ## The check right after an expansion -/

/-- What is built over settled nodes may be resolved on a stage, by a resolver that is not set
aside.
-/
structure Stage.Admits (st : Stage) (key : Nat) (t : TypeExpr) (bindings : List (Field TypeExpr)) :
    Prop where
  sound : st.Sound
  placed : key < st.store.nextStamp
  free : ¬ st.aside key
  type : t.Over st.settled
  bound : ∀ b ∈ bindings, b.type.Over st.settled

namespace Stage.Admits

open TypeNotation.Action

variable {st : Stage} {key : Nat} {t u : TypeExpr} {bindings : List (Field TypeExpr)}
  {e : Expanding} {names : List String} (may : st.Admits key t bindings)
include may

/-- An expansion leads to a later world, and to a type that is built over the nodes there. -/
lemma exists_nodes
    (run : outcome (phase st.registry t bindings) (st.world key).state = (.ok u, e)) :
    ∃ nodes : Nodes, (st.world key).Later ⟨nodes, e⟩ ∧ World.Ready st.registry ⟨nodes, e⟩ ∧
      u.ResolvedOver nodes := by
  have expands : Expands st.registry (phase st.registry t bindings) (st.world key) fun w u =>
      Instantiates w.Noted w.nodes bindings t u :=
    expands_instance (may.type.mono fun _ => .inl) fun b hb => (may.bound b hb).mono fun _ => .inl
  obtain ⟨nodes, later, ready, post⟩ := expands (may.sound.ready key)
  simp only [run] at later ready post
  obtain ⟨-, -, -, resolved, -⟩ := post
  exact ⟨nodes, later, ready, resolved⟩

section Run

variable (run : outcome (phase st.registry t bindings)
  ⟨st.store, (st.store.resolver key).restart⟩ = (.ok u, e))
include run

/-- The check reports a cycle of nodes in the table, which are new or were left there. -/
lemma reported_of_check {error : ResolutionError}
    (hcheck : e.store.heap.checkProductive e.resolver.expanded = .error error) :
    ∃ n rest position, e.store.heap.Cycle n rest ∧ error = .cyclic (reported n rest) position ∧
      ∀ x ∈ n :: rest, x ∈ e.resolver.expanded ∧
        (x ∈ (st.store.resolver key).expanded ∨ st.store.nextStamp ≤ x.stamp) := by
  obtain ⟨nodes, later, ready, -⟩ := may.exists_nodes run
  have sound' := may.sound.expanded may.placed later ready
  have table : (st.expanded key ⟨nodes, e⟩).store.resolver key = e.resolver :=
    Stage.resolver_expanded
  rw [← table] at hcheck ⊢
  obtain ⟨n, rest, position, cycle, rfl, found⟩ := sound'.cycle_of_check hcheck
  refine ⟨n, rest, position, cycle, rfl, fun x hx => ⟨(found x hx).1, ?_⟩⟩
  obtain ⟨hn, unsettled⟩ : nodes x ∧ ¬ st.settled x := by
    simpa [Stage.expanded] using (found x hx).2
  have named := ((sound'.resolver key).table x (found x hx).1).2
  rcases later.made hn with old | ⟨new, -⟩
  · exact .inl (may.sound.mem_table (old.resolve_left unsettled) named)
  · exact .inr new

/-- The check succeeds exactly if no cycle goes through what the expansion has to do with. -/
lemma check_eq_ok_iff : e.store.heap.checkProductive e.resolver.expanded = .ok () ↔
    ∀ n rest, e.Reaches u n → ¬ e.store.heap.Cycle n rest := by
  refine ⟨fun hcheck n rest ⟨v, hv, leads⟩ cycle => ?_, fun none => ?_⟩
  · obtain ⟨nodes, later, ready, hu⟩ := may.exists_nodes run
    have sound' := may.sound.expanded may.placed later ready
    have table : (st.expanded key ⟨nodes, e⟩).store.resolver key = e.resolver :=
      Stage.resolver_expanded
    have built : v.ResolvedOver nodes := by
      rcases List.mem_cons.1 hv with rfl | hv
      · exact hu
      · exact ready.wired.node (ready.resolver.table v hv).1
    have hn := ready.wired.leads built leads
    obtain ⟨m, name, args, rfl⟩ := Heap.exists_named_of_mem_chain cycle n List.mem_cons_self
    rw [← table] at hcheck
    refine sound'.check_eq_ok_iff.1 hcheck _ rest ?_ cycle
    rw [under_expanded later]
    exact hn.self
  · cases hcheck : e.store.heap.checkProductive e.resolver.expanded with
    | ok => rfl
    | error error =>
      obtain ⟨n, rest, -, cycle, -, found⟩ := may.reported_of_check run hcheck
      exact absurd cycle (none n rest
        ⟨n, List.mem_cons_of_mem u (found n List.mem_cons_self).1, .refl⟩)

/-- A resolution is refused as cyclic exactly if a cycle goes through what the expansion has to do
with, or a condition is refused as cyclic. -/
lemma findsCyclic_iff : (∃ names, FindsCyclic (resolveWith key t bindings) st.session names) ↔
    (∃ n rest, e.Reaches u n ∧ e.store.heap.Cycle n rest) ∨ ∃ names,
      FindsCyclic (e.resolver.pending.forM (checkCondition force)) (checking st.session key e)
        names := by
  refine ⟨?_, fun causes => ?_⟩
  · rintro ⟨names, found⟩
    rcases (findsCyclic_iff_of_run run).1 found with ⟨position, hcheck⟩ | ⟨-, conditions⟩
    · obtain ⟨n, rest, -, cycle, -, inTable⟩ := may.reported_of_check run hcheck
      exact .inl ⟨n, rest, ⟨n, List.mem_cons_of_mem u (inTable n List.mem_cons_self).1,
        .refl⟩, cycle⟩
    · exact .inr ⟨names, conditions⟩
  · cases hcheck : e.store.heap.checkProductive e.resolver.expanded with
    | error error =>
      obtain ⟨n, rest, position, -, rfl, -⟩ := may.reported_of_check run hcheck
      exact ⟨_, (findsCyclic_iff_of_run run).2 (.inl ⟨position, hcheck⟩)⟩
    | ok =>
      rcases causes with ⟨n, rest, reaches, cycle⟩ | ⟨names, found⟩
      · exact absurd cycle ((may.check_eq_ok_iff run).1 hcheck n rest reaches)
      · exact ⟨names, (findsCyclic_iff_of_run run).2 (.inr ⟨hcheck, found⟩)⟩

end Run

/-- The names that a resolution reports are those of a cycle. -/
lemma exhibits (found : FindsCyclic (resolveWith key t bindings) st.session names) {since : Nat}
    (hs : st.Since since) :
    (outcome (resolveWith key t bindings) st.session).2.store.heap.Exhibits since names := by
  obtain ⟨position, found⟩ := found
  obtain ⟨settled, shelf, -, -, -, fails, -⟩ :=
    acts_resolveWith may.placed may.free may.type may.bound may.sound
  exact (fails _ found).cyclic rfl hs

/-- No cycle goes through what a resolution returns, or leads to. -/
lemma acyclic {s : Session} (ok : outcome (resolveWith key t bindings) st.session = (.ok u, s))
    {n : TypeExpr} {rest : List TypeExpr} (hn : s.store.heap.Leads u n) :
    ¬ s.store.heap.Cycle n rest := by
  obtain ⟨settled, shelf, -, sound', -, -, post⟩ :=
    acts_resolveWith may.placed may.free may.type may.bound may.sound
  rw [ok] at sound' post
  obtain ⟨-, hu, -⟩ := post u rfl
  exact fun cycle => cycle.not_grounded (sound'.grounded_of_resolvedOver (sound'.leads hu hn))

end Stage.Admits

/-! ## Resolutions of a client -/

namespace Client

open TypeNotation.Action

variable {c : Client} {key : Nat} {t u : TypeExpr} {bindings : List (Field TypeExpr)}
  {e : Expanding}

lemma Reachable.admits (h : c.Reachable) (can : c.CanMake (.resolve key t bindings)) :
    ∃ st : Stage, st.session = c.session ∧ st.Admits key t bindings := by
  obtain ⟨st, on⟩ := h.on
  have on := on.activate (some key)
  have active : some key = (Call.resolve key t bindings).resolver? := rfl
  obtain ⟨placed, free⟩ := on.usable active key can.1 rfl
  exact ⟨_, on.session, on.sound, placed, free, over_settled on.held can.2.1,
    fun b hb => over_settled on.held (can.2.2 b hb)⟩

lemma Unbroken.reachable (h : c.Unbroken) : c.Reachable := by
  induction h with
  | start h => exact .start h
  | call _ can _ ih => exact ih.call can

lemma Unbroken.admits (h : c.Unbroken) (can : c.CanMake (.resolve key t bindings)) :
    ∃ st : Stage, st.session = c.session ∧ st.Admits key t bindings ∧ st.Swept := by
  obtain ⟨st, fin, swept⟩ := h.finished
  exact ⟨st, fin.session, ⟨fin.sound, fin.placed key can.1, fun aside => fin.free key aside.1,
    over_settled fin.held can.2.1, fun b hb => over_settled fin.held (can.2.2 b hb)⟩, swept⟩

/-- A resolution whose expansion is complete is refused as cyclic exactly if a cycle goes through
something that the expansion has to do with, or a condition that came up is refused as cyclic.  In
the first case the names are those of a cycle of nodes in the table of the resolver, and each of
them is new or was left there before.  In any case the names are those of a cycle, and if no call
has broken off, then all types on it are new.  What is returned with success leads to no cycle. -/
theorem resolveWith_findsCyclic_iff (h : c.Reachable) (can : c.CanMake (.resolve key t bindings))
    (run : outcome (phase c.session.registry t bindings)
      ⟨c.session.store, (c.session.store.resolver key).restart⟩ = (.ok u, e)) :
    let resolution := resolveWith key t bindings
    let conditions := e.resolver.pending.forM (checkCondition force)
    let heap := (outcome resolution c.session).2.store.heap
    ((∃ names, FindsCyclic resolution c.session names) ↔
      (∃ n rest, e.Reaches u n ∧ e.store.heap.Cycle n rest) ∨
        ∃ names, FindsCyclic conditions (checking c.session key e) names) ∧
    (∀ names, FindsCyclic resolution c.session names →
      ((∃ n rest, e.store.heap.Cycle n rest ∧ names = reported n rest ∧
          ∀ x ∈ n :: rest, x ∈ e.resolver.expanded ∧
            (x ∈ (c.session.store.resolver key).expanded ∨ c.session.store.nextStamp ≤ x.stamp)) ∨
        FindsCyclic conditions (checking c.session key e) names ∧
          ∃ node s', FindsCyclic (force node) s' names) ∧
      heap.Exhibits 0 names ∧ (c.Unbroken → heap.Exhibits c.session.store.nextStamp names)) ∧
    ∀ v, (outcome resolution c.session).1 = .ok v →
      ∀ n rest, heap.Leads v n → ¬ heap.Cycle n rest := by
  obtain ⟨st, session, may⟩ := h.admits can
  dsimp only
  rw [← session] at run ⊢
  refine ⟨may.findsCyclic_iff run, fun names found => ⟨?_, may.exhibits found (.zero st), ?_⟩,
    fun v ok n rest hn => may.acyclic (Prod.ext ok rfl) hn⟩
  · rcases (findsCyclic_iff_of_run run).1 found with ⟨position, hcheck⟩ | ⟨-, conditions⟩
    · obtain ⟨n, rest, _, cycle, herror, inTable⟩ := may.reported_of_check run hcheck
      cases herror
      exact .inl ⟨n, rest, cycle, rfl, inTable⟩
    · exact .inr ⟨conditions, conditions.force_of_forM⟩
  · intro unbroken
    obtain ⟨st', session', may', swept⟩ := unbroken.admits can
    rw [session, ← session'] at found ⊢
    exact may'.exhibits found swept.since

/-! ### A name that stands for itself -/

/-- A name that is declared as itself. -/
def loop : Declaration :=
  ⟨"c", [], .reference (.written none) "c" [], none⟩

/-- A client that has declared it, and a number that is too large, and has made a resolver. -/
def looping : Client :=
  (((start .empty).after (.declare loop)).after (.declare oversized)).after (.newResolver 2 1)

/-- The two names. -/
def toLoop : TypeExpr := .reference (.written none) "c" []

def toOversized : TypeExpr := .reference (.written none) "a" []

/-- The node of the first of them. -/
def loopNode : TypeExpr := .named ⟨none, 2⟩ "c" []

/-- The heap after it has been expanded: its body is the node itself. -/
def loopHeap : Heap :=
  Heap.empty.setBody 2 loopNode

lemma looping_session : looping.session =
    withResolver ⟨⟨Registry.builtins ++ [loop, oversized], []⟩, .empty⟩ 2 1 := by
  rfl

lemma resolver_looping : looping.session.store.resolver 1 = .ofBudget 2 1 := by
  simp [looping_session, withResolver, Store.resolver, Store.setResolver, Store.empty]

lemma unbroken_looping : looping.Unbroken := by
  refine .call (.call (.call (.start List.mem_cons_self) ?_ ?_) ?_ ?_) trivial ?_
  · exact (written_name "c").over
  · rintro _ ⟨⟩
  · exact throughout_number (fun _ => trivial) _
  · rintro _ ⟨⟩
  · rintro _ ⟨⟩

lemma cycle_loop : loopHeap.Cycle loopNode [] := by
  refine List.isChain_pair.2 ⟨_, _, _, loopNode, rfl, ?_, List.mem_singleton_self _⟩
  simp [loopHeap, Heap.body?, Heap.setBody]

lemma outcome_loop : ∃ e : Expanding,
    outcome (expand looping.session.registry [] none toLoop)
      ⟨looping.session.store, .ofBudget 2 1⟩ = (.ok loopNode, e) ∧
        e.resolver.expanded = [loopNode] ∧ e.store.heap = loopHeap := by
  have lookup : looping.session.registry.lookup "c" = some loop := by rfl
  have memo (m : Mark) : looping.session.registry.memoized (.named m "c" []) = none := by rfl
  have next : looping.session.store.nextStamp = 2 := by rfl
  have heap : looping.session.store.heap = .empty := by rfl
  simp [toLoop, loopNode, expand, outcome_bind, Resolver.ofBudget, expandAt, expandIn,
    declarationOf, lookup, expandAll, loop, Declaration.arity, outcome_reference, known?, memo,
    enter, same, sameAll, Mark.written, next, heap, loopHeap]

/-- Resolving the name is refused as cyclic, and the cycle is reported. -/
theorem findsCyclic_loop : looping.Unbroken ∧
    looping.CanMake (.resolve 1 toLoop []) ∧
    ∃ names, FindsCyclic (resolveWith 1 toLoop []) looping.session names ∧
      (outcome (resolveWith 1 toLoop []) looping.session).2.store.heap.Exhibits 2 names := by
  have can : looping.CanMake (.resolve 1 toLoop []) :=
    ⟨by decide, (written_name "c").over, by simp⟩
  obtain ⟨e, run, -, heap⟩ := outcome_loop
  have run : outcome (phase looping.session.registry toLoop [])
      ⟨looping.session.store, (looping.session.store.resolver 1).restart⟩ = (.ok loopNode, e) := by
    rw [resolver_looping]
    exact run
  obtain ⟨causes, report, -⟩ := resolveWith_findsCyclic_iff unbroken_looping.reachable can run
  obtain ⟨names, found⟩ := causes.2 (.inl
    ⟨loopNode, [], ⟨loopNode, List.mem_cons_self, .refl⟩, by rw [heap]; exact cycle_loop⟩)
  exact ⟨unbroken_looping, can, names, found, (report names found).2.2 unbroken_looping⟩

/-! ### A cycle that is left over -/

/-- The client after it has tried to resolve a pair of both names, which ends in an overflow. -/
def leftover : Client :=
  looping.after (.resolve 1 (.tuple (.written none) [toLoop, toOversized]) [])

lemma outcome_pair : ∃ e : Expanding,
    outcome (expand looping.session.registry [] none (.tuple (.written none) [toLoop, toOversized]))
      ⟨looping.session.store, .ofBudget 2 1⟩ = (.error (.arithmetic .overflow), e) ∧
        e.resolver.expanded = [loopNode, .named ⟨none, 3⟩ "a" []] ∧ e.store.heap = loopHeap := by
  have lookup : looping.session.registry.lookup "c" = some loop := by rfl
  have lookup' : looping.session.registry.lookup "a" = some oversized := by rfl
  have memo (m : Mark) : looping.session.registry.memoized (.named m "c" []) = none := by rfl
  have memo' (m : Mark) : looping.session.registry.memoized (.named m "a" []) = none := by rfl
  have next : looping.session.store.nextStamp = 2 := by rfl
  have heap : looping.session.store.heap = .empty := by rfl
  simp [toLoop, toOversized, loopNode, expand, outcome_bind, Resolver.ofBudget, expandAt, expandIn,
    declarationOf, lookup, lookup', expandAll, loop, oversized, Declaration.arity,
    outcome_reference, known?, memo, memo', enter, same, sameAll, Mark.written, next, heap,
    loopHeap, numeral_tooLarge]

lemma leftover_session : ∃ e : Expanding,
    leftover.session = ⟨looping.session.registry, e.store.setResolver 1 e.resolver⟩ ∧
      e.resolver.expanded = [loopNode, .named ⟨none, 3⟩ "a" []] ∧ e.store.heap = loopHeap := by
  obtain ⟨e, run, expanded, heap⟩ := outcome_pair
  refine ⟨e, ?_, expanded, heap⟩
  have run : outcome (expand looping.session.registry [] none
      (.tuple (.written none) [toLoop, toOversized]))
      ⟨looping.session.store, (looping.session.store.resolver 1).restart⟩ =
        (.error (.arithmetic .overflow), e) := by
    rw [resolver_looping]
    exact run
  simp only [leftover, after, Call.action, resolveWith, outcome_bind, outcome_get,
    outcome_resolving, outcome_runExpansion, List.mapM_nil, pure_bind, run, Fault.isRegular]
  rfl

lemma checkProductive_leftover :
    loopHeap.checkProductive [loopNode, .named ⟨none, 3⟩ "a" []] =
      .error (.cyclic ["c", "c"] none) := by
  simp [loopHeap, loopNode, Heap.checkProductive, Heap.walk, Heap.walkWith, Heap.body?,
    Heap.setBody, Heap.empty, Std.HashMap.size_insert, bind, Except.bind]

lemma outcome_unit (registry : Registry) (m : Mark) (e : Expanding) :
    outcome (phase registry (.unit m) []) e = (.ok (.unit m), e) := by
  simp only [phase, List.mapM_nil, pure_bind, expand, outcome_bind, outcome_get]
  cases e.resolver.maxDepth <;> rfl

lemma leads_unit {h : Heap} {m : Mark} {n : TypeExpr} (leads : h.Leads (.unit m) n) :
    n = .unit m := by
  induction leads with
  | refl => rfl
  | part _ hv ih => simp [ih, parts] at hv
  | body _ _ ih | binding _ _ ih | result _ _ ih => cases ih

/-- With the same resolver the client cannot resolve anything now: the cycle is still in its
table. -/
theorem findsCyclic_leftover : leftover.Reachable ∧
    leftover.CanMake (.resolve 1 (.unit (.written none)) []) ∧
    (∃ e, outcome (phase leftover.session.registry (.unit (.written none)) [])
        ⟨leftover.session.store, (leftover.session.store.resolver 1).restart⟩ =
          (.ok (.unit (.written none)), e) ∧
      ∀ n rest, e.store.heap.Leads (.unit (.written none)) n → ¬ e.store.heap.Cycle n rest) ∧
    FindsCyclic (resolveWith 1 (.unit (.written none)) []) leftover.session ["c", "c"] := by
  have reachable : leftover.Reachable := by
    refine unbroken_looping.reachable.call ⟨by decide, ?_, by simp⟩
    refine throughout_iff.2 ⟨trivial, ?_⟩
    simpa [parts] using ⟨(written_name "c").over, (written_name "a").over⟩
  have run := outcome_unit leftover.session.registry (.written none)
    ⟨leftover.session.store, (leftover.session.store.resolver 1).restart⟩
  refine ⟨reachable, ⟨resolvers_subset_after _ _ (by decide), ?_, by simp⟩,
    ⟨_, run, fun n rest leads cycle => ?_⟩, (findsCyclic_iff_of_run run).2 (.inl ⟨none, ?_⟩)⟩
  · exact written_unit.over
  · obtain ⟨m, name, args, hn⟩ := Heap.exists_named_of_mem_chain cycle n List.mem_cons_self
    rw [leads_unit leads] at hn
    cases hn
  · obtain ⟨e, session, expanded, heap⟩ := leftover_session
    simp only [session, Store.resolver_setResolver, Store.heap_setResolver, Resolver.restart,
      expanded, heap]
    exact checkProductive_leftover

end Client

end TypeNotation
