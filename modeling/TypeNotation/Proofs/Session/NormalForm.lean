import TypeNotation.Proofs.Resolution.Unfold
import TypeNotation.Proofs.Session.Memo

/-!
# Normal forms

What a resolution returns is a graph: knots are tied to expansions that are still in progress, and
expansions that are remembered or bound to variables are spliced in.  Whatever the graph looks like,
all that can be reached from the result is complete, as long as no call before has broken off: there
is no reference and no empty interval, and named types have bodies and unfold to something else.

A call *breaks off* if it ends in a fault that is not an error about its input.  Only then may a
resolver keep unfinished nodes.  Until then no resolver has to be set aside, so that any of them, a
new one in particular, may be used.
-/

namespace TypeNotation

open TypeExpr

/-- A node that is complete: not a reference, not an empty interval, and if it is a named type, then
one with a body that unfolds to something else. -/
structure Heap.Complete (h : Heap) (t : TypeExpr) : Prop where
  expanded : ∀ m name args, t ≠ .reference m name args
  bounding : ∀ m low high, t = .interval m low high → Bounding low high
  body : ∀ m name args, t = .named m name args → (h.body? m.stamp).isSome
  unfolds : ∀ m name args, t = .named m name args → ∀ m' name' args',
    h.unfold t ≠ .named m' name' args'

namespace Action

open Expansion

/-- Resolve a type with bindings by a resolver of its own. -/
def resolveAnew (maxSteps maxDepth : Nat) (t : TypeExpr) (bindings : List (Field TypeExpr)) :
    Action TypeExpr := do
  resolveWith (← newResolver maxSteps maxDepth) t bindings

/-- A new resolver returns what it expands a type to, unfolded, if the expansion notes no condition
and is productive. -/
lemma outcome_resolveAnew {s : Session} {maxSteps maxDepth : Nat} {t w : TypeExpr} {e : Expanding}
    (run : outcome (expand s.registry [] none t)
      ⟨(withResolver s maxSteps maxDepth).store, .ofBudget maxSteps maxDepth⟩ = (.ok w, e))
    (unconditional : e.resolver.pending = [])
    (productive : e.store.heap.checkProductive e.resolver.expanded = .ok ()) :
    outcome (resolveAnew maxSteps maxDepth t []) s =
      (.ok (e.store.heap.unfold w),
        remembering (withResolver s maxSteps maxDepth) s.store.nextStamp e) := by
  rw [resolveAnew, outcome_bind, outcome_newResolver]
  refine outcome_resolveWith ?_ unconditional productive
  have made : (withResolver s maxSteps maxDepth).store.resolver s.store.nextStamp =
      .ofBudget maxSteps maxDepth := by
    simp [withResolver, Store.resolver, Store.setResolver]
  rw [made]
  exact run

end Action

/-! ## Stages of finished nodes -/

namespace Stage

variable {st : Stage}

/-- A type over settled nodes is grounded, like the nodes in it. -/
lemma Sound.grounded_of_resolvedOver (sound : st.Sound) {t : TypeExpr}
    (ht : t.ResolvedOver st.settled) : st.store.heap.Grounded t := by
  induction t using parts_induction with
  | step t ih =>
    have parts : ∀ u ∈ t.parts, st.store.heap.Grounded u := fun u hu => ih u hu (ht.part hu)
    cases t with
    | named m name args => exact sound.grounded (resolvedOver_named.1 ht).1
    | union | complement | predicate =>
      exact Heap.grounded_of_unguarded fun u hu => parts u hu
    | delegation m base targets =>
      refine Heap.grounded_of_unguarded fun u hu => parts u ?_
      have hu : u = base := by simpa [Heap.unguarded] using hu
      simp [TypeExpr.parts, hu]
    | _ => exact Heap.grounded_of_unguarded fun u hu => by simp [Heap.unguarded] at hu

/-- If all settled nodes have bodies, then all types over them are complete. -/
lemma Sound.complete (sound : st.Sound) (whole : st.Whole) {t : TypeExpr}
    (ht : t.ResolvedOver st.settled) : st.store.heap.Complete t where
  expanded := by
    rintro m name args rfl
    exact ht.self
  bounding := by
    rintro m low high rfl
    exact ht.self
  body := by
    rintro m name args rfl
    exact whole m name args (resolvedOver_named.1 ht).1
  unfolds := by
    rintro - - - - m' name' args' hunfold
    have settles := (sound.grounded_of_resolvedOver ht).settles_unfold
    have held := resolvedOver_unfold sound.wired ht
    rw [hunfold] at settles held
    have body := whole m' name' args' (resolvedOver_named.1 held).1
    rw [Heap.Settles] at settles
    rw [settles] at body
    cases body

end Stage

namespace Client

/-- The clients none of whose calls has broken off. -/
inductive Unbroken : Client → Prop
  | start {registry : Registry} (h : registry ∈ [.empty, .withPrelude]) : Unbroken (start registry)
  | call {c : Client} {call : Call} (h : Unbroken c) (can : c.CanMake call)
    (regular : ∀ fault, (outcome call.action c.session).1 = .error fault → fault.isRegular) :
    Unbroken (c.after call)

/-- A stage that a client works on with no resolver set aside: all settled nodes, and all nodes in
tables, have bodies. -/
structure Finished (c : Client) (st : Stage) : Prop where
  session : st.session = c.session
  sound : st.Sound
  placed : ∀ key ∈ c.resolvers, key < st.store.nextStamp
  held : ∀ t ∈ c.held, t.ResolvedOver st.settled
  free : ∀ key, ¬ st.own key
  whole : st.Whole
  tidy : st.Tidy

variable {c : Client} {st : Stage}

/-- A client that has made no call yet works on a stage where nothing is settled. -/
lemma finished_start {registry : Registry} (h : registry ∈ [.empty, .withPrelude]) :
    ∃ st, (start registry).Finished st ∧ st.Swept ∧ ∀ n, ¬ st.settled n := by
  have on := on_start (Registry.over_initial h)
  refine ⟨_, ⟨on.session, on.sound, by simp [Client.start], on.held, fun _ => id,
    fun _ _ _ hn => hn.elim, fun key _ r hr => ?_⟩, fun _ _ => id, fun _ => id⟩
  simp [Session.ofRegistry, Store.empty] at hr

/-- A call that does not break off leaves everything finished, and nothing on the shelves. -/
lemma Finished.after (fin : c.Finished st) {call : Call} (can : c.CanMake call)
    (regular : ∀ fault, (outcome call.action c.session).1 = .error fault → fault.isRegular) :
    ∃ st', (c.after call).Finished st' ∧ st.Later st' ∧ (st.Swept → st'.Swept) ∧
      ((outcome call.action c.session).1.isOk → st.Kept st') := by
  have usable : ∀ key ∈ c.resolvers, call.resolver? = some key →
      key < st.store.nextStamp ∧ ¬ st.aside key :=
    fun key hkey _ => ⟨fin.placed key hkey, fun aside => fin.free key aside.1⟩
  obtain ⟨settled, shelf, later, sound, neat, fails, post⟩ :=
    acts_call fin.held usable can fin.sound
  obtain ⟨whole, tidy⟩ := neat fin.whole fin.tidy
  rw [fin.session] at later sound whole tidy fails post
  have tidy := tidy.resolve_right fun overflow => by
    cases regular _ overflow
  have placed : ∀ key ∈ c.resolvers, key < (outcome call.action c.session).2.store.nextStamp :=
    fun key hkey => Nat.lt_of_lt_of_le (fin.placed key hkey) later.next
  have held : ∀ t ∈ c.held, t.ResolvedOver settled :=
    fun t ht => (fin.held t ht).mono fun _ => later.settled
  unfold Client.after
  rcases hout : outcome call.action c.session with ⟨fault | reply, s⟩
  · rw [hout] at later sound whole tidy placed fails regular
    refine ⟨_, ⟨rfl, sound, placed, held, fin.free, whole, tidy⟩, later, fun swept key n hn => ?_,
      fun ok => by cases ok⟩
    exact swept key n ((fails fault rfl).shelf (.inl (regular fault rfl)) hn)
  · rw [hout] at later sound whole tidy placed post
    obtain ⟨kept, types, unused⟩ := post reply rfl
    refine ⟨_, ⟨rfl, sound, fun key hkey => ?_, fun t ht => ?_, fin.free, whole, tidy⟩, later,
      kept.swept, fun _ => kept⟩
    · rcases List.mem_append.1 hkey with hkey | hkey
      · exact placed key hkey
      · exact (unused key hkey).placed
    · rcases List.mem_append.1 ht with ht | ht
      · exact held t ht
      · exact types t ht

lemma Unbroken.finished (h : c.Unbroken) : ∃ st, c.Finished st ∧ st.Swept := by
  induction h with
  | start h =>
    obtain ⟨st, fin, swept, -⟩ := finished_start h
    exact ⟨st, fin, swept⟩
  | call _ can regular ih =>
    obtain ⟨st, fin, swept⟩ := ih
    obtain ⟨st', fin', -, swept', -⟩ := fin.after can regular
    exact ⟨st', fin', swept' swept⟩

/-! ## What a new resolver returns -/

/-- A resolution by a new resolver that succeeds leads to a stage where everything is finished and
the result is settled; it is the unfolding of an instance. -/
lemma Finished.resolveAnew (fin : c.Finished st) {maxSteps maxDepth : Nat} {t u : TypeExpr}
    {bindings : List (Field TypeExpr)} (ht : t.Over c.nodes)
    (hbindings : ∀ b ∈ bindings, b.type.Over c.nodes) {s : Session}
    (ok : outcome (Action.resolveAnew maxSteps maxDepth t bindings) c.session = (.ok u, s)) :
    ∃ st' : Stage, st'.session = s ∧ st.Later st' ∧ st'.Sound ∧ st'.Whole ∧
      u.ResolvedOver st'.settled ∧ ∃ w, u = s.store.heap.unfold w ∧
        Action.Instantiates st'.Upholds st'.settled bindings t w := by
  have acts : Action.Acts (Action.resolveAnew maxSteps maxDepth t bindings) st fun st' u =>
      u.ResolvedOver st'.settled ∧ ∃ w, u = st'.store.heap.unfold w ∧
        Action.Instantiates st'.Upholds st'.settled bindings t w :=
    (Action.acts_newResolver maxSteps maxDepth).bind fun st₁ key later unused =>
      Action.acts_resolveWith unused.placed (fun aside => unused.foreign aside.1)
        ((over_settled fin.held ht).mono fun _ => later.settled)
        fun b hb => (over_settled fin.held (hbindings b hb)).mono fun _ => later.settled
  obtain ⟨settled, shelf, later, sound, neat, -, post⟩ := acts fin.sound
  obtain ⟨whole, -⟩ := neat fin.whole fin.tidy
  rw [fin.session, ok] at later sound whole post
  obtain ⟨-, hu, hw⟩ := post u rfl
  exact ⟨_, rfl, later, sound, whole, hu, hw⟩

/-- If no call has broken off, then everything that the result of a new resolver leads to is
complete, and no question about it meets a reference, nor one that compares it with other types that
the client holds. -/
theorem complete_of_resolveAnew (h : c.Unbroken) {maxSteps maxDepth : Nat} {t u : TypeExpr}
    {bindings : List (Field TypeExpr)} (ht : t.Over c.nodes)
    (hbindings : ∀ b ∈ bindings, b.type.Over c.nodes) {s : Session}
    (ok : outcome (Action.resolveAnew maxSteps maxDepth t bindings) c.session = (.ok u, s)) :
    (∀ v, s.store.heap.Leads u v → s.store.heap.Complete v) ∧
      ∀ question : Question,
        (∀ x ∈ question.types, x ∈ c.held ∨ s.store.heap.Leads u x) →
          ∀ fault, (outcome question.action s).1 = .error fault → ¬ fault.MeetsReference := by
  obtain ⟨st, fin, -⟩ := h.finished
  obtain ⟨st', rfl, later, sound, whole, hu, -⟩ := fin.resolveAnew ht hbindings ok
  have reached : ∀ v, st'.store.heap.Leads u v → v.ResolvedOver st'.settled :=
    fun v hv => sound.leads hu hv
  refine ⟨fun v hv => sound.complete whole (reached v hv), fun question hquestion => ?_⟩
  have settled : ∀ x ∈ question.types, x.ResolvedOver st'.settled := fun x hx => by
    rcases hquestion x hx with held | leads
    · exact (fin.held x held).mono fun _ => later.settled
    · exact reached x leads
  obtain ⟨_, _, -, -, -, fails, -⟩ := Action.acts_question settled sound
  exact fun fault h => (fails fault h).apt

/-- The client after it has made a resolver and resolved a type with it. -/
def resolvedAnew (c : Client) (maxSteps maxDepth : Nat) (t : TypeExpr) : Client :=
  (c.after (.newResolver maxSteps maxDepth)).after (.resolve c.session.store.nextStamp t [])

lemma Reachable.resolvedAnew (h : c.Reachable) {maxSteps maxDepth : Nat} {t : TypeExpr}
    (ht : t.Over c.nodes) : (c.resolvedAnew maxSteps maxDepth t).Reachable := by
  have made : (c.after (.newResolver maxSteps maxDepth)).Reachable := h.call trivial
  refine made.call ⟨?_, ?_, by simp⟩
  · exact List.mem_append_right _ (List.mem_singleton_self _)
  · exact ht.mono fun n ⟨u, hu, hn⟩ => ⟨u, List.mem_append_left _ hu, hn⟩

/-- The client holds what the type is expanded to, unfolded, if the expansion notes no condition and
is productive. -/
lemma resolvedAnew_eq {maxSteps maxDepth : Nat} {t w : TypeExpr} {e : Expanding}
    (run : outcome (Expansion.expand c.session.registry [] none t)
      ⟨(Action.withResolver c.session maxSteps maxDepth).store, .ofBudget maxSteps maxDepth⟩ =
        (.ok w, e))
    (unconditional : e.resolver.pending = [])
    (productive : e.store.heap.checkProductive e.resolver.expanded = .ok ()) :
    c.resolvedAnew maxSteps maxDepth t =
      ⟨Action.remembering (Action.withResolver c.session maxSteps maxDepth)
          c.session.store.nextStamp e,
        c.resolvers ++ [c.session.store.nextStamp], c.held ++ [e.store.heap.unfold w]⟩ := by
  have made : c.after (.newResolver maxSteps maxDepth) =
      ⟨Action.withResolver c.session maxSteps maxDepth,
        c.resolvers ++ [c.session.store.nextStamp], c.held ++ []⟩ := rfl
  have ok := Action.outcome_resolveAnew run unconditional productive
  rw [Action.resolveAnew, outcome_bind, Action.outcome_newResolver] at ok
  change outcome (Action.resolveWith _ _ _) _ = _ at ok
  rw [resolvedAnew, made]
  simp only [after, Call.action, outcome_bind, ok, outcome_pure, List.append_nil]

/-! ### A recursive type -/

/-- Lists of lists of lists, without end. -/
def nest : Declaration :=
  ⟨"n", [], .list (.written none) [.reference (.written none) "n" []], none⟩

/-- A client that has declared them. -/
def nesting : Client :=
  (start .empty).after (.declare nest)

lemma written_body_nest : nest.body.Written :=
  throughout_iff.2 ⟨trivial, List.forall_mem_singleton.2 (written_name "n")⟩

lemma unbroken_nesting : nesting.Unbroken := by
  refine .call (.start List.mem_cons_self) written_body_nest.over ?_
  rintro fault h
  cases h

/-- The heap after a list has been resolved on an empty one: the name, and its body. -/
def nestHeap : Heap :=
  Heap.empty.setBody 2 (.list ⟨none, 3⟩ [.named ⟨none, 2⟩ "n" []])

lemma outcome_nest : ∃ e : Expanding,
    outcome (Expansion.expand nesting.session.registry [] none (.reference (.written none) "n" []))
      ⟨(Action.withResolver nesting.session 1 1).store, .ofBudget 1 1⟩ =
        (.ok (.named ⟨none, 2⟩ "n" []), e) ∧
      e.resolver.pending = [] ∧ e.resolver.expanded = [.named ⟨none, 2⟩ "n" []] ∧
      e.store.heap = nestHeap := by
  have lookup : nesting.session.registry.lookup "n" = some nest := by rfl
  have memo (m : Mark) : nesting.session.registry.memoized (.named m "n" []) = none := by rfl
  have next : (Action.withResolver nesting.session 1 1).store.nextStamp = 2 := by rfl
  have heap : (Action.withResolver nesting.session 1 1).store.heap = .empty := by rfl
  simp [Expansion.expand, outcome_bind, Resolver.ofBudget, Expansion.expandAt, Expansion.expandIn,
    Expansion.declarationOf, lookup, Expansion.expandAll, nest, Declaration.arity,
    Expansion.outcome_reference, Expansion.known?, memo, Expansion.enter, same, sameAll,
    Mark.written, Expansion.remark, Except.map, listOf, withoutRepeats, next, heap, nestHeap]

lemma checkProductive_nest : nestHeap.checkProductive [.named ⟨none, 2⟩ "n" []] = .ok () := by
  simp [nestHeap, Heap.checkProductive, Heap.walk, Heap.walkWith, Heap.body?, Heap.setBody,
    Heap.empty, Std.HashMap.size_insert]

lemma ok_nest : ∃ (u : TypeExpr) (s : Session),
    outcome (Action.resolveAnew 1 1 (.reference (.written none) "n" []) []) nesting.session =
      (.ok u, s) := by
  obtain ⟨e, run, unconditional, expanded, heap⟩ := outcome_nest
  have productive : e.store.heap.checkProductive e.resolver.expanded = .ok () := by
    rw [heap, expanded]
    exact checkProductive_nest
  exact ⟨_, _, Action.outcome_resolveAnew run unconditional productive⟩

/-- A type that refers back to itself is resolved to a complete graph. -/
theorem complete_nest : ∃ (u : TypeExpr) (s : Session),
    outcome (Action.resolveAnew 1 1 (.reference (.written none) "n" []) []) nesting.session =
      (.ok u, s) ∧
    (∀ v, s.store.heap.Leads u v → s.store.heap.Complete v) ∧
    ∀ fault, (outcome (Question.action (.isMember true .absent u)) s).1 = .error fault →
      ¬ fault.MeetsReference := by
  obtain ⟨u, s, ok⟩ := ok_nest
  obtain ⟨complete, apt⟩ := complete_of_resolveAnew unbroken_nesting
    (written_name "n").over (by simp) ok
  refine ⟨u, s, ok, complete, apt (.isMember true .absent u) fun x hx => .inr ?_⟩
  rw [List.mem_singleton.1 hx]
  exact .refl

end Client

end TypeNotation
