import TypeNotation.Proofs.Resolution.Replacement
import TypeNotation.Proofs.Session.Declarations
import TypeNotation.Proofs.Session.Vouching

/-!
# Instantiation is replacement

A client that resolves a reference gets what it would get for the body of the declaration with the
arguments written in the place of the parameters.  The two are resolved apart, by any resolvers, in
one session or in two, before or after other calls: what is shared or remembered on the way makes no
difference, nor do names that parameters have in common, nor recursion.

There are two exceptions.  A named type may have lost its body to an overflow, and then the
reference is not unfolded.  And members of a list may be numerals that are equal as they are written
but have different values; then replacement drops members that instantiation keeps.
-/

namespace TypeNotation

open TypeExpr TypeNotation.Action Expansion

/-- Two registries that give no name different declarations. -/
def Registry.Agrees (r r' : Registry) : Prop :=
  ∀ name d d', r.lookup name = some d → r'.lookup name = some d' → d = d'

/-- A type that is not named. -/
def TypeExpr.Unnamed (t : TypeExpr) : Prop :=
  ∀ m name args, t ≠ .named m name args

/-! ## Equal types on two heaps -/

namespace Wired

variable {registry registry' : Registry} {K K' : Nodes} {s s' : Store} {t t' u u' : TypeExpr}
  {stamps stamps' : List Nat}

/-- Equal types on two heaps have chains of bodies that are equal one by one, as long as neither
ends in a name. -/
lemma same_ends (wired : Wired registry K s) (wired' : Wired registry' K' s')
    (agree : registry.Agrees registry') (ht : t.ResolvedOver K) (ht' : t'.ResolvedOver K')
    (same : t.same t' = true) (chain : s.heap.Chain t stamps u)
    (chain' : s'.heap.Chain t' stamps' u') (hu : u.Unnamed) (hu' : u'.Unnamed) :
    u.same u' = true := by
  induction chain generalizing t' stamps' with
  | @done t settles =>
    cases chain' with
    | done => exact same
    | step =>
      cases alike_iff.2 same
      exact absurd rfl (hu _ _ _)
  | @step m name args body u stamps hbody rest ih =>
    obtain ⟨args', m', hargs, rfl⟩ : ∃ args' m', EachSame args args' ∧ t' =
      .named m' name args' := by
      cases alike_iff.2 same with
      | named hargs => exact ⟨_, _, hargs, rfl⟩
    cases chain' with
    | done => exact absurd rfl (hu' _ _ _)
    | @step _ _ _ body' _ _ hbody' rest' =>
      obtain ⟨d, hd, -, built⟩ := wired.declared (resolvedOver_named.1 ht).1
      obtain ⟨d', hd', -, built'⟩ := wired'.declared (resolvedOver_named.1 ht').1
      obtain rfl := agree name d d' hd hd'
      obtain ⟨based, applied⟩ := built body hbody
      obtain ⟨based', applied'⟩ := built' body' hbody'
      have bodies : body.same body' = true :=
        same_trans applied (same_trans (d.applied_congr hargs) (same_symm applied'))
      exact ih based based' bodies rest' hu

/-- Equal grounded types on two heaps unfold to equal types, unless one of them unfolds to a
name. -/
lemma same_unfold (wired : Wired registry K s) (wired' : Wired registry' K' s')
    (agree : registry.Agrees registry') (ht : t.ResolvedOver K) (ht' : t'.ResolvedOver K')
    (grounded : s.heap.Grounded t) (grounded' : s'.heap.Grounded t') (same : t.same t' = true)
    (hu : (s.heap.unfold t).Unnamed) (hu' : (s'.heap.unfold t').Unnamed) :
    (s.heap.unfold t).same (s'.heap.unfold t') = true := by
  obtain ⟨n, within⟩ := grounded
  obtain ⟨n', within'⟩ := grounded'
  obtain ⟨stamps, v, chain⟩ := within.chain
  obtain ⟨stamps', v', chain'⟩ := within'.chain
  rw [chain.unfold_eq] at hu ⊢
  rw [chain'.unfold_eq] at hu' ⊢
  exact wired.same_ends wired' agree ht ht' same chain chain' hu hu'

end Wired

namespace Client

variable {c c' : Client} {key key' : Nat} {t u u' : TypeExpr} {s s' : Session}

/-- What a client gets for a type is what an instance of it unfolds to. -/
lemma Reachable.resolved (h : c.Reachable) (can : c.CanMake (.resolve key t []))
    (ok : outcome (resolveWith key t []) c.session = (.ok u, s)) :
    ∃ (st : Stage) (w : TypeExpr), st.session = s ∧ st.Sound ∧ w.ResolvedOver st.settled ∧
      w.same (t.instantiate [] none) = true ∧ u = s.store.heap.unfold w := by
  obtain ⟨st, on⟩ := h.on
  have on := on.activate (some key)
  have named : Call.resolver? (.resolve key t []) = some key := rfl
  obtain ⟨placed, free⟩ := on.usable named.symm key can.1 named
  obtain ⟨settled, shelf, -, sound, -, -, post⟩ :=
    acts_resolveWith placed free (over_settled on.held can.2.1) (List.forall_mem_nil _) on.sound
  rw [on.session, ok] at sound post
  obtain ⟨-, -, w, hw, env, henv, based, same, -⟩ := post u rfl
  obtain rfl := List.forall₂_nil_left_iff.1 henv
  exact ⟨_, w, rfl, sound, based, same, hw⟩

lemma lookup_resolved (ok : outcome (resolveWith key t []) c.session = (.ok u, s)) (name : String) :
    s.registry.lookup name = c.session.registry.lookup name := by
  have keeps := keeps_resolveWith key t [] c.session
  rw [ok] at keeps
  rw [Registry.lookup, keeps, Registry.lookup]

/-- What a client gets for a reference, if it is no name, is what an instance of the body of the
declaration unfolds to. -/
lemma Reachable.resolved_reference (h : c.Reachable) {d : Declaration} {m : Mark}
    {args : List TypeExpr} (declared : c.session.registry.lookup d.name = some d)
    (can : c.CanMake (.resolve key (.reference m d.name args) []))
    (ok : outcome (resolveWith key (.reference m d.name args) []) c.session = (.ok u, s))
    (hu : u.Unnamed) :
    ∃ (st : Stage) (w : TypeExpr), st.session = s ∧ st.Sound ∧ w.ResolvedOver st.settled ∧
      args.length = d.arity ∧ w.same (d.applied (args.map (instantiate [] none))) = true ∧
      u = s.store.heap.unfold w := by
  obtain ⟨st, w, rfl, sound, based, same, rfl⟩ := h.resolved can ok
  simp only [instantiate, instantiateAll_eq] at same
  obtain ⟨args', m', hargs, rfl⟩ : ∃ args' m', EachSame args' (args.map (instantiate [] none)) ∧
      w = .named m' d.name args' := by
    cases alike_iff.2 same with
    | named hargs => exact ⟨_, _, hargs, rfl⟩
  obtain ⟨e, he, arity, built⟩ := sound.wired.declared (resolvedOver_named.1 based).1
  obtain rfl : d = e := by
    rw [lookup_resolved ok, declared] at he
    exact Option.some.inj he
  cases hbody : st.store.heap.body? m'.stamp with
  | none =>
    have settles : st.store.heap.Settles (.named m' d.name args') := hbody
    exact absurd (Heap.unfold_of_settles settles) (hu _ _ _)
  | some body =>
    obtain ⟨overBody, applied⟩ := built body hbody
    have arity : args.length = d.arity := by
      rw [← arity, hargs.length_eq, List.length_map]
    exact ⟨st, body, rfl, sound, overBody, arity, same_trans applied (d.applied_congr hargs),
      (sound.grounded_of_resolvedOver based).unfold_named hbody⟩

/-- A reference to a declaration and the body of the declaration, with the arguments written in the
place of the parameters, are resolved to equal types.  The body has no delegation, no predicate and
no variables but the parameters, and the arguments have no variables.  Neither result is a name that
has lost its body, and powers that are equal as they are written have equal values. -/
theorem replaceable (h : c.Reachable) (h' : c'.Reachable)
    (agree : c.session.registry.Agrees c'.session.registry) {d : Declaration}
    (declared : c.session.registry.lookup d.name = some d)
    (plain : d.body.Throughout (Plain d.letters)) {m : Mark} {args : List TypeExpr}
    (closed : ∀ t ∈ args, t.isClosed = true)
    (coherent : Numeral.Coherent fun x => ∃ t ∈ d.body :: args, .number x ∈ t.subterms)
    (can : c.CanMake (.resolve key (.reference m d.name args) []))
    (can' : c'.CanMake (.resolve key' (d.body.substitute (d.binding args)) []))
    (ok : outcome (resolveWith key (.reference m d.name args) []) c.session = (.ok u, s))
    (ok' : outcome (resolveWith key' (d.body.substitute (d.binding args)) []) c'.session =
      (.ok u', s'))
    (hu : u.Unnamed) (hu' : u'.Unnamed) : u.same u' = true := by
  obtain ⟨st, w, rfl, sound, based, arity, applied, rfl⟩ :=
    h.resolved_reference declared can ok hu
  obtain ⟨st', w', rfl, sound', based', same', rfl⟩ := h'.resolved can' ok'
  have agree : st.registry.Agrees st'.registry := fun name e e' he he' =>
    agree name e e' (lookup_resolved ok name ▸ he) (lookup_resolved ok' name ▸ he')
  have counts {t : TypeExpr} (ht : t ∈ d.body :: args) :
      t.Throughout (Counts fun x => ∃ t ∈ d.body :: args, .number x ∈ t.subterms) := by
    intro v hv
    cases v with
    | number x => exact ⟨t, ht, hv⟩
    | _ => trivial
  have replaced := d.same_applied coherent arity plain (counts List.mem_cons_self)
    fun t ht => solid_of_counts (closed t ht) (counts (List.mem_cons_of_mem _ ht))
  have same : w.same w' = true := same_trans applied (same_symm (same_trans same' replaced))
  exact sound.wired.same_unfold sound'.wired agree based based'
    (sound.grounded_of_resolvedOver based)
    (sound'.grounded_of_resolvedOver based') same hu hu'

/-! ### A list with a parameter -/

/-- A list of a variable and of nothing at all. -/
def padded : Declaration :=
  ⟨"f", [⟨none, ⟨"A", none⟩⟩],
    .list (.written none) [.typeVariable (.written none) ⟨"A", none⟩, .unit (.written none)], none⟩

/-- A client that has declared it, and has made a resolver. -/
def padding : Client :=
  ((start .empty).after (.declare padded)).after (.newResolver 1 1)

/-- The list for nothing at all. -/
def paddedName : TypeExpr :=
  .reference (.written none) "f" [.unit (.written none)]

lemma resolver_padding : (padding.session.store.resolver 1).restart = .ofBudget 1 1 := by
  have session : padding.session =
      Action.withResolver ⟨⟨Registry.builtins ++ [padded], []⟩, .empty⟩ 1 1 := by rfl
  simp [session, Action.withResolver, Store.resolver, Store.setResolver, Store.empty,
    Resolver.restart, Resolver.ofBudget]

lemma outcome_paddedName : ∃ e : Expanding,
    outcome (expand padding.session.registry [] none paddedName)
      ⟨padding.session.store, .ofBudget 1 1⟩ =
        (.ok (.named ⟨none, 2⟩ "f" [.unit (.written none)]), e) ∧
      e.resolver.pending = [] ∧
      e.resolver.expanded = [.named ⟨none, 2⟩ "f" [.unit (.written none)]] ∧
      e.store.heap = Heap.empty.setBody 2 (.list ⟨none, 3⟩ [.unit (.written none)]) := by
  have lookup : padding.session.registry.lookup "f" = some padded := by rfl
  have memo : padding.session.registry.memoized
      (.named ⟨none, 0⟩ "f" [.unit ⟨none, 0⟩]) = none := by rfl
  have next : padding.session.store.nextStamp = 2 := by rfl
  have heap : padding.session.store.heap = .empty := by rfl
  simp [Expansion.expand, outcome_bind, Resolver.ofBudget, Expansion.expandAt, Expansion.expandIn,
    Expansion.declarationOf, lookup, Expansion.expandAll, padded, paddedName, Declaration.arity,
    Expansion.outcome_reference, Expansion.known?, memo, Expansion.enter, same, Mark.written,
    Expansion.remark, Except.map, listOf, withoutRepeats, next, heap, Expansion.typeVariable,
    Field.find?, Declaration.binding, Declaration.letters]

lemma ok_paddedName : ∃ s, outcome (resolveWith 1 paddedName []) padding.session =
    (.ok (.list ⟨none, 3⟩ [.unit (.written none)]), s) := by
  obtain ⟨e, run, pending, expanded, heap⟩ := outcome_paddedName
  have productive : e.store.heap.checkProductive e.resolver.expanded = .ok () := by
    rw [heap, expanded]
    simp [Heap.checkProductive, Heap.walk, Heap.walkWith, Heap.body?, Heap.setBody,
      Heap.empty, Std.HashMap.size_insert]
  have chain : e.store.heap.Chain (.named ⟨none, 2⟩ "f" [.unit (.written none)]) [2]
      (.list ⟨none, 3⟩ [.unit (.written none)]) := by
    rw [heap]
    exact .step (by simp [Heap.body?, Heap.setBody]) (.done trivial)
  have out := Action.outcome_resolveWith (resolver_padding ▸ run) pending productive
  rw [chain.unfold_eq] at out
  exact ⟨_, out⟩

lemma replaced_padded : padded.body.substitute (padded.binding [.unit (.written none)]) =
    .list (.written none) [.unit (.written none)] := by
  simp [padded, substitute, substituteAll, Declaration.binding, Declaration.letters, Field.find?,
    listOf, withoutRepeats, same]

lemma ok_replaced : ∃ s,
    outcome (resolveWith 1 (.list (.written none) [.unit (.written none)]) []) padding.session =
      (.ok (.list ⟨none, 2⟩ [.unit (.written none)]), s) := by
  obtain ⟨e, run, pending, expanded⟩ : ∃ e : Expanding,
      outcome (expand padding.session.registry [] none
        (.list (.written none) [.unit (.written none)]))
        ⟨padding.session.store, .ofBudget 1 1⟩ =
          (.ok (.list ⟨none, 2⟩ [.unit (.written none)]), e) ∧
        e.resolver.pending = [] ∧ e.resolver.expanded = [] := by
    have next : padding.session.store.nextStamp = 2 := by rfl
    simp [Expansion.expand, outcome_bind, Resolver.ofBudget, Expansion.expandAt, Expansion.expandIn,
      Expansion.expandAll, Mark.written, Expansion.remark, Except.map, listOf, withoutRepeats, next]
  have productive : e.store.heap.checkProductive e.resolver.expanded = .ok () := by
    rw [expanded]
    rfl
  have out := Action.outcome_resolveWith (resolver_padding ▸ run) pending productive
  have settles : e.store.heap.Settles (.list ⟨none, 2⟩ [.unit (.written none)]) := trivial
  rw [Heap.unfold_of_settles settles] at out
  exact ⟨_, out⟩

lemma reachable_padding : padding.Reachable := by
  have body : padded.body.Written := throughout_iff.2 ⟨trivial, by
    simp only [padded, parts, List.forall_mem_cons]
    exact ⟨written_variable "A", written_unit, by simp⟩⟩
  have declare : (start .empty).CanMake (.declare padded) := body.over
  exact ((Reachable.start List.mem_cons_self).call declare).call trivial

lemma plain_padded : padded.body.Throughout (Plain padded.letters) := by
  have unit : Throughout (Plain padded.letters) (.unit (.written none)) :=
    throughout_iff.2 ⟨trivial, by simp [parts]⟩
  have variable' : Throughout (Plain padded.letters) (.typeVariable (.written none) ⟨"A", none⟩) :=
    throughout_iff.2 ⟨⟨rfl, List.mem_cons_self⟩, by simp [parts]⟩
  exact throughout_iff.2 ⟨trivial, by
    simp only [padded, parts, List.forall_mem_cons]
    exact ⟨variable', unit, by simp⟩⟩

/-- The list for nothing at all is what its body becomes: a list of one member, as the other is
equal. -/
theorem replaceable_padded : ∃ (u u' : TypeExpr) (s s' : Session),
    outcome (resolveWith 1 paddedName []) padding.session = (.ok u, s) ∧
    outcome (resolveWith 1 (padded.body.substitute (padded.binding [.unit (.written none)])) [])
      padding.session = (.ok u', s') ∧ u.same u' = true := by
  obtain ⟨s, ok⟩ := ok_paddedName
  obtain ⟨s', ok'⟩ := ok_replaced
  rw [← replaced_padded] at ok'
  have agree : padding.session.registry.Agrees padding.session.registry :=
    fun _ _ _ h h' => Option.some.inj (h.symm.trans h')
  have name : paddedName.Written :=
    throughout_iff.2 ⟨trivial, List.forall_mem_singleton.2 written_unit⟩
  have list : Written (.list (.written none) [.unit (.written none)]) :=
    throughout_iff.2 ⟨trivial, List.forall_mem_singleton.2 written_unit⟩
  refine ⟨_, _, s, s', ok, ok', replaceable reachable_padding reachable_padding agree rfl
    plain_padded (List.forall_mem_singleton.2 rfl) ?_ ?_ ?_ ok ok' ?_ ?_⟩
  · rintro x y ⟨t, ht, hx⟩
    simp only [List.mem_cons, List.not_mem_nil, or_false] at ht
    rcases ht with rfl | rfl <;> simp [padded, subterms, subtermsOfAll] at hx
  · exact ⟨by decide, name.over, by simp⟩
  · exact ⟨by decide, replaced_padded ▸ list.over, by simp⟩
  · rintro m name args ⟨⟩
  · rintro m name args ⟨⟩

/-! ### A list that has lost its body -/

/-- A list of a variable and of a number that is too large. -/
def burdened : Declaration :=
  ⟨"f", [⟨none, ⟨"A", none⟩⟩],
    .list (.written none) [.typeVariable (.written none) ⟨"A", none⟩,
      .reference (.written none) "a" []], none⟩

/-- A client that has declared it together with the number, and has made a resolver. -/
def burdening : Client :=
  ((start .empty).after (.load [burdened, oversized])).after (.newResolver 2 2)

/-- The client after it has resolved the list for nothing at all, which fails. -/
def jammed : Client :=
  burdening.after (.resolve 1 paddedName [])

/-- The list, and the number in it, without bodies. -/
def jammedName : TypeExpr :=
  .named ⟨none, 2⟩ "f" [.unit (.written none)]

/-- The state in which the expansion stops. -/
def jam : Expanding :=
  enter (enter ⟨burdening.session.store, .ofBudget 2 2⟩ jammedName) (.named ⟨none, 3⟩ "a" [])

lemma outcome_jam :
    outcome (expand burdening.session.registry [] none paddedName)
      ⟨burdening.session.store, .ofBudget 2 2⟩ = (.error (.arithmetic .overflow), jam) := by
  have lookup : burdening.session.registry.lookup "f" = some burdened := by rfl
  have lookup' : burdening.session.registry.lookup "a" = some oversized := by rfl
  have memo : burdening.session.registry.memoized
      (.named ⟨none, 0⟩ "f" [.unit ⟨none, 0⟩]) = none := by rfl
  have memo' : burdening.session.registry.memoized (.named ⟨none, 0⟩ "a" []) = none := by rfl
  have next : burdening.session.store.nextStamp = 2 := by rfl
  simp [expand, outcome_bind, Resolver.ofBudget, expandAt, expandIn, declarationOf, lookup, lookup',
    expandAll, burdened, oversized, paddedName, Declaration.arity, outcome_reference, known?, memo,
    memo', enter, same, Mark.written, next, Expansion.typeVariable, numeral_tooLarge, Field.find?,
    Declaration.binding, Declaration.letters, jam, jammedName]

lemma jammed_session : jammed.session =
    ⟨burdening.session.registry, jam.store.setResolver 1 jam.resolver⟩ := by
  have resolver : (burdening.session.store.resolver 1).restart = .ofBudget 2 2 := by
    have session : burdening.session =
        withResolver ⟨⟨Registry.builtins ++ [burdened, oversized], []⟩, .empty⟩ 2 2 := by rfl
    simp [session, withResolver, Store.resolver, Store.setResolver, Store.empty,
      Resolver.restart, Resolver.ofBudget]
  simp only [jammed, after, Call.action, resolveWith, outcome_bind, outcome_get,
    outcome_resolving, outcome_runExpansion, List.mapM_nil, pure_bind, resolver, outcome_jam,
    Fault.isRegular]
  rfl

lemma resolver_jammed : jammed.session.store.resolver 1 = jam.resolver := by
  rw [jammed_session]
  simp [Store.resolver, Store.setResolver]

lemma heap_jammed : jammed.session.store.heap = .empty := by
  rw [jammed_session]
  rfl

/-- Names without bodies lead nowhere. -/
lemma checkProductive_jam : jammed.session.store.heap.checkProductive jam.resolver.expanded =
    .ok () := by
  rw [heap_jammed]
  simp [jam, enter, Resolver.ofBudget, jammedName, Heap.checkProductive, Heap.walk, Heap.walkWith,
    Heap.body?, Heap.empty, bind, Except.bind, pure, Except.pure]

/-- An expansion that makes no bodies and notes no conditions succeeds on the jammed session. -/
lemma ok_jammed {t w : TypeExpr} {e : Expanding} (settles : jammed.session.store.heap.Settles w)
    (run : outcome (expand jammed.session.registry [] none t)
      ⟨jammed.session.store, jam.resolver.restart⟩ = (.ok w, e))
    (unconditional : e.resolver.pending = [])
    (expanded : e.resolver.expanded = jam.resolver.expanded)
    (heap : e.store.heap = jammed.session.store.heap) :
    ∃ s, outcome (resolveWith 1 t []) jammed.session = (.ok w, s) := by
  have productive : e.store.heap.checkProductive e.resolver.expanded = .ok () := by
    rw [heap, expanded]
    exact checkProductive_jam
  have out := outcome_resolveWith (resolver_jammed ▸ run) unconditional productive
  rw [heap, Heap.unfold_of_settles settles] at out
  exact ⟨_, out⟩

lemma ok_jammedName : ∃ s, outcome (resolveWith 1 paddedName []) jammed.session =
    (.ok jammedName, s) := by
  have lookup : jammed.session.registry.lookup "f" = some burdened := by
    rw [jammed_session]
    rfl
  have settles : jammed.session.store.heap.Settles jammedName := by
    rw [heap_jammed]
    simp [Heap.Settles, jammedName, Heap.body?, Heap.empty]
  refine ok_jammed (e := ⟨jammed.session.store, jam.resolver.restart⟩) settles ?_ rfl rfl rfl
  simp [expand, outcome_bind, expandAt, expandIn, declarationOf, lookup, expandAll, burdened,
    paddedName, Declaration.arity, outcome_reference, known?, jam, enter, Resolver.ofBudget,
    Resolver.restart, jammedName, same, sameAll]

lemma replaced_burdened :
    burdened.body.substitute (burdened.binding [.unit (.written none)]) =
      .list (.written none) [.unit (.written none), .reference (.written none) "a" []] := by
  simp [burdened, substitute, substituteAll, Declaration.binding, Declaration.letters, Field.find?,
    listOf, withoutRepeats, same]

lemma ok_jammedList : ∃ s,
    outcome (resolveWith 1 (burdened.body.substitute (burdened.binding [.unit (.written none)])) [])
      jammed.session =
      (.ok (.list ⟨none, 4⟩ [.unit (.written none), .named ⟨none, 3⟩ "a" []]), s) := by
  have lookup : jammed.session.registry.lookup "a" = some oversized := by
    rw [jammed_session]
    rfl
  have next : jammed.session.store.nextStamp = 4 := by
    rw [jammed_session]
    rfl
  rw [replaced_burdened]
  obtain ⟨e, run, pending, expanded, heap⟩ : ∃ e : Expanding,
      outcome (expand jammed.session.registry [] none
        (.list (.written none) [.unit (.written none), .reference (.written none) "a" []]))
        ⟨jammed.session.store, jam.resolver.restart⟩ =
          (.ok (.list ⟨none, 4⟩ [.unit (.written none), .named ⟨none, 3⟩ "a" []]), e) ∧
      e.resolver.pending = [] ∧ e.resolver.expanded = jam.resolver.expanded ∧
      e.store.heap = jammed.session.store.heap := by
    simp [expand, outcome_bind, expandAt, expandIn, declarationOf, lookup, expandAll, oversized,
      Declaration.arity, outcome_reference, known?, jam, enter, Resolver.ofBudget,
      Resolver.restart, jammedName, same, sameAll, listOf, withoutRepeats, Mark.written,
      Expansion.remark, Except.map, next]
  exact ok_jammed trivial run pending expanded heap

lemma reachable_burdening : burdening.Reachable := by
  have list : burdened.body.Written := throughout_iff.2 ⟨trivial, by
    simp only [burdened, parts, List.forall_mem_cons]
    exact ⟨written_variable "A", written_name "a", by simp⟩⟩
  have number : oversized.body.Written := throughout_number (fun _ => trivial) _
  have load : (start .empty).CanMake (.load [burdened, oversized]) := by
    simp only [CanMake, List.forall_mem_cons]
    exact ⟨list.over, number.over, by simp⟩
  exact ((Reachable.start List.mem_cons_self).call load).call trivial

lemma plain_burdened : burdened.body.Throughout (Plain burdened.letters) := by
  have name : Throughout (Plain burdened.letters) (.reference (.written none) "a" []) :=
    throughout_iff.2 ⟨trivial, by simp [parts]⟩
  have variable' : Throughout (Plain burdened.letters)
      (.typeVariable (.written none) ⟨"A", none⟩) :=
    throughout_iff.2 ⟨⟨rfl, List.mem_cons_self⟩, by simp [parts]⟩
  exact throughout_iff.2 ⟨trivial, by
    simp only [burdened, parts, List.forall_mem_cons]
    exact ⟨variable', name, by simp⟩⟩

/-- A list that an overflow has left without a body is resolved to its name, while its body with the
argument in the place of the parameter is resolved to a list. -/
theorem not_replaceable_jammed : ∃ (u u' : TypeExpr) (s s' : Session),
    jammed.Reachable ∧ jammed.session.registry.lookup "f" = some burdened ∧
    burdened.body.Throughout (Plain burdened.letters) ∧
    jammed.CanMake (.resolve 1 paddedName []) ∧
    jammed.CanMake (.resolve 1
      (burdened.body.substitute (burdened.binding [.unit (.written none)])) []) ∧
    outcome (resolveWith 1 paddedName []) jammed.session = (.ok u, s) ∧
    outcome (resolveWith 1
      (burdened.body.substitute (burdened.binding [.unit (.written none)])) []) jammed.session =
        (.ok u', s') ∧
    u.same u' = false := by
  obtain ⟨s, ok⟩ := ok_jammedName
  obtain ⟨s', ok'⟩ := ok_jammedList
  have name : paddedName.Written :=
    throughout_iff.2 ⟨trivial, List.forall_mem_singleton.2 written_unit⟩
  have number : Written (.reference (.written none) "a" []) :=
    throughout_iff.2 ⟨trivial, by simp [parts]⟩
  have list : Written (burdened.body.substitute (burdened.binding [.unit (.written none)])) := by
    rw [replaced_burdened]
    exact throughout_iff.2 ⟨trivial, List.forall_mem_cons.2
      ⟨written_unit, List.forall_mem_singleton.2 number⟩⟩
  have made : 1 ∈ jammed.resolvers := resolvers_subset_after _ _ (by decide)
  refine ⟨_, _, s, s', ?_, ?_, plain_burdened, ?_, ?_, ok, ok', ?_⟩
  · exact reachable_burdening.call ⟨by decide, name.over, by simp⟩
  · rw [jammed_session]
    rfl
  · exact ⟨made, name.over, by simp⟩
  · exact ⟨made, list.over, by simp⟩
  · simp [jammedName, same]

end Client

end TypeNotation
