import TypeNotation.Proofs.Relation.Widening
import TypeNotation.Proofs.Relation.Layers
import TypeNotation.Proofs.Session.Growth
import TypeNotation.Proofs.Session.Membership

/-!
# Opening records

A client that writes resolves types, and matches values against them or compares them.  It may do so
with closed records, or with open ones.  Whatever has been matched with closed records is not turned
away with open ones, and what has been found to be a subtype is not found to be none, if the types
reach no complement.

The answer with open records may be missing, however.  A named type may lack a body, a number may
have no measure, and what a value finds in its class may be matched without end; with closed records
the names of a record can tell before any of these is looked at.  Apart from that, matching with
open records ends with yes.
-/

namespace TypeNotation

open TypeExpr Query

namespace Stage

variable {st : Stage}

/-- What a settled type that is direct reaches is settled and direct. -/
lemma Ripe.direct_reaches (ripe : st.Ripe) {t u : TypeExpr} (ht : t.ResolvedOver st.settled)
    (direct : t.Direct) (h : st.store.heap.Reaches t u) :
    u.ResolvedOver st.settled ∧ u.Direct := by
  induction h with
  | refl => exact ⟨ht, direct⟩
  | part _ _ hv ih => exact ⟨ih.1.part (valueParts_subset _ hv), ih.2.part hv⟩
  | @body m name args b _ hb ih =>
    obtain ⟨d, hd, -, declared⟩ := ripe.sound.wired.declared (resolvedOver_named.1 ih.1).1
    obtain ⟨based, same⟩ := declared b hb
    have applied : (d.applied args).Direct :=
      d.direct_applied (ripe.direct.written.lookup hd) fun a ha => ih.2.part ha
    exact ⟨based, applied.of_same same⟩

end Stage

/-- What a written type with written bindings is resolved to is direct. -/
lemma Action.direct_resolveWith {st : Stage} (ripe : st.Ripe) {key : Nat}
    (placed : key < st.store.nextStamp) (free : ¬ st.aside key) {t u : TypeExpr}
    {bindings : List (Field TypeExpr)} (ht : t.Written) (hbindings : ∀ b ∈ bindings, b.type.Written)
    {s : Session} (ok : outcome (resolveWith key t bindings) st.session = (.ok u, s)) :
    u.Direct := by
  obtain ⟨settled, shelf, -, sound, -, -, post⟩ := acts_resolveWith placed free ht.over
    (fun b hb => (hbindings b hb).over) ripe.sound
  have direct := (ripens_resolveWith placed free ht hbindings ripe.sound ripe.direct).1
  rw [ok] at sound direct post
  obtain ⟨-, -, w, unfolds, instantiates⟩ := post u rfl
  have ripe' : Stage.Ripe ⟨s, settled, shelf, st.own, st.active⟩ := ⟨sound, direct⟩
  rw [unfolds]
  exact ripe'.direct_instance ht hbindings instantiates

namespace Client

/-- The types that a client that writes has been given for types that it resolved. -/
inductive Resolved : Client → TypeExpr → Prop
  | given {c : Client} {key : Nat} {t u : TypeExpr} {bindings : List (Field TypeExpr)} {s : Session}
      (h : c.Writes) (can : c.CanMake (.resolve key t bindings))
      (written : (Call.resolve key t bindings).Written)
      (ok : outcome (Action.resolveWith key t bindings) c.session = (.ok u, s)) :
      Resolved (c.after (.resolve key t bindings)) u
  | later {c : Client} {call : Call} {u : TypeExpr} (h : Resolved c u) (can : c.CanMake call)
      (written : call.Written) : Resolved (c.after call) u

namespace Resolved

variable {c : Client} {a b t : TypeExpr}

lemma writes (h : c.Resolved t) : c.Writes := by
  induction h with
  | given h can written _ => exact .call h can written
  | later _ can written ih => exact .call ih can written

lemma held (h : c.Resolved t) : t ∈ c.held := by
  induction h with
  | given _ _ _ ok =>
    simp only [after, Call.action, outcome_bind, ok, outcome_pure]
    exact List.mem_append_right _ (List.mem_singleton_self _)
  | @later c call u _ _ _ ih =>
    unfold after
    rcases outcome call.action c.session with ⟨fault | reply, s⟩
    · exact ih
    · exact List.mem_append_left _ ih

lemma direct (h : c.Resolved t) : t.Direct := by
  induction h with
  | @given c key t u bindings s h can written ok =>
    obtain ⟨st, on⟩ := h.reachable.on
    have on := on.activate (some key)
    have active : some key = (Call.resolve key t bindings).resolver? := rfl
    obtain ⟨placed, free⟩ := on.usable active key can.1 rfl
    have ripe : Stage.Ripe { st with active := some key } :=
      ⟨on.sound, by rw [on.session]; exact h.direct⟩
    exact Action.direct_resolveWith ripe placed free written.1 written.2
      (by rw [on.session]; exact ok)
  | later _ _ _ ih => exact ih

/-- A type that was resolved leads to no suspended target where values are matched. -/
lemma present (h : c.Resolved t) (m : Mark) (target : TypeExpr)
    (bindings : List (Field TypeExpr)) :
    ¬ c.session.store.heap.Reaches t (.deferred m target bindings) := by
  obtain ⟨st, on⟩ := h.writes.reachable.on
  have ripe : st.Ripe := ⟨on.sound, by rw [on.session]; exact h.writes.direct⟩
  rw [← on.session]
  intro reaches
  exact (ripe.direct_reaches (on.held t h.held) h.direct reaches).2.present m target bindings rfl

lemma uncut (h : c.Resolved t)
    (uncut : ∀ u, c.session.store.heap.Reaches t u → u.isComplement = false) :
    c.session.store.heap.Uncut (c.session.store.heap.Reaches t) :=
  Heap.uncut_reaches h.present uncut

end Resolved

end Client

/-- Matching a value against a type meets nothing that would keep it from an answer: all named types
that the type leads to have bodies, powers that are not computed have measures, as well as the
numbers in the value if there is such a power, and the value is ordinary, where one that finds
attributes in a class is so if no record type asks for a name like those of such attributes. -/
structure Heap.Decides (h : Heap) (v : Value) (t : TypeExpr) : Prop where
  bodies : ∀ m name args, h.Reaches t (.named m name args) → (h.body? m.stamp).isSome
  measured : ∀ n, h.Reaches t (.number n) → n.Symbolic → n.Measured
  numbers : (∃ n, h.Reaches t (.number n) ∧ n.Symbolic) → v.Measured
  ordinary : v.Ordinary (∀ u, h.Reaches t u → u.PlainFields)

namespace Client

variable {c : Client} {a b t : TypeExpr}

lemma Resolved.answers_contains (h : c.Resolved t) {v : Value}
    (decides : c.session.store.heap.Decides v t) (openRecords : Bool) :
    ∃ answer, Answers (fun depth =>
      (Matcher.mk c.session.store.heap openRecords).contains depth v t []) answer := by
  obtain ⟨st, on⟩ := h.writes.reachable.on
  have present := h.present
  rw [← on.session] at decides present ⊢
  have firm := on.sound.firm_reached decides.bodies present
  have plain : (∀ u, st.store.heap.Reaches t u → u.PlainFields) →
      ∀ {u}, u.ResolvedOver st.settled ∧ st.store.heap.Reaches t u → u.PlainFields :=
    fun plain _ hu => plain _ hu.2
  have ends := Matcher.ends_measured plain firm.part (fun ht => ht.1.self)
    fun hn => decides.measured _ hn.2
  exact (terminates_contains firm ends openRecords
    ⟨decides.ordinary, fun ⟨n, hn, symbolic⟩ => decides.numbers ⟨n, hn.2, symbolic⟩⟩ t []
    ⟨on.held t h.held, .refl⟩ Bounds.all_nil).answers

/-- Opening records only ever accepts more, among types that a client has resolved.

A value that is matched against a type without complements where records are closed is not turned
away where they are open, and is matched there too unless the answer is missing.  And among types
with neither complements nor delegations, what is a subtype where records are closed is one where
they are open, if there is an answer.  A type taken as a value is not matched but compared. -/
theorem Resolved.accepted_with_open_records (ha : c.Resolved a) (hb : c.Resolved b) :
    ((∀ t, c.session.store.heap.Reaches a t → t.isComplement = false) →
      ∀ v : Value, (∀ t, v ≠ .type t) → ∀ depth,
        (Matcher.mk c.session.store.heap false).matchesType depth v a = .ok true →
          (∀ depth', (Matcher.mk c.session.store.heap true).matchesType depth' v a ≠ .ok false) ∧
          (c.session.store.heap.Decides v a → Answers (fun depth' =>
            (Matcher.mk c.session.store.heap true).matchesType depth' v a) true)) ∧
    ((∀ t, c.session.store.heap.Near a b t → t.isComplement = false ∧ t.isDelegation = false) →
      ∀ depth depth' answer,
        (Matcher.mk c.session.store.heap false).isSubtype depth a b = .ok true →
          (Matcher.mk c.session.store.heap true).isSubtype depth' a b = .ok answer →
            answer = true) := by
  refine ⟨fun uncut v value depth yes => ?_, fun plain depth depth' answer yes answered => ?_⟩
  · have matching (m : Matcher) (depth : Nat) : m.matchesType depth v a =
      m.contains depth v a [] := by
      cases v with
      | type t => exact absurd rfl (value t)
      | _ => rfl
    simp only [matching] at yes ⊢
    have never := Matcher.contains_ne_false (ha.uncut uncut) .refl yes
    refine ⟨never, fun decides => ?_⟩
    obtain ⟨answer, bound, answers⟩ := ha.answers_contains decides true
    cases answer with
    | true => exact ⟨bound, answers⟩
    | false => exact absurd (answers bound (Nat.le_refl bound)) (never bound)
  · have uncut := (ha.uncut fun t ht => (plain t (.inl ht)).1).or
      (hb.uncut fun t ht => (plain t (.inr ht)).1)
    have never := Matcher.isSubtype_ne_false uncut (fun ht => (plain _ ht).2) (.inl .refl)
      (.inr .refl) yes depth'
    cases answer with
    | true => rfl
    | false => exact absurd answered never

/-! ### Records that are known by their names -/

/-- What a new resolver expands a type to has been resolved, if it stands for itself. -/
lemma Writes.resolved (h : c.Writes) {maxSteps maxDepth : Nat} {t u : TypeExpr} {e : Expanding}
    (ht : t.Written)
    (run : outcome (Expansion.expand c.session.registry [] none t)
      ⟨(Action.withResolver c.session maxSteps maxDepth).store, .ofBudget maxSteps maxDepth⟩ =
        (.ok u, e))
    (unconditional : e.resolver.pending = [])
    (productive : e.store.heap.checkProductive e.resolver.expanded = .ok ())
    (settles : e.store.heap.Settles u) : (c.resolvedAnew maxSteps maxDepth t).Resolved u := by
  have made : (c.after (.newResolver maxSteps maxDepth)).Writes := h.call trivial trivial
  have ok := Action.outcome_resolveAnew run unconditional productive
  rw [Action.resolveAnew, outcome_bind, Action.outcome_newResolver,
    Heap.unfold_of_settles settles] at ok
  exact .given made ⟨List.mem_append_right _ (List.mem_singleton_self _), ht.over, by simp⟩
    ⟨ht, by simp⟩ ok

lemma Resolved.resolvedAnew (h : c.Resolved a) {maxSteps maxDepth : Nat} (ht : t.Written) :
    (c.resolvedAnew maxSteps maxDepth t).Resolved a := by
  have made : (c.after (.newResolver maxSteps maxDepth)).Resolved a := h.later trivial trivial
  exact made.later ⟨List.mem_append_right _ (List.mem_singleton_self _), ht.over, by simp⟩
    ⟨ht, by simp⟩

/-- Without bodies, a type reaches only what it consists of. -/
lemma mem_subterms_of_reaches {u : TypeExpr} (h : Heap.empty.Reaches t u) : u ∈ t.subterms := by
  refine h.mem_subterms.resolve_right ?_
  rintro ⟨p, hp, -⟩
  simp [Heap.empty] at hp

/-- Records with a tuple of nothing at all. -/
def singles (m m' : Mark) : TypeExpr :=
  .record m [⟨"k", .tuple m' [.unit (.written none)]⟩]

/-- Records with a list of nothing at all. -/
def multiples (m m' : Mark) : TypeExpr :=
  .record m [⟨"k", .list m' [.unit (.written none)]⟩]

/-- A client that has resolved both. -/
def keyed : Client :=
  ((start .empty).resolvedAnew 1 1 (singles (.written none) (.written none))).resolvedAnew 1 1
    (multiples (.written none) (.written none))

lemma keyed_spec : keyed.session.store.heap = .empty ∧
    keyed.Resolved (singles ⟨none, 3⟩ ⟨none, 2⟩) ∧
      keyed.Resolved (multiples ⟨none, 6⟩ ⟨none, 5⟩) := by
  have single : Written (singles (.written none) (.written none)) :=
    throughout_iff.2 ⟨trivial, List.forall_mem_singleton.2
      (throughout_iff.2 ⟨trivial, List.forall_mem_singleton.2 written_unit⟩)⟩
  have multiple : Written (multiples (.written none) (.written none)) :=
    throughout_iff.2 ⟨trivial, List.forall_mem_singleton.2
      (throughout_iff.2 ⟨trivial, List.forall_mem_singleton.2 written_unit⟩)⟩
  have start : (start .empty).Writes := .start List.mem_cons_self
  have first : ((Client.start .empty).resolvedAnew 1 1
      (singles (.written none) (.written none))).Resolved (singles ⟨none, 3⟩ ⟨none, 2⟩) :=
    start.resolved single rfl rfl rfl trivial
  have second := first.writes
  unfold keyed
  refine ⟨?_, first.resolvedAnew multiple, ?_⟩
  · rw [resolvedAnew_eq (c := Client.start .empty) rfl rfl rfl, resolvedAnew_eq rfl rfl rfl]
    rfl
  · rw [resolvedAnew_eq (c := Client.start .empty) rfl rfl rfl] at second ⊢
    exact second.resolved multiple rfl rfl rfl trivial

lemma plain_keyed
    (h : Heap.empty.Near (singles ⟨none, 3⟩ ⟨none, 2⟩) (multiples ⟨none, 6⟩ ⟨none, 5⟩) t) :
    (t.isComplement = false ∧ t.isDelegation = false) ∧ (∀ m name args, t ≠ .named m name args) ∧
      ∀ n, t ≠ .number n := by
  have among := h.imp mem_subterms_of_reaches mem_subterms_of_reaches
  simp only [singles, multiples, subterms, subtermsOfFields, subtermsOfAll, List.append_nil,
    List.mem_cons, List.not_mem_nil, or_false] at among
  rcases among with (rfl | rfl | rfl) | rfl | rfl | rfl <;> simp [isComplement, isDelegation]

/-- Where records are closed, a record with a tuple of nothing at all is one with a list of it; so
it is where they are open. -/
theorem accepted_with_open_records_keyed :
    let a := singles ⟨none, 3⟩ ⟨none, 2⟩
    let b := multiples ⟨none, 6⟩ ⟨none, 5⟩
    let v := Value.mapping [⟨"k", .tuple [.absent]⟩]
    keyed.Resolved a ∧ keyed.Resolved b ∧
      (Matcher.mk keyed.session.store.heap false).matchesType 3 v a = .ok true ∧
      Answers (fun depth => (Matcher.mk keyed.session.store.heap true).matchesType depth v a) true ∧
      (Matcher.mk keyed.session.store.heap false).isSubtype 3 a b = .ok true ∧
      (Matcher.mk keyed.session.store.heap true).isSubtype 3 a b = .ok true := by
  intro a b v
  obtain ⟨heap, ha, hb⟩ := keyed_spec
  have inside : (Matcher.mk keyed.session.store.heap false).matchesType 3 v a = .ok true := by
    rw [heap]
    cbv
  have below : (Matcher.mk keyed.session.store.heap false).isSubtype 3 a b = .ok true := by
    rw [heap]
    cbv
  have answered : ∃ answer,
      (Matcher.mk keyed.session.store.heap true).isSubtype 3 a b = .ok answer := by
    rw [heap]
    exact ⟨true, by cbv⟩
  have plain : ∀ t, keyed.session.store.heap.Near a b t →
      (t.isComplement = false ∧ t.isDelegation = false) ∧ (∀ m name args, t ≠ .named m name args) ∧
        ∀ n, t ≠ .number n := by
    rw [heap]
    exact fun t => plain_keyed
  have decides : keyed.session.store.heap.Decides v a := {
    bodies := fun m name args ht => absurd rfl ((plain _ (.inl ht)).2.1 m name args)
    measured := fun n ht => absurd rfl ((plain _ (.inl ht)).2.2 n)
    numbers := fun h => h.elim fun n h => absurd rfl ((plain _ (.inl h.1)).2.2 n)
    ordinary := .mapping (List.forall_mem_singleton.2
      (.tuple (List.forall_mem_singleton.2 .absent))) }
  obtain ⟨answer, answered⟩ := answered
  obtain ⟨matching, comparing⟩ := ha.accepted_with_open_records hb
  have accepted := (matching (fun t ht => (plain t (.inl ht)).1.1) v
    (by simp [v]) 3 inside).2 decides
  obtain rfl := comparing (fun t ht => (plain t ht).1) 3 3 answer below answered
  exact ⟨ha, hb, inside, accepted, below, answered⟩

/-! ### Records with a number that has no measure -/

/-- Records with a number that is too small for a double, or with anything and nothing at all. -/
def brittle (m₁ m₂ m₃ m₄ : Mark) : TypeExpr :=
  .union m₄ (.record m₁ [⟨"k", .number sliver⟩])
    (.record m₃ [⟨"k", .typeVariable m₂ ⟨"A", none⟩⟩, ⟨"j", .unit (.written none)⟩])

/-- A client that has resolved it. -/
def unwary : Client :=
  (start .empty).resolvedAnew 1 1
    (brittle (.written none) (.written none) (.written none) (.written none))

lemma outcome_brittle : ∃ e : Expanding,
    outcome (Expansion.expand (start .empty).session.registry [] none
      (brittle (.written none) (.written none) (.written none) (.written none)))
      ⟨(Action.withResolver (start .empty).session 1 1).store, .ofBudget 1 1⟩ =
        (.ok (brittle ⟨none, 2⟩ ⟨none, 3⟩ ⟨none, 4⟩ ⟨none, 5⟩), e) ∧
    e.resolver.pending = [] ∧ e.resolver.expanded = [] ∧ e.store.heap = .empty := by
  have value := value?_sliver
  unfold sliver at value
  simp only [brittle, Expansion.expand, outcome_bind, outcome_get, Resolver.ofBudget,
    Expansion.expandAt, Expansion.expandIn, Expansion.expandFields, sliver, Expansion.numeral,
    value, outcome_pure]
  exact ⟨_, rfl, rfl, rfl, rfl⟩

lemma unwary_spec : unwary.session.store.heap = .empty ∧
    unwary.Resolved (brittle ⟨none, 2⟩ ⟨none, 3⟩ ⟨none, 4⟩ ⟨none, 5⟩) := by
  have variable' : Written (.typeVariable (.written none) ⟨"A", none⟩) :=
    throughout_iff.2 ⟨trivial, by simp [parts]⟩
  have number : Written (.number sliver) := throughout_number (fun _ => trivial) _
  have left : Written (.record (.written none) [⟨"k", .number sliver⟩]) :=
    throughout_iff.2 ⟨trivial, List.forall_mem_singleton.2 number⟩
  have right : Written (.record (.written none) [⟨"k", .typeVariable (.written none) ⟨"A", none⟩⟩,
      ⟨"j", .unit (.written none)⟩]) :=
    throughout_iff.2 ⟨trivial, by simpa [parts] using ⟨variable', written_unit⟩⟩
  have written : Written (brittle (.written none) (.written none) (.written none)
    (.written none)) :=
    throughout_iff.2 ⟨trivial, by simpa [parts, brittle] using ⟨left, right⟩⟩
  obtain ⟨e, run, pending, expanded, heap⟩ := outcome_brittle
  have productive : e.store.heap.checkProductive e.resolver.expanded = .ok () := by
    rw [heap, expanded]
    rfl
  have start : (start .empty).Writes := .start List.mem_cons_self
  refine ⟨?_, start.resolved written run pending productive trivial⟩
  rw [unwary, resolvedAnew_eq run pending productive]
  exact heap

/-- An integer beyond the range of doubles, and nothing at all. -/
def entry : Value :=
  .mapping [⟨"k", .number enormous⟩, ⟨"j", .absent⟩]

lemma contains_brittle (m₁ m₂ m₃ m₄ : Mark) (depth : Nat) :
    (Matcher.mk .empty false).contains (depth + 3) entry (brittle m₁ m₂ m₃ m₄) [] = .ok true ∧
      (Matcher.mk .empty true).contains (depth + 3) entry (brittle m₁ m₂ m₃ m₄) [] =
        .error (.arithmetic .overflow) := by
  have scale : enormous.scale = .error .overflow :=
    Number.scale_eq_overflow (by decide +kernel) (by decide +kernel)
  have isNumber : enormous.isNaN = false := by
    simp only [enormous, Number.isNaN, Number.place, reduceCtorEq, decide_false]
  have inside : (Matcher.mk .empty true).contains (depth + 2) entry
      (.record m₁ [⟨"k", .number sliver⟩]) [] = .error (.arithmetic .overflow) := by
    show Matcher.holdsNumeral (.number enormous) sliver >>= _ = _
    rw [Matcher.holdsNumeral_eq_error isNumber scale value?_sliver]
    rfl
  refine ⟨rfl, ?_⟩
  show (Matcher.mk .empty true).contains (depth + 2) entry (.record m₁ [⟨"k", .number sliver⟩]) []
    >>= _ = _
  rw [inside]
  rfl

/-- Where records are closed, the names of an entry tell that its number need not be looked at;
where they are open, it is compared with one that is not computed, which fails. -/
theorem not_accepted_brittle :
    let t := brittle ⟨none, 2⟩ ⟨none, 3⟩ ⟨none, 4⟩ ⟨none, 5⟩
    unwary.Resolved t ∧
      (∀ u, unwary.session.store.heap.Reaches t u → u.isComplement = false) ∧
      (outcome (Action.isMember false entry t) unwary.session).1 = .ok true ∧
      (outcome (Action.isMember true entry t) unwary.session).1 =
        .error (.arithmetic .overflow) := by
  intro t
  obtain ⟨heap, resolved⟩ := unwary_spec
  have uncut : ∀ u, Heap.empty.Reaches t u → u.isComplement = false := by
    intro u hu
    have among := mem_subterms_of_reaches hu
    simp only [t, brittle, sliver, subterms, subtermsOfFields, Numeral.subnumerals, List.map_cons,
      List.map_nil, List.append_nil, List.cons_append, List.nil_append, List.mem_cons,
      List.not_mem_nil, or_false] at among
    rcases among with rfl | rfl | rfl | rfl | rfl | rfl | rfl | rfl <;> rfl
  obtain ⟨closed, opened⟩ := contains_brittle ⟨none, 2⟩ ⟨none, 3⟩ ⟨none, 4⟩ ⟨none, 5⟩ 19997
  have asked {openRecords : Bool} {answer : Query Bool}
      (h : (Matcher.mk .empty openRecords).contains (19997 + 3) entry t [] = answer)
      (undemanding : ∀ u, answer ≠ .error (.demand u)) :
      (outcome (Action.isMember openRecords entry t) unwary.session).1 =
        answer.mapError Action.faultOf := by
    let question (heap : Heap) := (Matcher.mk heap openRecords).matchesType (19997 + 3) entry t
    have found : question unwary.session.store.heap = answer := by
      rw [heap]
      exact h
    exact congrArg Prod.fst (Action.outcome_askWith_of_undemanding found undemanding 19999)
  exact ⟨resolved, heap ▸ uncut, asked closed (by simp), asked opened (by simp)⟩

end Client

end TypeNotation
