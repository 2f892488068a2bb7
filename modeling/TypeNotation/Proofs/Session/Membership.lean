import TypeNotation.Proofs.Relation.Answers
import TypeNotation.Proofs.Relation.Concrete
import TypeNotation.Proofs.Relation.Measured
import TypeNotation.Proofs.Resolution.Direct
import TypeNotation.Proofs.Session.Declarations

/-!
# Membership in resolved types

Matching a value against what a new resolver returns terminates, whatever the type and the value.
The graph of the type may be cyclic, but it is complete and grounded, and no suspended target stands
where a value is matched.

That is so as long as no record type asks for an attribute that a value finds in its class.  A class
has a class itself, so that a recursive record type of the classes of classes is matched without
end.

Matching does not always end with an answer either.  A power that is not computed is compared by
measure, and an integer beyond the range of doubles has none.  Where the type leads to no such
power, or the power and all numbers of the value have measures, matching gives an answer.
-/

namespace TypeNotation

open TypeExpr Query

namespace Stage

variable {st : Stage}

/-- The settled types that are direct are firm. -/
lemma Sound.firm (sound : st.Sound) (whole : st.Whole) (written : st.registry.Written) :
    st.store.heap.Firm fun t => t.ResolvedOver st.settled ∧ t.Direct where
  part ht _ hu := ⟨ht.1.part (valueParts_subset _ hu), ht.2.part hu⟩
  body {m name args} ht := by
    have node := (resolvedOver_named.1 ht.1).1
    obtain ⟨b, hb⟩ := Option.isSome_iff_exists.1 (whole m name args node)
    obtain ⟨d, hd, -, hbody⟩ := sound.wired.declared node
    obtain ⟨bodyOver, same⟩ := hbody b hb
    have direct : (d.applied args).Direct :=
      d.direct_applied (written.lookup hd) fun a ha => ht.2.part ha
    exact ⟨b, hb, bodyOver, direct.of_same same⟩
  present {m target bindings} ht := ht.2.present m target bindings rfl
  grounded ht := sound.grounded_of_resolvedOver ht.1

/-- The types that a settled type leads to are firm, if the named ones have bodies and there is no
suspended target. -/
lemma Sound.firm_reached (sound : st.Sound) {t : TypeExpr}
    (bodies : ∀ m name args, st.store.heap.Reaches t (.named m name args) →
      (st.store.heap.body? m.stamp).isSome)
    (present : ∀ m target bindings, ¬ st.store.heap.Reaches t (.deferred m target bindings)) :
    st.store.heap.Firm fun u => u.ResolvedOver st.settled ∧ st.store.heap.Reaches t u where
  part hu href hp := ⟨hu.1.part (valueParts_subset _ hp), .part hu.2 href hp⟩
  body {m name args} hu := by
    obtain ⟨b, hb⟩ := Option.isSome_iff_exists.1 (bodies m name args hu.2)
    obtain ⟨d, -, -, declared⟩ := sound.wired.declared (resolvedOver_named.1 hu.1).1
    exact ⟨b, hb, (declared b hb).1, .body hu.2 hb⟩
  present {m target bindings} hu := present m target bindings hu.2
  grounded hu := sound.grounded_of_resolvedOver hu.1

end Stage

namespace Client

variable {c : Client}

/-- If no call has broken off and everything was written, then the result of a new resolver belongs
to a set of types that is firm. -/
lemma firm_of_resolveAnew (h : c.Unbroken) (written : c.session.registry.Written)
    {maxSteps maxDepth : Nat} {t u : TypeExpr} {bindings : List (Field TypeExpr)} (ht : t.Written)
    (hbindings : ∀ b ∈ bindings, b.type.Written) {s : Session}
    (ok : outcome (Action.resolveAnew maxSteps maxDepth t bindings) c.session = (.ok u, s)) :
    ∃ K : TypeExpr → Prop, s.store.heap.Firm K ∧ K u := by
  obtain ⟨st, fin, -⟩ := h.finished
  obtain ⟨st', rfl, -, sound, whole, -, w, rfl, env, henv, hw, same, -⟩ :=
    fin.resolveAnew ht.over (fun b hb => (hbindings b hb).over) ok
  have written' : st'.registry.Written := by
    have keeps := Action.keeps_resolveAnew maxSteps maxDepth t bindings c.session
    rw [ok] at keeps
    exact fun d hd => written d (keeps ▸ hd)
  have direct_env : ∀ f ∈ env, f.type.Direct := fun f hf => by
    obtain ⟨b, hb, -, -, same⟩ := forall₂_exists_left henv f hf
    exact (direct_instantiate (by simp) none (hbindings b hb)).of_same same
  have firm := sound.firm whole written'
  exact ⟨_, firm, firm.unfold ⟨hw, (direct_instantiate direct_env none ht).of_same same⟩⟩

/-- Matching an ordinary value against what a new resolver returns terminates.  Values that find
attributes in a class are ordinary here if no record type asks for a name like those of such
attributes. -/
theorem terminates_contains_of_resolveAnew (h : c.Unbroken)
    (written : c.session.registry.Written) {maxSteps maxDepth : Nat} {t u : TypeExpr}
    {bindings : List (Field TypeExpr)} (ht : t.Written) (hbindings : ∀ b ∈ bindings, b.type.Written)
    {s : Session}
    (ok : outcome (Action.resolveAnew maxSteps maxDepth t bindings) c.session = (.ok u, s))
    (openRecords : Bool) {v : Value}
    (hv : v.Ordinary (∀ w, s.store.heap.Reaches u w → w.PlainFields)) :
    Terminates Halt.Lasting fun depth =>
      (Matcher.mk s.store.heap openRecords).contains depth v u [] := by
  obtain ⟨K, firm, hu⟩ := firm_of_resolveAnew h written ht hbindings ok
  exact terminates_contains (firm.reached hu) (Matcher.ends_lasting fun plain _ hw => plain _ hw)
    openRecords hv u [] .refl Bounds.all_nil

lemma written_nesting : nesting.session.registry.Written := by
  have declared : nesting.session.registry.declarations = Registry.builtins ++ [nest] := by rfl
  intro d hd
  rw [declared] at hd
  rcases List.mem_append.1 hd with hd | hd
  · exact (Registry.over_empty _).declarations d hd
  · rw [List.mem_singleton.1 hd]
    exact written_body_nest

/-- A list in a list is matched against lists of lists of lists in finitely many steps. -/
theorem terminates_contains_nest : ∃ (u : TypeExpr) (s : Session),
    outcome (Action.resolveAnew 1 1 (.reference (.written none) "n" []) []) nesting.session =
      (.ok u, s) ∧
    Terminates Halt.Lasting fun depth =>
      (Matcher.mk s.store.heap true).contains depth (.list [.list []]) u [] := by
  obtain ⟨u, s, ok⟩ := ok_nest
  exact ⟨u, s, ok, terminates_contains_of_resolveAnew unbroken_nesting written_nesting
    (written_name "n") (by simp) ok true (.list (List.forall_mem_singleton.2 (.list (by simp))))⟩

/-! ### Classes of classes -/

/-- Records whose class is such a record again. -/
def mirror : Declaration :=
  ⟨"r", [], .record (.written none) [⟨"__class__", .reference (.written none) "r" []⟩], none⟩

/-- A client that has declared them. -/
def mirroring : Client :=
  (start .empty).after (.declare mirror)

/-- The name of these records, when it is resolved. -/
def mirrorName : TypeExpr := .named ⟨none, 2⟩ "r" []

/-- What it stands for. -/
def mirrorRecord : TypeExpr := .record ⟨none, 3⟩ [⟨"__class__", mirrorName⟩]

/-- The heap after it has been resolved on an empty one. -/
def mirrorHeap : Heap :=
  Heap.empty.setBody 2 mirrorRecord

lemma unfold_mirror : mirrorHeap.unfold mirrorName = mirrorRecord := by
  simp [mirrorHeap, mirrorName, mirrorRecord, Heap.unfold, Heap.unfoldFrom, Heap.body?,
    Heap.setBody, Heap.empty, Std.HashMap.size_insert]

lemma unbroken_mirroring : mirroring.Unbroken := by
  have written : mirror.body.Written :=
    throughout_iff.2 ⟨trivial, List.forall_mem_singleton.2 (written_name "r")⟩
  refine .call (.start List.mem_cons_self) written.over ?_
  rintro fault h
  cases h

lemma ok_mirror : ∃ s : Session,
    outcome (Action.resolveAnew 1 1 (.reference (.written none) "r" []) []) mirroring.session =
      (.ok mirrorRecord, s) ∧ s.store.heap = mirrorHeap := by
  have lookup : mirroring.session.registry.lookup "r" = some mirror := by rfl
  have memo (m : Mark) : mirroring.session.registry.memoized (.named m "r" []) = none := by rfl
  have next : (Action.withResolver mirroring.session 1 1).store.nextStamp = 2 := by rfl
  have heap : (Action.withResolver mirroring.session 1 1).store.heap = .empty := by rfl
  obtain ⟨e, run, unconditional, expanded, heap⟩ : ∃ e : Expanding,
      outcome (Expansion.expand mirroring.session.registry [] none
        (.reference (.written none) "r" []))
        ⟨(Action.withResolver mirroring.session 1 1).store, .ofBudget 1 1⟩ =
          (.ok mirrorName, e) ∧
        e.resolver.pending = [] ∧ e.resolver.expanded = [mirrorName] ∧
        e.store.heap = mirrorHeap := by
    simp [Expansion.expand, outcome_bind, Resolver.ofBudget, Expansion.expandAt,
      Expansion.expandIn, Expansion.declarationOf, lookup, Expansion.expandAll,
      Expansion.expandFields, mirror, Declaration.arity, Expansion.outcome_reference,
      Expansion.known?, memo, Expansion.enter, same, sameAll, Mark.written, Expansion.remark,
      Except.map, next, heap, mirrorHeap, mirrorName, mirrorRecord]
  have productive : e.store.heap.checkProductive e.resolver.expanded = .ok () := by
    rw [heap, expanded]
    simp [mirrorHeap, mirrorName, mirrorRecord, Heap.checkProductive, Heap.walk, Heap.walkWith,
      Heap.body?, Heap.setBody, Heap.empty, Std.HashMap.size_insert]
  have ok := Action.outcome_resolveAnew run unconditional productive
  rw [heap, unfold_mirror] at ok
  exact ⟨_, ok, heap⟩

/-- Each depth is spent on the class of the class before. -/
lemma contains_mirror (depth : Nat) (slots : Option (List Slot)) :
    (Matcher.mk mirrorHeap true).contains depth (.callable slots) mirrorName [] =
        .error .exhausted ∧
      (Matcher.mk mirrorHeap true).contains depth (.callable slots) mirrorRecord [] =
        .error .exhausted := by
  induction depth generalizing slots with
  | zero => exact ⟨rfl, rfl⟩
  | succ depth ih =>
    constructor
    · show (Matcher.mk mirrorHeap true).contains depth (.callable slots)
        (mirrorHeap.unfold mirrorName) [] = _
      rw [unfold_mirror]
      exact (ih slots).2
    · show (Matcher.mk mirrorHeap true).contains depth (.callable none) mirrorName [] >>= _ = _
      rw [(ih none).1]
      rfl

/-- Matching a constructed value against records whose class is such a record again does not end
where records are open. -/
theorem not_terminates_contains_mirror :
    mirroring.Unbroken ∧ ∃ (u : TypeExpr) (s : Session),
      outcome (Action.resolveAnew 1 1 (.reference (.written none) "r" []) []) mirroring.session =
        (.ok u, s) ∧
      ∀ depth, (Matcher.mk s.store.heap true).contains depth (.tagged "x" []) u [] =
        .error .exhausted := by
  obtain ⟨s, ok, heap⟩ := ok_mirror
  refine ⟨unbroken_mirroring, mirrorRecord, s, ok, fun depth => ?_⟩
  rw [heap]
  cases depth with
  | zero => rfl
  | succ depth =>
    show (Matcher.mk mirrorHeap true).contains depth (.callable _) mirrorName [] >>= _ = _
    rw [(contains_mirror depth _).1]
    rfl

/-! ### Answers -/

/-- Matching an ordinary value against a type that a client holds gives an answer, if all named
types that it leads to have bodies, no suspended target is among them, and powers that are not
computed have measures, as well as the numbers in the value if there is such a power.  Values that
find attributes in a class are ordinary here if no record type asks for a name like those of such
attributes.  A type taken as a value is not matched but compared. -/
theorem answers_matchesType (h : c.Reachable) {t : TypeExpr} (ht : t ∈ c.held)
    (bodies : ∀ m name args, c.session.store.heap.Reaches t (.named m name args) →
      (c.session.store.heap.body? m.stamp).isSome)
    (present : ∀ m target bindings, ¬ c.session.store.heap.Reaches t (.deferred m target bindings))
    (measured : ∀ n, c.session.store.heap.Reaches t (.number n) → n.Symbolic → n.Measured)
    {v : Value} (hv : (∃ n, c.session.store.heap.Reaches t (.number n) ∧ n.Symbolic) → v.Measured)
    (ordinary : v.Ordinary (∀ u, c.session.store.heap.Reaches t u → u.PlainFields))
    (openRecords : Bool) :
    ∃ answer, Answers (fun depth =>
      (Matcher.mk c.session.store.heap openRecords).matchesType depth v t) answer := by
  obtain ⟨st, on⟩ := h.on
  rw [← on.session] at bodies present measured hv ordinary ⊢
  have firm := on.sound.firm_reached bodies present
  have plain : (∀ u, st.store.heap.Reaches t u → u.PlainFields) →
      ∀ {u}, u.ResolvedOver st.settled ∧ st.store.heap.Reaches t u → u.PlainFields :=
    fun plain _ hu => plain _ hu.2
  have ends := Matcher.ends_measured plain firm.part (fun ht => ht.1.self)
    fun hn => measured _ hn.2
  have terminates := terminates_contains firm ends openRecords
    ⟨ordinary, fun ⟨n, hn, symbolic⟩ => hv ⟨n, hn.2, symbolic⟩⟩ t [] ⟨on.held t ht, .refl⟩
    Bounds.all_nil
  have matching : (fun depth => (Matcher.mk st.store.heap openRecords).matchesType depth v t) =
      fun depth => (Matcher.mk st.store.heap openRecords).contains depth v t [] := by
    funext depth
    cases v with
    | type a => cases ordinary
    | _ => rfl
  rw [matching]
  exact terminates.answers

/-- One over ten to the four hundredth, which is too small for a double. -/
def sliver : Numeral :=
  .power none (.literal none (.int (10 ^ (400 : Nat)))) (.literal none (.int (-1)))

/-- A client that holds it as a type. -/
def slender : Client :=
  (start .empty).resolvedAnew 1 1 (.number sliver)

lemma value?_sliver : sliver.value? = .ok none := by
  decide +kernel

lemma slender_spec :
    slender.session.store.heap = .empty ∧ slender.held = [.number sliver] := by
  have value := value?_sliver
  unfold sliver at value
  have run : outcome (Expansion.expand (start .empty).session.registry [] none (.number sliver))
      ⟨(Action.withResolver (start .empty).session 1 1).store, .ofBudget 1 1⟩ =
        (.ok (.number sliver), ⟨(Action.withResolver (start .empty).session 1 1).store,
          .ofBudget 1 1⟩) := by
    simp only [Expansion.expand, outcome_bind, outcome_get, Resolver.ofBudget, Expansion.expandAt,
      Expansion.expandIn, sliver, Expansion.numeral, value, outcome_pure]
  rw [slender, resolvedAnew_eq run rfl rfl]
  exact ⟨rfl, rfl⟩

lemma reachable_slender : slender.Reachable :=
  (Reachable.start List.mem_cons_self).resolvedAnew (throughout_number (fun _ => trivial) _)

lemma reaches_sliver {t : TypeExpr} (h : Heap.empty.Reaches (.number sliver) t) :
    t = .number sliver ∨ ∃ p x, t = .number (.literal p x) := by
  induction h with
  | refl => exact .inl rfl
  | part _ _ hv ih =>
    rcases ih with rfl | ⟨p, x, rfl⟩
    · simp only [sliver, valueParts, parts, List.mem_cons, List.not_mem_nil, or_false] at hv
      rcases hv with rfl | rfl <;> exact .inr ⟨_, _, rfl⟩
    · cases hv
  | body _ hbody _ => simp [Heap.body?, Heap.empty] at hbody

/-- The number seven is matched against it with an answer. -/
theorem answers_slender : ∃ answer, Answers (fun depth =>
    (Matcher.mk slender.session.store.heap true).matchesType depth (.number (.int 7))
      (.number sliver)) answer := by
  obtain ⟨heap, held⟩ := slender_spec
  refine answers_matchesType reachable_slender (by simp [held]) ?_ ?_ ?_ ?_ (.number _) true
  · intro m name args h
    rw [heap] at h
    rcases reaches_sliver h with h | ⟨p, x, h⟩ <;> cases h
  · intro m target bindings h
    rw [heap] at h
    rcases reaches_sliver h with h | ⟨p, x, h⟩ <;> cases h
  · intro n h symbolic
    rw [heap] at h
    rcases reaches_sliver h with h | ⟨p, x, h⟩
    · cases h
      exact Numeral.measured_iff_isOk.2 (by decide +kernel)
    · cases h
      exact absurd symbolic (Numeral.not_symbolic_literal p x)
  · rintro - x (_ | ⟨⟨⟩, _⟩) -
    exact Number.measured_iff_isOk.2 (by decide +kernel)

/-- An integer beyond the range of doubles. -/
def enormous : Number :=
  .int (10 ^ (400 : Nat))

/-- Asking whether an integer beyond the range of doubles is that number fails. -/
theorem not_answers_slender :
    slender.Reachable ∧ .number sliver ∈ slender.held ∧
      (outcome (Question.action (.isMember true (.number enormous) (.number sliver)))
        slender.session).1 = .error (.arithmetic .overflow) := by
  obtain ⟨heap, held⟩ := slender_spec
  refine ⟨reachable_slender, by simp [held], ?_⟩
  have scale : enormous.scale = .error .overflow :=
    Number.scale_eq_overflow (by decide +kernel) (by decide +kernel)
  have number : enormous.isNaN = false := by
    simp only [enormous, Number.isNaN, Number.place, reduceCtorEq, decide_false]
  have question : (Matcher.mk .empty true).matchesType (19999 + 1) (.number enormous)
      (.number sliver) = .error (.arithmetic .overflow) := by
    unfold Matcher.matchesType Matcher.contains
    exact Matcher.holdsNumeral_eq_error number scale value?_sliver
  have bound : Action.depthBound = 19999 + 1 := rfl
  simp only [Question.action, Action.isMember, Action.ask, bound, outcome_bind,
    Action.outcome_askWith, heap, question, Action.faultOf]

end Client

end TypeNotation
