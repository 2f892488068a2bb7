import TypeNotation.Proofs.Relation.Layers
import TypeNotation.Proofs.Session.NormalForm

/-!
# Comparisons that come back to themselves

Whether two types overlap and whether one is a subtype of the other are asked in turn where
complements are involved, each time with no pair assumed.  Types that lie in layers are compared in
finitely many steps nevertheless.  But a recursive type may lead from the right operand of a
complement back to the complement, and then the same question may come up again and again.
-/

namespace TypeNotation

open TypeExpr TypeNotation.Action Expansion

namespace Client

/-- Comparing layered types terminates, whatever client holds them, and whether or not records are
open. -/
theorem terminates_comparison (c : Client) {a b : TypeExpr}
    (layered : c.session.store.heap.Layered a b) (openRecords : Bool) :
    (Query.Terminates Halt.Lasting fun depth =>
        (Matcher.mk c.session.store.heap openRecords).isSubtype depth a b) ∧
      Query.Terminates Halt.Lasting fun depth =>
        (Matcher.mk c.session.store.heap openRecords).overlaps depth a b :=
  Matcher.ending_of_layered (m := ⟨c.session.store.heap, openRecords⟩) layered

/-! ### A recursive complement -/

/-- Lists of such lists again, without lists of nothing at all. -/
def peel : Declaration :=
  ⟨"p", [], .complement (.written none) (.list (.written none) [.reference (.written none) "p" []])
    (.list (.written none) [.unit (.written none)]), none⟩

/-- A client that has declared it. -/
def unpeeled : Client :=
  (start .empty).after (.declare peel)

/-- A client that has resolved it. -/
def peeled : Client :=
  unpeeled.resolvedAnew 1 1 (.reference (.written none) "p" [])

/-- Its name, when it is resolved. -/
def peelName : TypeExpr := .named ⟨none, 2⟩ "p" []

/-- The lists from which some are left out. -/
def peelList : TypeExpr := .list ⟨none, 3⟩ [peelName]

/-- The lists that are left out. -/
def peelUnits : TypeExpr := .list ⟨none, 4⟩ [.unit (.written none)]

/-- What it stands for. -/
def peelBody : TypeExpr := .complement ⟨none, 5⟩ peelList peelUnits

/-- The heap after it has been resolved. -/
def peelHeap : Heap := Heap.empty.setBody 2 peelBody

lemma peeled_spec : peeled.session.store.heap = peelHeap ∧ peeled.held = [peelBody] := by
  have lookup : unpeeled.session.registry.lookup "p" = some peel := by rfl
  have memo (m : Mark) : unpeeled.session.registry.memoized (.named m "p" []) = none := by rfl
  have next : (withResolver unpeeled.session 1 1).store.nextStamp = 2 := by rfl
  have heap : (withResolver unpeeled.session 1 1).store.heap = .empty := by rfl
  obtain ⟨e, run, pending, expanded, heap⟩ : ∃ e : Expanding,
      outcome (expand unpeeled.session.registry [] none (.reference (.written none) "p" []))
        ⟨(withResolver unpeeled.session 1 1).store, .ofBudget 1 1⟩ = (.ok peelName, e) ∧
      e.resolver.pending = [] ∧ e.resolver.expanded = [peelName] ∧ e.store.heap = peelHeap := by
    simp [expand, outcome_bind, Resolver.ofBudget, expandAt, expandIn, declarationOf, lookup,
      expandAll, peel, Declaration.arity, outcome_reference, known?, memo, enter, same, sameAll,
      Mark.written, remark, Except.map, listOf, withoutRepeats, next, heap, peelName, peelList,
      peelUnits, peelBody, peelHeap]
  have productive : e.store.heap.checkProductive e.resolver.expanded = .ok () := by
    rw [heap, expanded]
    simp [peelHeap, peelBody, peelList, peelUnits, peelName, Heap.checkProductive, Heap.walk,
      Heap.walkWith, Heap.body?, Heap.setBody, Heap.empty, Std.HashMap.size_insert]
    rfl
  have unfolds : peelHeap.unfold peelName = peelBody := by
    simp [peelHeap, peelBody, peelName, Heap.unfold, Heap.unfoldFrom, Heap.body?, Heap.setBody,
      Heap.empty, Std.HashMap.size_insert]
  rw [peeled, resolvedAnew_eq run pending productive, heap, unfolds]
  exact ⟨heap, rfl⟩

lemma body_peel {k : Nat} {t : TypeExpr} (h : peelHeap.body? k = some t) : t = peelBody := by
  simp only [peelHeap, Heap.body?, Heap.setBody, Heap.empty, Std.HashMap.getElem?_insert] at h
  split at h <;> simp_all

/-- The lists lead to each other, and the lists that are left out to nothing but their members. -/
lemma reaches_peel {t u : TypeExpr} (h : peelHeap.Reaches t u) :
    (t ∈ [peelBody, peelList, peelName, peelUnits, .unit (.written none)] →
      u ∈ [peelBody, peelList, peelName, peelUnits, .unit (.written none)]) ∧
    (t ∈ [peelUnits, .unit (.written none)] → u ∈ [peelUnits, .unit (.written none)]) := by
  have body : peelBody.valueParts = [peelList, peelUnits] := rfl
  have list : peelList.valueParts = [peelName] := rfl
  have units : peelUnits.valueParts = [.unit (.written none)] := rfl
  have unit : (TypeExpr.unit (.written none)).valueParts = [] := rfl
  induction h with
  | refl => exact ⟨id, id⟩
  | @part u v _ href hv ih =>
    refine ⟨fun ht => ?_, fun ht => ?_⟩
    · have hu := ih.1 ht
      simp only [List.mem_cons, List.not_mem_nil, or_false] at hu ⊢
      rcases hu with rfl | rfl | rfl | rfl | rfl
      · rw [body] at hv
        simp only [List.mem_cons, List.not_mem_nil, or_false] at hv
        tauto
      · rw [list] at hv
        exact .inr (.inr (.inl (List.mem_singleton.1 hv)))
      · cases href
      · rw [units] at hv
        exact .inr (.inr (.inr (.inr (List.mem_singleton.1 hv))))
      · rw [unit] at hv
        cases hv
    · have hu := ih.2 ht
      simp only [List.mem_cons, List.not_mem_nil, or_false] at hu ⊢
      rcases hu with rfl | rfl
      · rw [units] at hv
        exact .inr (List.mem_singleton.1 hv)
      · rw [unit] at hv
        cases hv
  | body _ hbody ih =>
    obtain rfl := body_peel hbody
    refine ⟨fun _ => List.mem_cons_self, fun ht => ?_⟩
    have hu := ih.2 ht
    simp [peelUnits] at hu

/-- A recursive complement is compared with the lists it is taken from in finitely many steps. -/
theorem terminates_comparison_peeled : peelBody ∈ peeled.held ∧
    peeled.session.store.heap.Layered peelBody peelList ∧
      (Query.Terminates Halt.Lasting fun depth =>
        (Matcher.mk peeled.session.store.heap true).isSubtype depth peelBody peelList) ∧
      Query.Terminates Halt.Lasting fun depth =>
        (Matcher.mk peeled.session.store.heap true).overlaps depth peelBody peelList := by
  obtain ⟨heap, held⟩ := peeled_spec
  have layered : peeled.session.store.heap.Layered peelBody peelList := by
    rw [heap]
    have near {t : TypeExpr} (ht : peelHeap.Near peelBody peelList t) :
        t = peelBody ∨ t = peelList ∨ t = peelName ∨ t = peelUnits ∨ t = .unit (.written none) := by
      have mem :=
        ht.elim (fun h => (reaches_peel h).1 (by simp)) fun h => (reaches_peel h).1 (by simp)
      simpa using mem
    refine ⟨fun t ht => ?_, fun m target bindings ht => ?_, fun m l r ht back => ?_,
      fun m c body listed ht => ?_⟩
    · rcases near ht with rfl | rfl | rfl | rfl | rfl <;> rfl
    · rcases near ht with h | h | h | h | h <;> cases h
    · -- the only complement is not reached from the lists that are left out
      rcases near ht with h | h | h | h | h <;> cases h
      have mem := (reaches_peel back).2 List.mem_cons_self
      simp [peelUnits] at mem
    · rcases near ht with h | h | h | h | h <;> cases h
  exact ⟨by simp [held], layered, terminates_comparison peeled layered true⟩

/-! ### A recursive list -/

/-- Lists of lists of lists, without end. -/
def spiral : Declaration :=
  ⟨"x", [], .list (.written none) [.reference (.written none) "x" []], none⟩

/-- What of these is not a list of what of these is none of that again. -/
def recoil : Declaration :=
  ⟨"q", [], .complement (.written none) (.reference (.written none) "x" [])
    (.list (.written none) [.complement (.written none) (.reference (.written none) "x" [])
      (.reference (.written none) "q" [])]), none⟩

/-- A client that has declared both. -/
def uncoiled : Client :=
  (start .empty).after (.load [spiral, recoil])

/-- A client that has resolved the first. -/
def coiled : Client :=
  uncoiled.resolvedAnew 1 1 (.reference (.written none) "x" [])

/-- The name of the first, when it is resolved. -/
def spiralName : TypeExpr := .named ⟨none, 2⟩ "x" []

/-- What it stands for. -/
def spiralList : TypeExpr := .list ⟨none, 3⟩ [spiralName]

/-- The heap after it has been resolved. -/
def coiledHeap : Heap := Heap.empty.setBody 2 spiralList

lemma unfold_coiled : coiledHeap.unfold spiralName = spiralList := by
  simp [coiledHeap, spiralList, spiralName, Heap.unfold, Heap.unfoldFrom, Heap.body?, Heap.setBody,
    Heap.empty, Std.HashMap.size_insert]

lemma outcome_spiral : ∃ e : Expanding,
    outcome (expand uncoiled.session.registry [] none (.reference (.written none) "x" []))
      ⟨(withResolver uncoiled.session 1 1).store, .ofBudget 1 1⟩ = (.ok spiralName, e) ∧
    e.resolver.pending = [] ∧ e.resolver.expanded = [spiralName] ∧
    e.store.heap = coiledHeap ∧ e.store.nextStamp = 4 := by
  have lookup : uncoiled.session.registry.lookup "x" = some spiral := by rfl
  have memo (m : Mark) : uncoiled.session.registry.memoized (.named m "x" []) = none := by rfl
  have next : (withResolver uncoiled.session 1 1).store.nextStamp = 2 := by rfl
  have heap : (withResolver uncoiled.session 1 1).store.heap = .empty := by rfl
  simp [expand, outcome_bind, Resolver.ofBudget, expandAt, expandIn, declarationOf, lookup,
    expandAll, spiral, Declaration.arity, outcome_reference, known?, memo, enter, same, sameAll,
    Mark.written, remark, Except.map, listOf, withoutRepeats, next, heap, spiralName, spiralList,
    coiledHeap]

lemma coiled_spec :
    coiled.session.registry = uncoiled.session.registry.memoize [spiralName] ∧
      coiled.session.store.heap = coiledHeap ∧ coiled.session.store.nextStamp = 4 ∧
      coiled.held = [spiralList] := by
  obtain ⟨e, run, pending, expanded, heap, next⟩ := outcome_spiral
  have productive : e.store.heap.checkProductive e.resolver.expanded = .ok () := by
    rw [heap, expanded]
    simp [coiledHeap, spiralList, spiralName, Heap.checkProductive, Heap.walk, Heap.walkWith,
      Heap.body?, Heap.setBody, Heap.empty, Std.HashMap.size_insert]
  rw [coiled, resolvedAnew_eq run pending productive, heap, unfold_coiled]
  exact ⟨congrArg uncoiled.session.registry.memoize expanded, heap, next, rfl⟩

/-! ### A complement that leads back to itself -/

/-- A client that has resolved both. -/
def circling : Client :=
  coiled.resolvedAnew 1 1 (.reference (.written none) "q" [])

/-- The name of the second, when it is resolved. -/
def recoilName : TypeExpr := .named ⟨none, 5⟩ "q" []

/-- The members of the lists that are left out. -/
def recoilMember : TypeExpr := .complement ⟨none, 6⟩ spiralName recoilName

/-- What the second stands for. -/
def recoilBody : TypeExpr := .complement ⟨none, 8⟩ spiralName (.list ⟨none, 7⟩ [recoilMember])

/-- The heap after both have been resolved. -/
def circlingHeap : Heap := coiledHeap.setBody 5 recoilBody

lemma body_spiral : circlingHeap.body? 2 = some spiralList := by
  simp [circlingHeap, coiledHeap, Heap.body?, Heap.setBody, Heap.empty, Std.HashMap.getElem_insert]

lemma body_recoil : circlingHeap.body? 5 = some recoilBody := by
  simp [circlingHeap, Heap.body?, Heap.setBody]

lemma size_circlingHeap : circlingHeap.bodies.size = 2 := by
  simp [circlingHeap, coiledHeap, Heap.setBody, Heap.empty, Std.HashMap.size_insert]

lemma unfold_spiral : circlingHeap.unfold spiralName = spiralList := by
  simp [spiralName, spiralList, Heap.unfold, size_circlingHeap, Heap.unfoldFrom, body_spiral]

lemma unfold_recoil : circlingHeap.unfold recoilName = recoilBody := by
  simp [recoilName, recoilBody, Heap.unfold, size_circlingHeap, Heap.unfoldFrom, body_recoil]

lemma reveal_spiral : circlingHeap.reveal spiralName = .ok spiralList :=
  congrArg Except.ok unfold_spiral

lemma checkProductive_circling : circlingHeap.checkProductive [recoilName] = .ok () := by
  simp [recoilName, Heap.checkProductive, size_circlingHeap, Heap.walk, Heap.walkWith, body_recoil,
    recoilBody, spiralName, body_spiral, spiralList]
  rfl

lemma circling_spec :
    circling.session.store.heap = circlingHeap ∧ circling.held = [spiralList, recoilBody] := by
  obtain ⟨registry, heap, next, held⟩ := coiled_spec
  have none : uncoiled.session.registry.memo = [] := by rfl
  have spiralLookup : coiled.session.registry.lookup "x" = some spiral := by
    rw [registry]
    rfl
  have recoilLookup : coiled.session.registry.lookup "q" = some recoil := by
    rw [registry]
    rfl
  have spiralMemo (m : Mark) :
      coiled.session.registry.memoized (.named m "x" []) = some spiralName := by
    have same : spiralName.same (.named m "x" []) = true := by simp [spiralName, same, sameAll]
    rw [registry]
    simp [Registry.memoized, Registry.memoize, Registry.remember, none, same]
  have recoilMemo (m : Mark) : coiled.session.registry.memoized (.named m "q" []) = .none := by
    have other : spiralName.same (.named m "q" []) = false := by simp [spiralName, same]
    rw [registry]
    simp [Registry.memoized, Registry.memoize, Registry.remember, none, other]
  have next : (withResolver coiled.session 1 1).store.nextStamp = 5 := congrArg (· + 1) next
  have heap : (withResolver coiled.session 1 1).store.heap = coiledHeap := heap
  obtain ⟨e, run, pending, expanded, heap⟩ : ∃ e : Expanding,
      outcome (expand coiled.session.registry [] .none (.reference (.written .none) "q" []))
        ⟨(withResolver coiled.session 1 1).store, .ofBudget 1 1⟩ = (.ok recoilName, e) ∧
      e.resolver.pending = [] ∧ e.resolver.expanded = [recoilName] ∧
      e.store.heap = circlingHeap := by
    simp [expand, outcome_bind, Resolver.ofBudget, expandAt, expandIn, declarationOf, spiralLookup,
      recoilLookup, expandAll, spiral, recoil, Declaration.arity, outcome_reference, known?,
      spiralMemo, recoilMemo, enter, same, sameAll, Mark.written, remark, Except.map, listOf,
      withoutRepeats, next, heap, recoilName, circlingHeap, recoilBody, recoilMember]
  have productive : e.store.heap.checkProductive e.resolver.expanded = .ok () := by
    rw [heap, expanded]
    exact checkProductive_circling
  rw [circling, resolvedAnew_eq run pending productive, heap, unfold_recoil, held]
  exact ⟨heap, rfl⟩

lemma reachable_circling : circling.Reachable := by
  have member : Written (.complement (.written none) (.reference (.written none) "x" [])
      (.reference (.written none) "q" [])) :=
    throughout_iff.2 ⟨trivial, by simpa [parts] using ⟨written_name "x", written_name "q"⟩⟩
  have spiralWritten : spiral.body.Written :=
    throughout_iff.2 ⟨trivial, List.forall_mem_singleton.2 (written_name "x")⟩
  have recoilWritten : recoil.body.Written := by
    refine throughout_iff.2 ⟨trivial, ?_⟩
    simpa [parts, recoil] using
      ⟨written_name "x", throughout_iff.2 ⟨trivial, List.forall_mem_singleton.2 member⟩⟩
  have can : (start .empty).CanMake (.load [spiral, recoil]) := by
    simpa [CanMake] using ⟨spiralWritten.over, recoilWritten.over⟩
  have declared : uncoiled.Reachable := (Reachable.start List.mem_cons_self).call can
  exact (declared.resolvedAnew (written_name "x").over).resolvedAnew (written_name "q").over

section Circle

variable {openRecords : Bool}

/-- A matcher on that heap. -/
def circler (openRecords : Bool) : Matcher := ⟨circlingHeap, openRecords⟩

lemma overlap_spiral (depth : Nat) (assumed : Assumed) :
    (circler openRecords).overlap depth assumed spiralName spiralList = .error .exhausted ∨
      (circler openRecords).overlap depth assumed spiralName spiralList = .ok true := by
  by_cases hmem : (spiralName, spiralList) ∈ assumed
  · cases depth with
    | zero => exact .inl rfl
    | succ depth => exact .inr (if_pos hmem)
  · rcases depth with _ | _ | depth
    · exact .inl rfl
    · refine .inl ((if_neg hmem).trans ?_)
      simp only [circler, reveal_spiral]
      rfl
    · refine .inr ((if_neg hmem).trans ?_)
      simp only [circler, reveal_spiral]
      rfl

lemma subtype_spiral (depth : Nat) (assumed : Assumed) :
    (circler openRecords).subtype depth assumed [] [] spiralList spiralName =
        .error .exhausted ∨
      (circler openRecords).subtype depth assumed [] [] spiralList spiralName = .ok true := by
  have whole : spiralList.same spiralList = true := by
    simp [spiralList, spiralName, same, sameAll, sameMembers]
  by_cases hmem : (spiralList, spiralName) ∈ assumed
  · cases depth with
    | zero => exact .inl rfl
    | succ depth => exact .inr (if_pos hmem)
  · rcases depth with _ | _ | depth
    · exact .inl rfl
    · refine .inl ((if_neg hmem).trans ?_)
      simp only [circler, reveal_spiral]
      rfl
    · refine .inr ((if_neg hmem).trans ?_)
      simp only [circler, reveal_spiral]
      show (if spiralList.same spiralList || spiralList.isAny then _ else _) = _
      rw [whole]
      rfl

/-! Each question below has an answer only if one that comes after it has an answer at less
depth. -/

variable {depth : Nat} {assumed : Assumed}

lemma overlap_recoilName (h : ∀ k < depth, ∀ assumed,
      (circler openRecords).overlap k assumed spiralList recoilBody = .error .exhausted) :
    (circler openRecords).overlap depth [] spiralList recoilName = .error .exhausted := by
  cases depth with
  | zero => rfl
  | succ depth =>
    show (circler openRecords).overlap depth [(spiralList, recoilName)]
      (circlingHeap.unfold spiralList) (circlingHeap.unfold recoilName) = _
    rw [unfold_recoil]
    exact h depth (Nat.lt_succ_self _) _

lemma subtype_recoilMember (h : ∀ k < depth,
      (circler openRecords).overlap k [] spiralList recoilName = .error .exhausted) :
    (circler openRecords).subtype depth assumed [] [] spiralList recoilMember =
      .error .exhausted := by
  cases depth with
  | zero => rfl
  | succ depth =>
    have other : spiralList.same recoilMember = false := by simp [spiralList, recoilMember, same]
    show (if spiralList.same recoilMember || recoilMember.isAny then _ else _) = _
    rw [other]
    show (do
      if ← (circler openRecords).subtype depth assumed [] [] spiralList spiralName then
        return !(← (circler openRecords).overlap depth [] spiralList recoilName)
      else return false) = _
    rcases subtype_spiral depth assumed with hx | hx
    · rw [hx]
      rfl
    · rw [hx, h depth (Nat.lt_succ_self _)]
      rfl

lemma subtype_spiralName (h : ∀ k < depth, ∀ assumed,
      (circler openRecords).subtype k assumed [] [] spiralList recoilMember =
        .error .exhausted) :
    (circler openRecords).subtype depth [] [] [] spiralName recoilMember = .error .exhausted := by
  cases depth with
  | zero => rfl
  | succ depth =>
    show (circler openRecords).subtype depth [(spiralName, recoilMember)] [] []
      (circlingHeap.unfold spiralName) (circlingHeap.unfold recoilMember) = _
    rw [unfold_spiral]
    exact h depth (Nat.lt_succ_self _) _

lemma subtype_recoilList (h : ∀ k < depth,
      (circler openRecords).subtype k [] [] [] spiralName recoilMember = .error .exhausted) :
    (circler openRecords).subtype depth [] [] [] spiralList (.list ⟨none, 7⟩ [recoilMember]) =
      .error .exhausted := by
  cases depth with
  | zero => rfl
  | succ depth =>
    have other : spiralList.same (.list ⟨none, 7⟩ [recoilMember]) = false := by
      simp [spiralList, spiralName, recoilMember, same, sameMembers]
    show (if spiralList.same (.list ⟨none, 7⟩ [recoilMember]) ||
      isAny (.list ⟨none, 7⟩ [recoilMember]) then _ else _) = _
    rw [other]
    show Matcher.eachToSome ((circler openRecords).subtype depth [] [] []) [spiralName]
      [recoilMember] = _
    simp only [Matcher.eachToSome, List.allM, List.anyM, h depth (Nat.lt_succ_self _)]
    rfl

lemma overlap_recoilBody (depth : Nat) (assumed : Assumed) :
    (circler openRecords).overlap depth assumed spiralList recoilBody = .error .exhausted := by
  induction depth using Nat.strong_induction_on generalizing assumed with
  | _ depth ih =>
    cases depth with
    | zero => rfl
    | succ depth =>
      show (do
        if ← (circler openRecords).overlap depth assumed spiralName spiralList then
          return !(← (circler openRecords).subtype depth [] [] [] spiralList
            (.list ⟨none, 7⟩ [recoilMember]))
        else return false) = _
      -- once around the circle the depth is less by five
      have below : (circler openRecords).subtype depth [] [] [] spiralList
          (.list ⟨none, 7⟩ [recoilMember]) = .error .exhausted :=
        subtype_recoilList fun k₁ h₁ => subtype_spiralName fun k₂ h₂ _ =>
          subtype_recoilMember fun k₃ h₃ => overlap_recoilName fun k₄ h₄ => ih k₄ (by omega)
      rcases overlap_spiral depth assumed with hx | hx
      · rw [hx]
        rfl
      · rw [hx, below]
        rfl

end Circle

/-- Whether the recursive list and the complement overlap is not answered at any depth. -/
theorem not_terminates_circling :
    circling.Reachable ∧ spiralList ∈ circling.held ∧ recoilBody ∈ circling.held ∧
      ∀ openRecords depth,
        (Matcher.mk circling.session.store.heap openRecords).overlaps depth spiralList recoilBody =
          .error .exhausted := by
  obtain ⟨heap, held⟩ := circling_spec
  rw [heap, held]
  exact ⟨reachable_circling, by simp, by simp, fun openRecords depth => overlap_recoilBody depth []⟩

end Client

end TypeNotation
