import TypeNotation.Proofs.Relation.Refutation
import TypeNotation.Proofs.Session.Comparison

/-!
# The order of two types in a test for overlap

For balanced types the order makes no difference.

A union and a complement are not balanced.  Where the union is taken apart first, its types are held
against the complement one by one, and each may lie in what is subtracted.  Where the complement is
taken apart first, the union would have to lie there as a whole.
-/

namespace TypeNotation

open TypeExpr TypeNotation.Action

namespace Matcher

/-- Balanced types overlap in one order as in the other. -/
theorem overlaps_comm {m : Matcher} {a b : TypeExpr} (balanced : m.heap.Balanced a b)
    {depth depth' : Nat} {forth back : Bool} (hforth : m.overlaps depth a b = .ok forth)
    (hback : m.overlaps depth' b a = .ok back) : forth = back := by
  have apart {a b : TypeExpr} {depth depth' : Nat} (balanced : m.heap.Balanced a b)
      (yes : m.overlaps depth a b = .ok true) (no : m.overlaps depth' b a = .ok false) : False :=
    not_refuted_of_overlap balanced (by simp) yes (refuted_of_overlap balanced.symm no).symm
  cases forth with
  | true =>
    cases back with
    | true => rfl
    | false => exact (apart balanced hforth hback).elim
  | false =>
    cases back with
    | true => exact (apart balanced.symm hback hforth).elim
    | false => rfl

end Matcher

namespace Client

/-- The lists of nothing at all that are not nothing. -/
def remaining : TypeExpr := .complement (.written none) several (.unit (.written none))

lemma balanced_remaining : Heap.empty.Balanced single remaining := by
  have pairs {x y : TypeExpr} (meets : Heap.empty.Meets single remaining x y) :
      x = single ∧ (y = remaining ∨ y = several) ∨
        x = .unit (.written none) ∧ y = .unit (.written none) := by
    induction meets with
    | start => exact .inl ⟨rfl, .inl rfl⟩
    | first _ exposes ih =>
      rcases ih with ⟨rfl, -⟩ | ⟨rfl, -⟩ <;> cases exposes <;> contradiction
    | second _ exposes ih =>
      rcases ih with ⟨rfl, rfl | rfl⟩ | ⟨-, rfl⟩
      · cases exposes with
        | minuend => exact .inl ⟨rfl, .inr rfl⟩
        | revealed href => cases href
      all_goals cases exposes; contradiction
    | inside _ inside ih =>
      rcases ih with ⟨rfl, rfl | rfl⟩ | ⟨rfl, rfl⟩
      · cases inside
      · cases inside with
        | tupleList hx hy => exact .inr ⟨List.mem_singleton.1 hx, List.mem_singleton.1 hy⟩
      · cases inside
  intro x y meets
  rcases pairs meets with ⟨rfl, rfl | rfl⟩ | ⟨rfl, rfl⟩
  · exact ⟨nofun, fun _ => rfl, trivial, trivial⟩
  · exact ⟨nofun, nofun, trivial, trivial⟩
  · exact ⟨nofun, nofun, trivial, trivial⟩

/-- A tuple type overlaps what is left of a list type, in either order. -/
theorem overlaps_remaining :
    Heap.empty.Balanced single remaining ∧
      (Matcher.mk .empty true).overlaps 3 single remaining = .ok true ∧
      ∀ depth answer, (Matcher.mk .empty true).overlaps depth remaining single = .ok answer →
        answer = true := by
  have forth : (Matcher.mk .empty true).overlaps 3 single remaining = .ok true := by cbv
  exact ⟨balanced_remaining, forth, fun depth answer back =>
    (Matcher.overlaps_comm balanced_remaining forth back).symm⟩

/-! ### A union against a complement -/

/-- A client that holds a union and a complement. -/
def divided : Client :=
  ((start .empty).resolvedAnew 1 1 (.union (.written none) (.unit (.written none))
    (.list (.written none) [.unit (.written none)]))).resolvedAnew 1 1
      (.complement (.written none) (.unit (.written none)) (.unit (.written none)))

/-- Nothing at all, or the lists of it. -/
def either : TypeExpr :=
  .union ⟨none, 3⟩ (.unit (.written none)) (.list ⟨none, 2⟩ [.unit (.written none)])

/-- Nothing at all without itself. -/
def neither : TypeExpr :=
  .complement ⟨none, 5⟩ (.unit (.written none)) (.unit (.written none))

lemma divided_spec : divided.session.store.heap = .empty ∧ divided.held = [either, neither] := by
  rw [divided, resolvedAnew_eq (c := start .empty) rfl rfl rfl, resolvedAnew_eq rfl rfl rfl]
  exact ⟨rfl, rfl⟩

lemma reachable_divided : divided.Reachable := by
  have list : Written (.list (.written none) [.unit (.written none)]) :=
    throughout_iff.2 ⟨trivial, List.forall_mem_singleton.2 written_unit⟩
  have union : Written (.union (.written none) (.unit (.written none))
      (.list (.written none) [.unit (.written none)])) :=
    throughout_iff.2 ⟨trivial, by simpa [parts] using ⟨written_unit, list⟩⟩
  have complement :
      Written (.complement (.written none) (.unit (.written none)) (.unit (.written none))) :=
    throughout_iff.2 ⟨trivial, by simpa [parts] using written_unit⟩
  exact ((Reachable.start List.mem_cons_self).resolvedAnew union.over).resolvedAnew complement.over

/-- A union and a complement are found to overlap in one order only. -/
theorem not_overlaps_comm_divided :
    divided.Reachable ∧ either ∈ divided.held ∧ neither ∈ divided.held ∧
      (Matcher.mk divided.session.store.heap true).overlaps 3 either neither = .ok false ∧
      (Matcher.mk divided.session.store.heap true).overlaps 3 neither either = .ok true := by
  obtain ⟨heap, held⟩ := divided_spec
  rw [heap, held]
  exact ⟨reachable_divided, by simp, by simp, by cbv, by cbv⟩

end Client

end TypeNotation
