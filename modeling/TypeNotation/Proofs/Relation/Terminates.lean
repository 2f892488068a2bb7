import Mathlib.Tactic.Lemma
import TypeNotation.Relation.Membership

/-!
# Questions that terminate

A question is given a bound on its depth.  It terminates if from some depth on the bound makes no
difference: the outcome stays the same, and it is an answer, or has a cause other than that the
bound was reached.  Which causes are admitted is left open, so that the same argument shows that a
question terminates, and that it terminates with an answer.  Questions that are put together from
questions that terminate do so as well.
-/

namespace TypeNotation

/-- A cause that neither more depth nor the result of a suspended target would remove. -/
def Halt.Lasting : Halt → Prop
  | demand _ | exhausted => False
  | _ => True

/-- No cause at all. -/
def Halt.Never : Halt → Prop :=
  fun _ => False

namespace Query

variable {α β : Type} {allowed : Halt → Prop}

/-- An outcome that is an answer or has a cause that is admitted. -/
def Final (allowed : Halt → Prop) : Query α → Prop
  | .ok _ => True
  | .error halt => allowed halt

lemma final_ofArithmetic (x : Except ArithmeticFault α) :
    (ofArithmetic x).Final Halt.Lasting := by
  cases x <;> trivial

/-- From some depth on a question has the same outcome, and it is final. -/
def Terminates (allowed : Halt → Prop) (q : Nat → Query α) : Prop :=
  ∃ (bound : Nat) (result : Query α), result.Final allowed ∧ ∀ depth, bound ≤ depth →
    q depth = result

lemma Terminates.const {result : Query α} (h : result.Final allowed) :
    Terminates allowed fun _ => result :=
  ⟨0, result, h, fun _ _ => rfl⟩

lemma Terminates.ok (a : α) : Terminates allowed fun _ => (.ok a : Query α) :=
  .const trivial

/-- The first step of a question does not matter. -/
lemma Terminates.of_succ {q : Nat → Query α}
    (h : Terminates allowed fun depth => q (depth + 1)) : Terminates allowed q := by
  obtain ⟨bound, result, final, hq⟩ := h
  refine ⟨bound + 1, result, final, fun depth hdepth => ?_⟩
  obtain ⟨depth, rfl⟩ : ∃ d, depth = d + 1 := ⟨depth - 1, by omega⟩
  exact hq depth (by omega)

lemma Terminates.bind_of {q : Nat → Query α} {f : Nat → α → Query β} {P : α → Prop}
    (hq : Terminates allowed q) (hP : ∀ depth a, q depth = .ok a → P a)
    (hf : ∀ a, P a → Terminates allowed fun depth => f depth a) :
    Terminates allowed fun depth => q depth >>= f depth := by
  obtain ⟨bound, result, final, hq⟩ := hq
  rcases result with halt | a
  · refine ⟨bound, .error halt, final, fun depth hdepth => ?_⟩
    show q depth >>= f depth = .error halt
    rw [hq depth hdepth]
    rfl
  · obtain ⟨bound', result', final', hf⟩ := hf a (hP bound a (hq bound (Nat.le_refl _)))
    refine ⟨max bound bound', result', final', fun depth hdepth => ?_⟩
    show q depth >>= f depth = result'
    rw [hq depth (by omega)]
    exact hf depth (by omega)

lemma Terminates.bind {q : Nat → Query α} {f : Nat → α → Query β} (hq : Terminates allowed q)
    (hf : ∀ a, Terminates allowed fun depth => f depth a) :
    Terminates allowed fun depth => q depth >>= f depth :=
  hq.bind_of (fun _ _ _ => trivial) fun a _ => hf a

lemma Terminates.ite {q : Nat → Query Bool} {x y : Nat → Query α} (hq : Terminates allowed q)
    (hx : Terminates allowed x) (hy : Terminates allowed y) :
    Terminates allowed fun depth => (do if ← q depth then x depth else y depth) :=
  hq.bind fun b => by cases b <;> assumption

lemma Terminates.not {q : Nat → Query Bool} (hq : Terminates allowed q) :
    Terminates allowed fun depth => (do return !(← q depth) : Query Bool) :=
  hq.bind fun b => .ok (!b)

lemma Terminates.allM {p : Nat → α → Query Bool} {xs : List α}
    (h : ∀ x ∈ xs, Terminates allowed fun depth => p depth x) :
    Terminates allowed fun depth => xs.allM (p depth) := by
  induction xs with
  | nil => exact .ok true
  | cons x xs ih =>
    simp only [List.allM_cons]
    refine (h x (by simp)).bind fun b => ?_
    cases b with
    | false => exact .ok false
    | true => exact ih fun y hy => h y (by simp [hy])

lemma Terminates.anyM {p : Nat → α → Query Bool} {xs : List α}
    (h : ∀ x ∈ xs, Terminates allowed fun depth => p depth x) :
    Terminates allowed fun depth => xs.anyM (p depth) := by
  induction xs with
  | nil => exact .ok false
  | cons x xs ih =>
    simp only [List.anyM_cons]
    refine (h x (by simp)).bind fun b => ?_
    cases b with
    | true => exact .ok true
    | false => exact ih fun y hy => h y (by simp [hy])

end Query

end TypeNotation
