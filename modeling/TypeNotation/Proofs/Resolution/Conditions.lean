import TypeNotation.Proofs.Resolution.Instance
import TypeNotation.Proofs.TypeExpr.Parts

/-!
# The conditions of a type

A predicate constrains its variables.  Where it is expanded with a variable bound, a condition comes
up: what the variable is bound to must satisfy the constraint.  A type *owes* the conditions of all
predicates that are met while it is expanded.  The targets of delegations are not expanded along
with a type, and nodes have been expanded before, so what they owe is their own.

The constraint of a condition is expanded too.  So conditions are said to be discharged up to
equality of the constraint with its instance.
-/

namespace TypeNotation

namespace TypeExpr

/-- The parts of a type that are expanded along with it. -/
def expandedParts : TypeExpr → List TypeExpr
  | number _ | interval .. | named .. => []
  | delegation _ base _ => [base]
  | t => t.parts

/-- The conditions that come up while a type is expanded: what a variable is bound to, and the
constraint on it as it is written. -/
inductive Owes (env : Env) : TypeExpr → TypeExpr → TypeExpr → Prop
  | bound {m : Mark} {constraint body binding : TypeExpr} {listed : List Binder} {b : Binder} :
    b ∈ quantified listed body → Expansion.binding? env b = some binding →
      Owes env (.predicate m constraint body listed) binding constraint
  | part {t u binding constraint : TypeExpr} :
    u ∈ t.expandedParts → Owes env u binding constraint → Owes env t binding constraint

/-- All conditions that a type owes meet a requirement, when the constraint has been
instantiated. -/
def Discharged (P : TypeExpr → TypeExpr → Prop) (env : Env) (scope : Option String)
    (t : TypeExpr) : Prop :=
  ∀ binding constraint, Owes env t binding constraint →
    ∃ c, c.same (constraint.instantiate env scope) = true ∧ P binding c

variable {P Q : TypeExpr → TypeExpr → Prop} {env : Env} {scope : Option String} {t : TypeExpr}

lemma Discharged.mono (h : t.Discharged P env scope) (hPQ : ∀ a c, P a c → Q a c) :
    t.Discharged Q env scope := by
  intro binding constraint owes
  obtain ⟨c, same, hc⟩ := h binding constraint owes
  exact ⟨c, same, hPQ binding c hc⟩

/-- Only a predicate owes something of its own. -/
lemma discharged_of_parts (own : ∀ m constraint body listed,
      t ≠ .predicate m constraint body listed)
    (parts : ∀ u ∈ t.expandedParts, u.Discharged P env scope) : t.Discharged P env scope := by
  intro binding constraint owes
  cases owes with
  | bound => exact absurd rfl (own _ _ _ _)
  | part hu owes => exact parts _ hu binding constraint owes

lemma discharged_predicate {m : Mark} {constraint body c : TypeExpr} {listed : List Binder}
    (same : c.same (constraint.instantiate env scope) = true)
    (own : ∀ b ∈ quantified listed body, ∀ a, Expansion.binding? env b = some a → P a c)
    (hconstraint : constraint.Discharged P env scope) (hbody : body.Discharged P env scope) :
    (predicate m constraint body listed).Discharged P env scope := by
  intro a k owes
  cases owes with
  | bound hb ha => exact ⟨c, same, own _ hb _ ha⟩
  | part hu owes =>
    simp only [expandedParts, parts, List.mem_cons, List.not_mem_nil, or_false] at hu
    rcases hu with rfl | rfl
    · exact hconstraint a k owes
    · exact hbody a k owes

end TypeExpr

end TypeNotation
