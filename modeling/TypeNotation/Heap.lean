import Std.Data.HashMap
import TypeNotation.TypeExpr.Identity

/-!
# The heap of normal forms

The bodies of named types and the results of suspended targets, each under the stamp of its node.

Questions about normal forms are asked of a heap that stays as it is.  A question that comes to a
suspended target without a result stops and *demands* it; whoever asked then resolves the target and
asks again.  Since everything else about a question is determined by the heap, asking again comes to
the same point and goes on.
-/

namespace TypeNotation

/-- Bodies of named types and results of suspended targets. -/
structure Heap where
  bodies : Std.HashMap Nat TypeExpr
  results : Std.HashMap Nat TypeExpr

namespace Heap

/-- The heap with nothing on it. -/
def empty : Heap := ⟨∅, ∅⟩

instance : Inhabited Heap := ⟨empty⟩

/-- The body of a named type, if its expansion is complete. -/
def body? (h : Heap) (stamp : Nat) : Option TypeExpr :=
  h.bodies[stamp]?

/-- The result of a suspended target, if it has been resolved. -/
def result? (h : Heap) (stamp : Nat) : Option TypeExpr :=
  h.results[stamp]?

/-- Give a named type its body. -/
def setBody (h : Heap) (stamp : Nat) (body : TypeExpr) : Heap :=
  { h with bodies := h.bodies.insert stamp body }

/-- Give a suspended target its result. -/
def setResult (h : Heap) (stamp : Nat) (result : TypeExpr) : Heap :=
  { h with results := h.results.insert stamp result }

/-- Follow named types to their bodies until something else comes up, there is no body, or a node
comes up again.  There are no more steps than bodies. -/
def unfoldFrom (h : Heap) : Nat → List Nat → TypeExpr → TypeExpr
  | 0, _, t => t
  | bound + 1, seen, t =>
    match t with
    | .named m _ _ =>
      match h.body? m.stamp with
      | some body => if m.stamp ∈ seen then t else unfoldFrom h bound (m.stamp :: seen) body
      | none => t
    | _ => t

/-- What a type stands for: a named type stands for what its body stands for. -/
def unfold (h : Heap) (t : TypeExpr) : TypeExpr :=
  h.unfoldFrom (h.bodies.size + 1) [] t

end Heap

/-- Why a question has no answer. -/
inductive Halt where
  /-- A reference that was never expanded was met while matching. -/
  | unresolved (t : TypeExpr)
  /-- A reference that was never expanded was met while comparing. -/
  | incomparable
  /-- Numbers could not be compared. -/
  | arithmetic (fault : ArithmeticFault)
  /-- The result of a suspended target is needed. -/
  | demand (target : TypeExpr)
  /-- The bound on the depth of the question was reached. -/
  | exhausted

/-- An answer, or the reason why there is none. -/
abbrev Query (α : Type) := Except Halt α

namespace Query

/-- An answer that needs a comparison of numbers. -/
def ofArithmetic {α : Type} : Except ArithmeticFault α → Query α
  | .ok a => .ok a
  | .error fault => .error (.arithmetic fault)

end Query

/-- What a node stands for: the result of a suspended target, or the unfolding of anything else. -/
def Heap.reveal (h : Heap) (t : TypeExpr) : Query TypeExpr :=
  match t with
  | .deferred m _ _ =>
    match h.result? m.stamp with
    | some result => .ok result
    | none => .error (.demand t)
  | _ => .ok (h.unfold t)

end TypeNotation
