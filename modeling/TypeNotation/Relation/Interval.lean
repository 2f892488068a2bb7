import TypeNotation.Heap

/-!
# Intervals of a union

A union of intervals may hold an interval that none of its members holds alone.  To decide this, the
intervals of the union are put in the order of their lower ends and followed from the lower end of
the interval in question, each from where the one before ends.
-/

namespace TypeNotation

/-- An interval without its mark. -/
structure Span where
  low : Numeral
  high : Numeral
  deriving DecidableEq

/-- The text of an interval. -/
def Span.text (s : Span) : String :=
  s.low.text ++ " ... " ++ s.high.text

namespace Heap

/-- Collect the intervals that make up a union.  A node that comes up again is not collected again.
The bound is on the length of the path to them. -/
def spansFrom (h : Heap) : Nat → TypeExpr → List TypeExpr → Query (List Span × List TypeExpr)
  | 0, _, _ => .error .exhausted
  | bound + 1, t, seen =>
    if t ∈ seen then .ok ([], seen)
    else
      let seen := t :: seen
      match t with
      | .named .. => h.spansFrom bound (h.unfold t) seen
      | .union _ left right => do
        let (ls, seen) ← h.spansFrom bound left seen
        let (rs, seen) ← h.spansFrom bound right seen
        return (ls ++ rs, seen)
      | .interval _ low high => .ok ([⟨low, high⟩], seen)
      | _ => .ok ([], seen)

/-- The intervals that make up a union, from left to right. -/
def spans (h : Heap) (bound : Nat) (t : TypeExpr) : Query (List Span) := do
  let (found, _) ← h.spansFrom bound t []
  return found

end Heap

namespace Span

/-- Put intervals in the order of the measures of their lower ends. -/
def sortByLow (spans : List Span) : Except ArithmeticFault (List Span) := do
  let keyed ← spans.mapM fun s => return (← s.low.scale, s)
  return (keyed.mergeSort fun x y => !y.1.before x.1).map (·.2)

/-- Follow intervals from a number on until they reach another number.  Intervals that do not hold
the number where the last one ended are passed over. -/
def reach (target : Numeral) : Numeral → List Span → Except ArithmeticFault Bool
  | _, [] => .ok false
  | current, s :: rest => do
    if (← s.low.compare current) = .gt then reach target current rest
    else if (← s.high.compare current) = .gt then
      if (← s.high.compare target) = .lt then reach target s.high rest else return true
    else reach target current rest

end Span

/-- Whether an interval is covered by the intervals of a union together. -/
def Heap.covers (h : Heap) (bound : Nat) (low high : Numeral) (union : TypeExpr) : Query Bool := do
  let spans ← h.spans bound union
  Query.ofArithmetic (do Span.reach high low (← Span.sortByLow spans))

end TypeNotation
