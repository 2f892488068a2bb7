import TypeNotation.Heap

/-!
# Members

A member of a type is a field of a record.  A delegation that does not find a member in its base
looks for it in its targets, in order.  Both walks below go depth first through one shared list of
visited nodes, so that delegations which lead back to themselves end the walk.
-/

namespace TypeNotation

/-- Nodes that a walk has passed. -/
abbrev Visited := List TypeExpr

/-- Where a walk for members goes on, from a node that is not itself a record or a delegation. -/
def Heap.passage? (h : Heap) : TypeExpr → Option (Query TypeExpr)
  | .predicate _ _ body _ => some (.ok body)
  | t@(.named ..) => some (h.reveal t)
  | t@(.deferred ..) => some (h.reveal t)
  | _ => none

/-- The first hit of a search among nodes, with the visited nodes threaded through. -/
def firstHit {α : Type} (search : TypeExpr → Visited → Query (Option α × Visited)) :
    List TypeExpr → Visited → Query (Option α × Visited)
  | [], visited => .ok (none, visited)
  | t :: rest, visited => do
    match ← search t visited with
    | (some a, visited) => return (some a, visited)
    | (none, visited) => firstHit search rest visited

/-- All hits of a search among nodes, without repetitions, with the visited nodes threaded through.
-/
def allHits (search : TypeExpr → Visited → Query (List String × Visited)) :
    List TypeExpr → List String → Visited → Query (List String × Visited)
  | [], found, visited => .ok (found, visited)
  | t :: rest, found, visited => do
    let (names, visited) ← search t visited
    allHits search rest (found ++ (names.filter (· ∉ found)).eraseDups) visited

namespace Heap

/-- Search for a member.  The bound is on the length of the path to it. -/
def memberFrom (h : Heap) (name : String) :
    Nat → TypeExpr → Visited → Query (Option TypeExpr × Visited)
  | 0, _, _ => .error .exhausted
  | bound + 1, t, visited =>
    match h.passage? t with
    | some next =>
      if t ∈ visited then .ok (none, visited)
      else do h.memberFrom name bound (← next) (t :: visited)
    | none =>
      match t with
      | .record _ fields => .ok (Field.find? fields name, visited)
      | .delegation _ base targets => firstHit (h.memberFrom name bound) (base :: targets) visited
      | _ => .ok (none, visited)

/-- The type of a member. -/
def member? (h : Heap) (bound : Nat) (t : TypeExpr) (name : String) : Query (Option TypeExpr) := do
  let (found, _) ← h.memberFrom name bound t []
  return found

/-- Collect the names of members.  The bound is on the length of the path to them. -/
def membersFrom (h : Heap) : Nat → TypeExpr → Visited → Query (List String × Visited)
  | 0, _, _ => .error .exhausted
  | bound + 1, t, visited =>
    match h.passage? t with
    | some next =>
      if t ∈ visited then .ok ([], visited)
      else do h.membersFrom bound (← next) (t :: visited)
    | none =>
      match t with
      | .record _ fields => .ok (Field.names fields, visited)
      | .delegation _ base targets => allHits (h.membersFrom bound) (base :: targets) [] visited
      | _ => .ok ([], visited)

/-- The names of all members. -/
def members (h : Heap) (bound : Nat) (t : TypeExpr) : Query (List String) := do
  let (names, _) ← h.membersFrom bound t []
  return names

end Heap

end TypeNotation
