import TypeNotation.Resolution.Error

/-!
# Productivity

A value is checked against the body of a named type, the operands of unions and complements, the
base of a delegation and the parts of a predicate before it is taken apart itself: these positions
are *unguarded*.  A named type that leads back to itself through unguarded positions only could
never be unfolded, and is refused.

The walk below goes depth first through unguarded positions.  It keeps the path of named types on
which it stands and the stamps of those that it has left.
-/

namespace TypeNotation

namespace Heap

/-- The parts of a type that a value is checked against before it is taken apart. -/
def unguarded (h : Heap) : TypeExpr → List TypeExpr
  | .named m _ _ => (h.body? m.stamp).toList
  | .union _ left right => [left, right]
  | .complement _ left right => [left, right]
  | .delegation _ base _ => [base]
  | .predicate _ constraint body _ => [constraint, body]
  | _ => []

/-- The named types on the way to a node, outermost first. -/
abbrev Path := List (Nat × String)

/-- Walk through the unguarded positions of a type; `enter` walks on in the body of a named type.
The answer is the stamps of the named types that have been left. -/
def walkWith (h : Heap) (enter : Path → TypeExpr → List Nat → Except ResolutionError (List Nat))
    (path : Path) : TypeExpr → List Nat → Except ResolutionError (List Nat)
  | .named m name _, done =>
    if m.stamp ∈ done then .ok done
    else match path.findIdx? (·.1 = m.stamp) with
      | some i => .error (.cyclic ((path.drop i).map (·.2) ++ [name]) m.position)
      | none =>
        match h.body? m.stamp with
        | some body => do return m.stamp :: (← enter (path ++ [(m.stamp, name)]) body done)
        | none => .ok (m.stamp :: done)
  | .union _ left right, done => do h.walkWith enter path right (← h.walkWith enter path left done)
  | .complement _ left right, done => do
    h.walkWith enter path right (← h.walkWith enter path left done)
  | .delegation _ base _, done => h.walkWith enter path base done
  | .predicate _ constraint body _, done => do
    h.walkWith enter path body (← h.walkWith enter path constraint done)
  | _, done => .ok done

/-- Walk through the unguarded positions of a type.  The bound is on the length of the path, which
never is longer than the number of bodies. -/
def walk (h : Heap) : Nat → Path → TypeExpr → List Nat → Except ResolutionError (List Nat)
  | 0, path, t, done => h.walkWith (fun _ _ done => .ok done) path t done
  | bound + 1, path, t, done => h.walkWith (h.walk bound) path t done

/-- Refuse named types that lead back to themselves through unguarded positions. -/
def checkProductive (h : Heap) (roots : List TypeExpr) : Except ResolutionError Unit := do
  let _ ← roots.foldlM (fun done t => h.walk (h.bodies.size + 1) [] t done) []
  return ()

end Heap

end TypeNotation
