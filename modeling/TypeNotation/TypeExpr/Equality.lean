import TypeNotation.TypeExpr.Basic

/-!
# Equality of types

Positions and stamps do not count; the members of a list form a set; the fields of a record have no
order; literals are compared by value.  Since the body of a recursive type leads back to the type, a
named type is compared by its name and arguments alone.
-/

namespace TypeNotation

namespace TypeExpr

mutual

/-- Equality of types. -/
def same : TypeExpr → TypeExpr → Bool
  | number x, number y => x.same y
  | interval _ low high, interval _ low' high' => low.same low' && high.same high'
  | unit _, unit _ => true
  | primitive _ name, primitive _ name' => name = name'
  | tuple _ items, tuple _ items' => sameAll items items'
  | list _ members, list _ members' => sameMembers members members'
  | record _ fields, record _ fields' => sameFields fields fields'
  | function _ inputs outputs, function _ inputs' outputs' =>
    sameInputs inputs inputs' && sameAll outputs outputs'
  | delegation _ base targets, delegation _ base' targets' =>
    base.same base' && sameAll targets targets'
  | predicate _ constraint body listed, predicate _ constraint' body' listed' =>
    constraint.same constraint' && body.same body' &&
      listed.map (·.var) = listed'.map (·.var)
  | tagged _ tags, tagged _ tags' => sameTags tags tags'
  | union _ left right, union _ left' right' => left.same left' && right.same right'
  | complement _ left right, complement _ left' right' => left.same left' && right.same right'
  | reference _ name args, reference _ name' args' => name = name' && sameAll args args'
  | typeVariable _ v, typeVariable _ v' => v = v'
  | named _ name args, named _ name' args' => name = name' && sameAll args args'
  | deferred _ target bindings, deferred _ target' bindings' =>
    target.same target' && sameFields bindings bindings'
  | _, _ => false

/-- Equality of sequences of types, in order. -/
def sameAll : List TypeExpr → List TypeExpr → Bool
  | [], [] => true
  | t :: rest, t' :: rest' => t.same t' && sameAll rest rest'
  | _, _ => false

/-- Equality of collections of types, in any order: each of the first types finds an equal one among
the second, which is used up. -/
def sameMembers : List TypeExpr → List TypeExpr → Bool
  | [], others => others.isEmpty
  | t :: rest, others =>
    match others.findIdx? (fun t' => t.same t') with
    | some i => sameMembers rest (others.eraseIdx i)
    | none => false

/-- Equality of collections of fields, in any order. -/
def sameFields : List (Field TypeExpr) → List (Field TypeExpr) → Bool
  | [], others => others.isEmpty
  | ⟨name, t⟩ :: rest, others =>
    match others.findIdx? (fun g => name = g.name && t.same g.type) with
    | some i => sameFields rest (others.eraseIdx i)
    | none => false

/-- Equality of inputs, suffixes included. -/
def sameInputs : List (Parameter TypeExpr) → List (Parameter TypeExpr) → Bool
  | [], [] => true
  | ⟨t, suffix, _⟩ :: rest, ⟨t', suffix', _⟩ :: rest' =>
    t.same t' && suffix = suffix' && sameInputs rest rest'
  | _, _ => false

/-- Equality of constructors, in order. -/
def sameTags : List (Tag TypeExpr) → List (Tag TypeExpr) → Bool
  | [], [] => true
  | ⟨name, fields⟩ :: rest, ⟨name', fields'⟩ :: rest' =>
    name = name' && sameAll fields fields' && sameTags rest rest'
  | _, _ => false

end

/-- The members of a list type without repetitions, the first of equal ones kept. -/
def withoutRepeats (members : List TypeExpr) : List TypeExpr :=
  members.foldl (fun kept t => if kept.any (fun k => t.same k) then kept else kept ++ [t]) []

/-- The list type of the given members. -/
def listOf (mark : Mark) (members : List TypeExpr) : TypeExpr :=
  list mark (withoutRepeats members)

end TypeExpr

end TypeNotation
