import TypeNotation.Relation.Interval
import TypeNotation.Relation.Member
import TypeNotation.Relation.Membership
import TypeNotation.TypeExpr.Equality

/-!
# Subtyping and overlap

`subtype` decides, structurally and as far as that goes, whether every value of one type is a value
of another; `overlap` whether two types may share a value, which is assumed where it cannot be
decided.  The two call each other through complements.

Recursive types are related if they are related under the assumption that they are.  The assumed
pairs are kept as nodes, and each question that starts afresh starts without assumptions.

The rules stand in three groups: those that take the subject apart, those that take the object
apart, and those that compare two structures.  Each group is given the relations at a smaller depth.
-/

namespace TypeNotation

/-- Pairs of nodes that are assumed to be related. -/
abbrev Assumed := List (TypeExpr × TypeExpr)

/-- The relations that a rule may appeal to: subtyping under bounds on the variables of both sides,
and whether two types overlap. -/
structure Appeal where
  subtype : Bounds → Bounds → TypeExpr → TypeExpr → Query Bool
  overlap : TypeExpr → TypeExpr → Query Bool

namespace Matcher

/-! ## Taking the subject apart -/

/-- The rules for subjects that are taken apart before the object is looked at. -/
def subjectRule? (appeal : Appeal) (left right : Bounds) (a b : TypeExpr) : Option (Query Bool) :=
  let sub := appeal.subtype left right
  match a with
  | .union _ x y => some do if ← sub x b then sub y b else return false
  | .predicate _ constraint body listed =>
    some (appeal.subtype (left.bind constraint (TypeExpr.quantified listed body)) right body b)
  | .typeVariable _ v =>
    (left.find? v).map fun bound => appeal.subtype (left.without v) right bound b
  | .complement _ x y => some do
    if ← sub x b then return true
    match b with
    | .complement _ x' y' =>
      if ← sub x x' then
        if ← sub y' y then return true
        return !(← appeal.overlap x y')
      return false
    | _ => return false
  | _ => none

/-! ## Taking the object apart -/

/-- A member of a delegation is also a member of the subject, and of a subtype. -/
def memberRule (m : Matcher) (depth : Nat) (sub : TypeExpr → TypeExpr → Query Bool) (a b : TypeExpr)
    (name : String) : Query Bool := do
  let mine ← m.heap.member? depth a name
  let theirs ← m.heap.member? depth b name
  match mine, theirs with
  | some x, some y => sub x y
  | _, _ => return false

/-- A delegation is below a record if it finds every field of the record, with a subtype.  Where
records are closed its base must be a record with the same names. -/
def delegationRule (m : Matcher) (depth : Nat) (sub : TypeExpr → TypeExpr → Query Bool)
    (a base : TypeExpr) (fields : List (Field TypeExpr)) : Query Bool := do
  let closed := match m.heap.unfold base with
    | .record _ own => Field.sameNames own fields
    | _ => false
  if !m.openRecords && !closed then return false
  fields.allM fun f => do
    match ← m.heap.member? depth a f.name with
    | some x => sub x f.type
    | none => return false

/-- The rules for objects that are taken apart, and for subjects that are delegations. -/
def objectRule? (m : Matcher) (depth : Nat) (appeal : Appeal) (left right : Bounds)
    (a b : TypeExpr) : Option (Query Bool) :=
  let sub := appeal.subtype left right
  match b with
  | .predicate _ constraint body listed =>
    some (appeal.subtype left (right.bind constraint (TypeExpr.quantified listed body)) a body)
  | .typeVariable _ v =>
    match right.find? v with
    | some bound => some (appeal.subtype left (right.without v) a bound)
    | none => some (.ok true)
  | .union _ x y => some do
    if ← sub a x then return true
    if ← sub a y then return true
    match a with
    | .interval _ low high => m.heap.covers depth low high b
    | _ => return false
  | .complement _ x y => some do if ← sub a x then return !(← appeal.overlap a y) else return false
  | .delegation _ base _ => some do
    if ← sub a base then
      (← m.heap.members depth b).allM fun name => m.memberRule depth sub a b name
    else return false
  | _ =>
    match a with
    | .delegation _ base _ =>
      match b with
      | .record _ fields => some (m.delegationRule depth sub a base fields)
      | _ => some (sub base b)
    | _ => none

/-! ## Comparing structures -/

/-- A numeral is below another that is the same number and below the intervals that hold it. -/
def numeralRule (x : Numeral) (b : TypeExpr) : Query Bool :=
  match b with
  | .number y =>
    if x.isNaN || y.isNaN then .ok (x.isNaN && y.isNaN)
    else Query.ofArithmetic (do return (← x.compare y) = .eq)
  | .interval _ low high =>
    if x.isNaN then .ok false
    else Query.ofArithmetic do
      if (← low.compare x) = .gt then return false
      return (← x.compare high) = .lt
  | _ => .ok false

/-- An interval is below another that starts no later and ends no earlier. -/
def intervalRule (low high low' high' : Numeral) : Query Bool :=
  Query.ofArithmetic do
    if (← low'.compare low) = .gt then return false
    return (← high.compare high') != .gt

/-- Whether two sequences of types are related one by one. -/
def pairwise (r : TypeExpr → TypeExpr → Query Bool) (xs ys : List TypeExpr) : Query Bool :=
  if xs.length = ys.length then (xs.zip ys).allM fun (x, y) => r x y else .ok false

/-- Whether each of some types is related to one of others. -/
def eachToSome (r : TypeExpr → TypeExpr → Query Bool) (xs ys : List TypeExpr) : Query Bool :=
  xs.allM fun x => ys.anyM fun y => r x y

/-- Whether a function that accepts one range of argument counts accepts all of another. -/
def acceptsRange (inputs inputs' : List (Parameter TypeExpr)) : Bool :=
  decide (Parameter.least inputs ≤ Parameter.least inputs') &&
    match Parameter.greatest? inputs, Parameter.greatest? inputs' with
    | none, _ => true
    | some _, none => false
    | some most, some most' => decide (most' ≤ most)

/-- Whether the inputs of one function accept what those of another do, index by index. -/
def inputsRule (sub : TypeExpr → TypeExpr → Query Bool)
    (inputs inputs' : List (Parameter TypeExpr)) : List Nat → Query Bool
  | [] => .ok true
  | i :: rest =>
    match Parameter.receiving? inputs' i, Parameter.receiving? inputs i with
    | none, _ => .ok true
    | some q, some p => do
      if ← sub q.type p.type then inputsRule sub inputs inputs' rest else return false
    | some _, none => .ok false

/-- A function is below another if it accepts at least the argument counts and types that the other
accepts, and returns no more than the other returns. -/
def functionRule (sub : TypeExpr → TypeExpr → Query Bool)
    (inputs inputs' : List (Parameter TypeExpr)) (outputs outputs' : List TypeExpr) :
    Query Bool := do
  if !acceptsRange inputs inputs' then return false
  if ← inputsRule sub inputs inputs' (List.range (max inputs.length inputs'.length + 1)) then
    pairwise sub outputs outputs'
  else return false

/-- A record is below another whose fields it has, with subtypes. -/
def recordRule (m : Matcher) (sub : TypeExpr → TypeExpr → Query Bool)
    (fields fields' : List (Field TypeExpr)) : Query Bool :=
  if !m.openRecords && !Field.sameNames fields fields' then .ok false
  else fields'.allM fun f =>
    match Field.find? fields f.name with
    | some x => sub x f.type
    | none => .ok false

/-- A tagged union is below another that has all of its constructors, with supertypes for the
fields. -/
def taggedRule (sub : TypeExpr → TypeExpr → Query Bool) (tags tags' : List (Tag TypeExpr)) :
    Query Bool :=
  tags.allM fun g =>
    match Tag.find? tags' g.name with
    | some g' => pairwise sub g.fields g'.fields
    | none => .ok false

/-- The rules that compare two structures. -/
def structureRule (m : Matcher) (sub : TypeExpr → TypeExpr → Query Bool) (a b : TypeExpr) :
    Query Bool :=
  match a with
  | .number x => numeralRule x b
  | .interval _ low high =>
    match b with
    | .interval _ low' high' => intervalRule low high low' high'
    | _ => .ok false
  | .unit _ =>
    match b with
    | .unit _ => .ok true
    | _ => .ok false
  | .primitive _ name =>
    match b with
    | .primitive _ name' => .ok (name = name')
    | _ => .ok false
  | .tuple _ items =>
    match b with
    | .tuple _ items' => pairwise sub items items'
    | .list _ members => eachToSome sub items members
    | _ => .ok false
  | .list _ members =>
    match b with
    | .list _ members' => eachToSome sub members members'
    | _ => .ok false
  | .record _ fields =>
    match b with
    | .record _ fields' => m.recordRule sub fields fields'
    | _ => .ok false
  | .function _ inputs outputs =>
    match b with
    | .function _ inputs' outputs' => functionRule sub inputs inputs' outputs outputs'
    | _ => .ok false
  | .tagged _ tags =>
    match b with
    | .tagged _ tags' => taggedRule sub tags tags'
    | _ => .ok false
  | .typeVariable .. => .ok false
  | _ => .error .incomparable

/-! ## Overlap -/

/-- The rules for a type that is taken apart on either side of an overlap. -/
def overlapRule? (appeal : Appeal) (rec : TypeExpr → TypeExpr → Query Bool) (x y : TypeExpr) :
    Option (Query Bool) :=
  if x.isAny then some (.ok true)
  else match x with
  | .union _ l r => some do if ← rec l y then return true else rec r y
  | .complement _ l r => some do
    if ← rec l y then return !(← appeal.subtype [] [] y r) else return false
  | .predicate _ _ body _ => some (rec body y)
  | .typeVariable .. => some (.ok true)
  | .delegation _ base _ => some (rec base y)
  | _ => none

/-- Whether two numeric types overlap: two intervals if each starts before the other ends, anything
else if one is below the other. -/
def numericOverlap (appeal : Appeal) (a b : TypeExpr) : Query Bool :=
  match a, b with
  | .interval _ low high, .interval _ low' high' => Query.ofArithmetic do
    if (← low.compare high') = .lt then return (← low'.compare high) = .lt else return false
  | .interval .., _ => appeal.subtype [] [] b a
  | _, _ => appeal.subtype [] [] a b

/-- Whether a type is a number or an interval. -/
def isNumeric : TypeExpr → Bool
  | .number _ | .interval .. => true
  | _ => false

/-- The rules that compare two structures for an overlap. -/
def overlapStructure (m : Matcher) (appeal : Appeal) (rec : TypeExpr → TypeExpr → Query Bool)
    (a b : TypeExpr) : Query Bool :=
  match a with
  | .number _ | .interval .. => if isNumeric b then numericOverlap appeal a b else .ok false
  | .tuple _ items =>
    match b with
    | .tuple _ items' => pairwise rec items items'
    | .list _ members => eachToSome rec items members
    | _ => .ok false
  | .list _ members =>
    match b with
    | .list .. => .ok true
    | .tuple _ items => eachToSome rec items members
    | _ => .ok false
  | .record _ fields =>
    match b with
    | .record _ fields' =>
      if !m.openRecords && !Field.sameNames fields fields' then .ok false
      else fields.allM fun f =>
        match Field.find? fields' f.name with
        | some y => rec f.type y
        | none => .ok true
    | _ => .ok false
  | .tagged _ tags =>
    match b with
    | .tagged _ tags' => tags.anyM fun g =>
      match Tag.find? tags' g.name with
      | some g' => pairwise rec g.fields g'.fields
      | none => .ok false
    | _ => .ok false
  | .function .. =>
    match b with
    | .function .. => .ok true
    | _ => .ok false
  | .unit _ =>
    match b with
    | .unit _ => .ok true
    | _ => .ok false
  | .primitive _ name =>
    match b with
    | .primitive _ name' => .ok (name = name')
    | _ => .ok false
  | _ => .error .incomparable

/-! ## The relations -/

mutual

/-- Whether one type is a subtype of another, under bounds on the variables of both and with assumed
pairs.  The first argument bounds the depth of the question. -/
def subtype (m : Matcher) : Nat → Assumed → Bounds → Bounds → TypeExpr → TypeExpr → Query Bool
  | 0, _, _, _, _, _ => .error .exhausted
  | depth + 1, assumed, left, right, a, b =>
    if a.isReferring || b.isReferring then
      if (a, b) ∈ assumed then .ok true
      else do
        let x ← m.heap.reveal a
        let y ← m.heap.reveal b
        m.subtype depth ((a, b) :: assumed) left right x y
    else if a.same b || b.isAny then .ok true
    else
      let appeal : Appeal := ⟨m.subtype depth assumed, m.overlap depth []⟩
      match subjectRule? appeal left right a b with
      | some answer => answer
      | none =>
        match m.objectRule? depth appeal left right a b with
        | some answer => answer
        | none => m.structureRule (appeal.subtype left right) a b

/-- Whether two types may share a value, with assumed pairs.  The first argument after the matcher
bounds the depth of the question. -/
def overlap (m : Matcher) : Nat → Assumed → TypeExpr → TypeExpr → Query Bool
  | 0, _, _, _ => .error .exhausted
  | depth + 1, assumed, a, b =>
    if a.isReferring || b.isReferring then
      if (a, b) ∈ assumed then .ok true
      else do
        let x ← m.heap.reveal a
        let y ← m.heap.reveal b
        m.overlap depth ((a, b) :: assumed) x y
    else
      let appeal : Appeal := ⟨m.subtype depth [], m.overlap depth []⟩
      let rec_ := m.overlap depth assumed
      match overlapRule? appeal rec_ a b with
      | some answer => answer
      | none =>
        match overlapRule? appeal rec_ b a with
        | some answer => answer
        | none => m.overlapStructure appeal rec_ a b

end

/-- Whether one type is a subtype of another. -/
def isSubtype (m : Matcher) (depth : Nat) (a b : TypeExpr) : Query Bool :=
  m.subtype depth [] [] [] a b

/-- Whether two types may share a value. -/
def overlaps (m : Matcher) (depth : Nat) (a b : TypeExpr) : Query Bool :=
  m.overlap depth [] a b

/-- Whether a value inhabits a type.  A type taken as a value is asked to be a subtype. -/
def matchesType (m : Matcher) (depth : Nat) (v : Value) (t : TypeExpr) : Query Bool :=
  match v with
  | .type a => m.isSubtype depth a t
  | _ => m.contains depth v t []

end Matcher

end TypeNotation
