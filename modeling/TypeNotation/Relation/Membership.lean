import TypeNotation.Heap
import TypeNotation.TypeExpr.Subterms
import TypeNotation.Value.Basic

/-!
# Membership

Whether a value inhabits a type.  Records are *open* or *closed*: an open record type holds every
keyed value that has at least its fields, a closed one requires the names to coincide.

A type variable holds every value unless a predicate bounds it, in which case it holds the values of
the constraint; the bound does not apply again inside the constraint.
-/

namespace TypeNotation

/-- The constraints on the type variables that predicates around a type quantify. -/
abbrev Bounds := List (Variable × TypeExpr)

namespace Bounds

/-- The constraint on a variable. -/
def find? (bounds : Bounds) (v : Variable) : Option TypeExpr :=
  (List.find? (·.1 = v) bounds).map (·.2)

/-- The bounds without that of one variable. -/
def without (bounds : Bounds) (v : Variable) : Bounds :=
  List.filter (·.1 ≠ v) bounds

/-- Bound the variables of a predicate by its constraint. -/
def bind (bounds : Bounds) (constraint : TypeExpr) (binders : List Binder) : Bounds :=
  binders.foldl (fun bounds b => (b.var, constraint) :: bounds.without b.var) bounds

end Bounds

/-- How questions about types are decided: on which heap, and whether records are open. -/
structure Matcher where
  heap : Heap
  openRecords : Bool

namespace Matcher

/-- Whether a value is the number of a numeral. -/
def holdsNumeral (v : Value) (n : Numeral) : Query Bool :=
  match v, n with
  | .number x, .literal _ y => .ok (x.same y)
  | .number x, .power .. =>
    if x.isNaN then .ok false
    else Query.ofArithmetic (do return (← (Numeral.literal none x).compare n) = .eq)
  | _, _ => .ok false

/-- Whether a value is a number of an interval. -/
def holdsInterval (v : Value) (low high : Numeral) : Query Bool :=
  match v with
  | .number x =>
    if x.isNaN then .ok false
    else Query.ofArithmetic do
      let n := Numeral.literal none x
      if (← low.compare n) = .gt then return false
      return (← n.compare high) = .lt
  | _ => .ok false

/-- Whether a callable accepts every number of arguments from the least to the greatest. -/
def acceptsCounts (slots : List Slot) (least : Nat) (greatest : Option Nat) : Bool :=
  let (low, high) := Slot.range slots
  decide (low ≤ least) &&
    match high, greatest with
    | none, _ => true
    | some most, some g => decide (g ≤ most)
    | some _, none => false

/-- Whether a number of arguments lies in a range. -/
def inRange (n least : Nat) (greatest : Option Nat) : Bool :=
  decide (least ≤ n) && greatest.all (n ≤ ·)

/-- Whether all of some pairs of a value and a type match. -/
def allHold (holds : Value → TypeExpr → Query Bool) (pairs : List (Value × TypeExpr)) :
    Query Bool :=
  pairs.allM fun (v, t) => holds v t

/-- Whether keyed values have the fields of a record. -/
def holdsFields (holds : Value → TypeExpr → Query Bool) (entries : List (Field Value))
    (fields : List (Field TypeExpr)) : Query Bool :=
  fields.allM fun f =>
    match Field.find? entries f.name with
    | some v => holds v f.type
    | none => .ok false

/-- Whether a value is of a record type.  The names of a closed record are compared with the public
attributes of the object itself, but the fields are looked up in its class as well. -/
def holdsRecord (m : Matcher) (holds : Value → TypeExpr → Query Bool) (v : Value)
    (fields : List (Field TypeExpr)) : Query Bool :=
  match v with
  | .mapping entries =>
    if !m.openRecords && !Field.sameNames entries fields then .ok false
    else holdsFields holds entries fields
  | _ =>
    match v.attributes? with
    | some attributes =>
      let names := Value.publicNames attributes
      let coincide := names.all (· ∈ Field.names fields) && (Field.names fields).all (· ∈ names)
      if !m.openRecords && v.isInspectable && !coincide then .ok false
      else holdsFields holds (attributes ++ v.inherited) fields
    | none => .ok false

/-- Whether a value is of a function type: a call with arguments that fit, or a callable that
accepts every number of arguments that the function does. -/
def holdsFunction (holds : Value → TypeExpr → Query Bool) (v : Value)
    (inputs : List (Parameter TypeExpr)) : Query Bool :=
  let least := Parameter.least inputs
  let greatest := Parameter.greatest? inputs
  match v with
  | .call arguments =>
    if inRange arguments.length least greatest then
      arguments.zipIdx.allM fun (v, i) =>
        match Parameter.receiving? inputs i with
        | some p => holds v p.type
        | none => .ok false
    else .ok false
  | .callable (some slots) => .ok (acceptsCounts slots least greatest)
  | _ => .ok false

/-- Whether a value is of a tagged union. -/
def holdsTagged (holds : Value → TypeExpr → Query Bool) (v : Value)
    (tags : List (Tag TypeExpr)) : Query Bool :=
  match v.asTagged? with
  | some (tag, fields) =>
    match Tag.find? tags tag with
    | some g =>
      if g.fields.length = fields.length then allHold holds (fields.zip g.fields) else .ok false
    | none => .ok false
  | none => .ok false

/-- Whether a value inhabits a type, under bounds on type variables.  The first argument bounds the
depth of the question. -/
def contains (m : Matcher) : Nat → Value → TypeExpr → Bounds → Query Bool
  | 0, _, _, _ => .error .exhausted
  | depth + 1, v, t, bounds =>
    let holds (v : Value) (t : TypeExpr) := m.contains depth v t bounds
    match t with
    | .named .. | .deferred .. => do holds v (← m.heap.reveal t)
    | .number n => holdsNumeral v n
    | .interval _ low high => holdsInterval v low high
    | .unit _ =>
      match v with
      | .absent => .ok true
      | _ => .ok false
    | .primitive _ name =>
      match v with
      | .text _ => .ok true
      | _ => .ok (name = "any")
    | .tuple _ items =>
      match v.asSequence? with
      | some vs => if vs.length = items.length then allHold holds (vs.zip items) else .ok false
      | none => .ok false
    | .list _ members =>
      match v.asSequence? with
      | some vs => vs.allM fun v => members.anyM fun t => holds v t
      | none => .ok false
    | .record _ fields => m.holdsRecord holds v fields
    | .function _ inputs _ => holdsFunction holds v inputs
    | .tagged _ tags => holdsTagged holds v tags
    | .union _ left right => do if ← holds v left then return true else holds v right
    | .complement _ left right => do
      if ← holds v left then return !(← holds v right) else return false
    | .delegation _ base _ => holds v base
    | .predicate _ constraint body listed =>
      m.contains depth v body (bounds.bind constraint (TypeExpr.quantified listed body))
    | .typeVariable _ x =>
      match bounds.find? x with
      | some bound => m.contains depth v bound (bounds.without x)
      | none => .ok true
    | .reference .. => .error (.unresolved t)

end Matcher

end TypeNotation
