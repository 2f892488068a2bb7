import TypeNotation.Numeral

/-!
# Type expressions

One inductive type covers the expressions that are written and the normal forms that they are
resolved to.  `reference` only occurs in written expressions; `named` and `deferred` only in
resolved ones.

A normal form is a graph.  The body of a `named` node and the target of a `deferred` node are not
part of the node; they are kept on a heap under the *stamp* of the node, so that a recursive type is
a finite object.  The resolver gives every node that it makes a stamp of its own; a node as it is
written has stamp zero.  Stamps tell apart nodes that look alike, and take no part in equality of
types.
-/

namespace TypeNotation

/-- What a node carries besides its structure: where it was written, and its stamp. -/
structure Mark where
  position : Option Position
  stamp : Nat
  deriving DecidableEq, Repr, Inhabited

/-- The mark of a node as it is written. -/
def Mark.written (position : Option Position) : Mark :=
  ⟨position, 0⟩

/-- A type variable: a letter, and the name of the declaration that introduced it implicitly, if one
did. -/
structure Variable where
  letter : String
  scope : Option String
  deriving DecidableEq, Repr

/-- A type variable as it occurs at a position. -/
structure Binder where
  position : Option Position
  var : Variable
  deriving DecidableEq, Repr

/-- Whether an input of a function may be left out or repeated. -/
inductive Suffix where
  | none
  | optional
  | variadic
  deriving DecidableEq, Repr

/-- An input of a function type. -/
structure Parameter (τ : Type) where
  type : τ
  suffix : Suffix
  position : Option Position

/-- A name with what it stands for: a field of a record, or a variable with its binding. -/
structure Field (τ : Type) where
  name : String
  type : τ

/-- A constructor of a tagged union: a name with positional fields. -/
structure Tag (τ : Type) where
  name : String
  fields : List τ

/-- A type expression, written or resolved. -/
inductive TypeExpr where
  /-- The type of a single number. -/
  | number (value : Numeral)
  /-- The half-open range of the numbers from `low` up to, but not including, `high`. -/
  | interval (mark : Mark) (low high : Numeral)
  /-- The type of the absent value. -/
  | unit (mark : Mark)
  /-- An opaque domain: that of all texts or that of all values. -/
  | primitive (mark : Mark) (name : String)
  /-- Sequences of a fixed length. -/
  | tuple (mark : Mark) (items : List TypeExpr)
  /-- Sequences of any length, each element of one of the member types. -/
  | list (mark : Mark) (members : List TypeExpr)
  /-- Keyed values. -/
  | record (mark : Mark) (fields : List (Field TypeExpr))
  /-- Functions. -/
  | function (mark : Mark) (inputs : List (Parameter TypeExpr)) (outputs : List TypeExpr)
  /-- A type whose member lookups fall back on the targets, in order. -/
  | delegation (mark : Mark) (base : TypeExpr) (targets : List TypeExpr)
  /-- The body, for those bindings of the quantified variables that satisfy the constraint. -/
  | predicate (mark : Mark) (constraint body : TypeExpr) (listed : List Binder)
  /-- Values built by one of several constructors. -/
  | tagged (mark : Mark) (tags : List (Tag TypeExpr))
  /-- Values of either type. -/
  | union (mark : Mark) (left right : TypeExpr)
  /-- Values of the left type that are not values of the right type. -/
  | complement (mark : Mark) (left right : TypeExpr)
  /-- A declared name applied to arguments, not yet expanded. -/
  | reference (mark : Mark) (name : String) (args : List TypeExpr)
  /-- A type variable. -/
  | typeVariable (mark : Mark) (var : Variable)
  /-- An expanded reference; its body is on the heap. -/
  | named (mark : Mark) (name : String) (args : List TypeExpr)
  /-- A delegation target that is only resolved when a lookup needs it, with the bindings of its
  variables. -/
  | deferred (mark : Mark) (target : TypeExpr) (bindings : List (Field TypeExpr))

namespace TypeExpr

instance : Inhabited TypeExpr := ⟨.unit default⟩

/-- The mark of a node.  Numerals carry a position only. -/
def mark : TypeExpr → Mark
  | number value => .written value.position
  | interval m .. | unit m | primitive m _ | tuple m _ | list m _ | record m _ | function m ..
  | delegation m .. | predicate m .. | tagged m _ | union m .. | complement m .. | reference m ..
  | typeVariable m _ | named m .. | deferred m .. => m

/-- Where a node was written. -/
def position (t : TypeExpr) : Option Position :=
  t.mark.position

/-- The stamp that tells a node apart from others that look alike. -/
def stamp (t : TypeExpr) : Nat :=
  t.mark.stamp

/-- The name of the kind of a node. -/
def kind : TypeExpr → String
  | number (.literal ..) => "NumberLit"
  | number (.power ..) => "Exponential"
  | interval .. => "Interval"
  | unit _ => "Unit"
  | primitive .. => "Primitive"
  | tuple .. => "Tuple"
  | list .. => "List"
  | record .. => "Record"
  | function .. => "Function"
  | delegation .. => "Delegation"
  | predicate .. => "Predicate"
  | tagged .. => "TaggedUnion"
  | union .. => "Union"
  | complement .. => "Complement"
  | reference .. => "Reference"
  | typeVariable .. => "TypeVariable"
  | named .. => "Named"
  | deferred .. => "Deferred"

/-- The primitive type of all values. -/
def isAny : TypeExpr → Bool
  | primitive _ name => name = "any"
  | _ => false

/-- Whether a node stands for another one on the heap. -/
def isReferring : TypeExpr → Bool
  | named .. | deferred .. => true
  | _ => false

end TypeExpr

/-- Look up a field by name. -/
def Field.find? {τ : Type} (fields : List (Field τ)) (name : String) : Option τ :=
  (fields.find? (·.name = name)).map (·.type)

/-- The names of fields, in order. -/
def Field.names {τ : Type} (fields : List (Field τ)) : List String :=
  fields.map (·.name)

/-- Whether two lists of fields have the same names, in any order. -/
def Field.sameNames {τ σ : Type} (fields : List (Field τ)) (others : List (Field σ)) : Bool :=
  fields.all (fun f => others.any (·.name = f.name)) &&
    others.all (fun g => fields.any (·.name = g.name))

/-- Look up a constructor by name. -/
def Tag.find? {τ : Type} (tags : List (Tag τ)) (name : String) : Option (Tag τ) :=
  tags.find? (·.name = name)

namespace Parameter

variable {τ : Type}

/-- Whether the last input takes any number of arguments. -/
def isVariadic (inputs : List (Parameter τ)) : Bool :=
  inputs.getLast?.any (·.suffix = .variadic)

/-- The least number of arguments: everything up to the last input without a suffix. -/
def least : List (Parameter τ) → Nat
  | [] => 0
  | p :: rest => if least rest = 0 then (if p.suffix = .none then 1 else 0) else least rest + 1

/-- The greatest number of arguments, if there is one. -/
def greatest? (inputs : List (Parameter τ)) : Option Nat :=
  if isVariadic inputs then none else some inputs.length

/-- The input that receives the argument at an index. -/
def receiving? (inputs : List (Parameter τ)) (i : Nat) : Option (Parameter τ) :=
  if i < inputs.length then inputs[i]? else if isVariadic inputs then inputs.getLast? else none

end Parameter

end TypeNotation
