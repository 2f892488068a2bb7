import TypeNotation.TypeExpr.Basic

/-!
# Values

The values that types are matched against.  A value may be seen as several kinds of value at once:
the truth values are also constructors without fields, and constructed values and calls are also
objects with attributes.
-/

namespace TypeNotation

/-- How a parameter of a callable takes its arguments. -/
inductive Passing where
  | positionalOnly
  | positional
  | restPositional
  | keywordOnly
  | restKeyword
  deriving DecidableEq, Repr

/-- A parameter of a callable. -/
structure Slot where
  passing : Passing
  hasDefault : Bool
  deriving DecidableEq, Repr

/-- A value. -/
inductive Value where
  /-- The absent value. -/
  | absent
  | bool (value : Bool)
  | number (value : Number)
  | text (value : String)
  /-- Raw bytes, given by the text that they encode: neither text, sequence nor object. -/
  | bytes (value : String)
  | list (items : List Value)
  | tuple (items : List Value)
  | mapping (entries : List (Field Value))
  /-- An object with attributes.  Only if it is open to inspection can its attributes be listed. -/
  | object (attributes : List (Field Value)) (inspectable : Bool)
  /-- A value of a tagged union. -/
  | tagged (tag : String) (fields : List Value)
  /-- The positional arguments of a call. -/
  | call (arguments : List Value)
  /-- A callable, with its parameters if they are known. -/
  | callable (slots : Option (List Slot))
  /-- A type, taken as a value. -/
  | type (value : TypeExpr)

namespace Value

instance : Inhabited Value := ⟨.absent⟩

/-- A value as a constructed one: its tag and its fields.  The truth values have no fields. -/
def asTagged? : Value → Option (String × List Value)
  | tagged tag fields => some (tag, fields)
  | bool b => some (if b then "true" else "false", [])
  | _ => none

/-- A value as a sequence. -/
def asSequence? : Value → Option (List Value)
  | list items | tuple items => some items
  | _ => none

/-- The attributes that a value has of its own, if it is an object.  Those that it finds in its
class are not among them, and a type taken as a value is not inspected. -/
def attributes? : Value → Option (List (Field Value))
  | object attributes _ => some attributes
  | tagged tag fields => some [⟨"tag", .text tag⟩, ⟨"fields", .tuple fields⟩]
  | call arguments => some [⟨"args", .tuple arguments⟩]
  | callable _ | type _ => some []
  | _ => none

/-- The attributes that a value finds in its class.  The names of all of these begin with two
underscores; of them only the class is modelled, which is a callable.  The class of a callable is a
callable of unknown parameters, and its own class in turn.  An object is given by all attributes
that are found in it, so that its class is to be listed among them where it matters. -/
def inherited : Value → List (Field Value)
  | tagged .. => [⟨"__class__", callable (some [⟨.positional, false⟩, ⟨.restPositional, false⟩])⟩]
  | call _ => [⟨"__class__", callable (some [⟨.restPositional, false⟩])⟩]
  | callable _ => [⟨"__class__", callable none⟩]
  | _ => []

/-- Whether the names of an object's attributes can be listed. -/
def isInspectable : Value → Bool
  | object _ inspectable => inspectable
  | _ => true

/-- The names of attributes that are public: those without an underscore in front. -/
def publicNames (attributes : List (Field Value)) : List String :=
  (Field.names attributes).filter fun name => name.toList.head? ≠ some '_'

end Value

namespace Slot

/-- The least and the greatest number of positional arguments that the slots accept, read from left
to right; the greatest is missing if there is none. -/
def range (slots : List Slot) : Nat × Option Nat :=
  go 0 0 slots
where
  go (low high : Nat) : List Slot → Nat × Option Nat
    | [] => (low, some high)
    | s :: rest =>
      match s.passing with
      | .restPositional => (low, none)
      | .positionalOnly | .positional => go (if s.hasDefault then low else high + 1) (high + 1) rest
      | .keywordOnly | .restKeyword => go low high rest

end Slot

end TypeNotation
