import TypeNotation.TypeExpr.Basic

/-!
# Notation text of types

Every type can be written in the notation.  Operators have binding levels, loosest first; a node is
put in parentheses where the context binds tighter than the node does.  An item of a comma-separated
list that is a delegation is always put in parentheses, since its targets would swallow the items
that follow.
-/

namespace TypeNotation

/-- The binding levels of the notation's operators, loosest first. -/
inductive Level where
  | predicate
  | function
  | bar
  | union
  | complement
  | delegation
  | application
  | atom
  deriving DecidableEq, Repr

/-- How tightly a level binds. -/
def Level.strength : Level → Nat
  | .predicate => 0
  | .function => 1
  | .bar => 2
  | .union => 3
  | .complement => 4
  | .delegation => 5
  | .application => 6
  | .atom => 7

/-- The level with a given strength; anything stronger is an atom. -/
def Level.ofStrength : Nat → Level
  | 0 => .predicate
  | 1 => .function
  | 2 => .bar
  | 3 => .union
  | 4 => .complement
  | 5 => .delegation
  | 6 => .application
  | _ => .atom

/-- The text of a suffix. -/
def Suffix.text : Suffix → String
  | .none => ""
  | .optional => "?"
  | .variadic => "..."

namespace TypeExpr

/-- The binding level of a node. -/
def level : TypeExpr → Level
  | function .. => .function
  | delegation .. => .delegation
  | predicate .. => .predicate
  | tagged .. => .bar
  | union .. => .union
  | complement .. => .complement
  | reference _ _ args => if args.isEmpty then .atom else .application
  | named _ _ args => if args.isEmpty then .atom else .application
  | _ => .atom

/-- Whether a node is a delegation. -/
def isDelegation : TypeExpr → Bool
  | delegation .. => true
  | _ => false

/-- Put the text of a node in parentheses if the context binds tighter. -/
def enclose (t : TypeExpr) (context : Level) (text : String) : String :=
  if t.level.strength < context.strength then "(" ++ text ++ ")" else text

/-- The text of a node as an item of a comma-separated list. -/
def encloseItem (t : TypeExpr) (context : Level) (text : String) : String :=
  if t.isDelegation then "(" ++ text ++ ")" else t.enclose context text

/-- The letters of a predicate's listed variables, with the colon that ends them. -/
def binderText (listed : List Binder) : String :=
  if listed.isEmpty then "" else ", ".intercalate (listed.map (·.var.letter)) ++ ": "

mutual

/-- The text of a type, without parentheses around it. -/
def text : TypeExpr → String
  | number value => value.text
  | interval _ low high => low.text ++ " ... " ++ high.text
  | unit _ => "void"
  | primitive _ name => name
  | tuple _ items => "#[" ++ ", ".intercalate (itemTexts .bar items) ++ "]"
  | list _ members => "[" ++ ", ".intercalate (itemTexts .bar members) ++ "]"
  | record _ fields =>
    if fields.isEmpty then "\x7b\x7d"
    else "\x7b " ++ ", ".intercalate (fieldTexts fields) ++ " \x7d"
  | function _ inputs outputs =>
    let arrow := if inputs.isEmpty then "-> " else ", ".intercalate (inputTexts inputs) ++ " -> "
    arrow ++ outputsText outputs
  | delegation _ base targets =>
    base.enclose .application base.text ++ " <| " ++
      ", ".intercalate (argumentTexts .application targets)
  | predicate _ constraint body listed =>
    binderText listed ++ constraint.enclose .function constraint.text ++ " => " ++ body.text
  | tagged _ tags => " | ".intercalate (tagTexts tags)
  | union _ left right =>
    left.enclose .union left.text ++ " + " ++ right.enclose .complement right.text
  | complement _ left right =>
    left.enclose .complement left.text ++ " \\ " ++ right.enclose .delegation right.text
  | reference _ name args => " ".intercalate (name :: argumentTexts .atom args)
  | typeVariable _ v => v.letter
  | named _ name args => " ".intercalate (name :: argumentTexts .atom args)
  | deferred _ target _ => target.enclose .atom target.text

/-- The texts of types as items of a comma-separated list. -/
def itemTexts (context : Level) : List TypeExpr → List String
  | [] => []
  | t :: rest => t.encloseItem context t.text :: itemTexts context rest

/-- The texts of types that are arguments at a binding level. -/
def argumentTexts (context : Level) : List TypeExpr → List String
  | [] => []
  | t :: rest => t.enclose context t.text :: argumentTexts context rest

/-- The texts of fields. -/
def fieldTexts : List (Field TypeExpr) → List String
  | [] => []
  | ⟨name, t⟩ :: rest => (name ++ ": " ++ t.text) :: fieldTexts rest

/-- The texts of inputs, with their suffixes. -/
def inputTexts : List (Parameter TypeExpr) → List String
  | [] => []
  | ⟨t, suffix, _⟩ :: rest => (t.encloseItem .bar t.text ++ suffix.text) :: inputTexts rest

/-- The texts of constructors. -/
def tagTexts : List (Tag TypeExpr) → List String
  | [] => []
  | ⟨name, fields⟩ :: rest =>
    " ".intercalate (name :: argumentTexts .atom fields) :: tagTexts rest

/-- The text of the outputs of a function.  A single output may itself be a function. -/
def outputsText : List TypeExpr → String
  | [t] => t.enclose .function t.text
  | ts => ", ".intercalate (itemTexts .bar ts)

end

/-- The text of a type in a context of a binding level. -/
def textAt (t : TypeExpr) (context : Level) : String :=
  t.enclose context t.text

/-- The text of a node with the name of its kind. -/
def display (t : TypeExpr) : String :=
  t.kind ++ "(" ++ t.text ++ ")"

end TypeExpr

/-- The text of an input. -/
def Parameter.text (p : Parameter TypeExpr) : String :=
  p.type.encloseItem .bar p.type.text ++ p.suffix.text

/-- The text of a constructor. -/
def Tag.text (g : Tag TypeExpr) : String :=
  " ".intercalate (g.name :: TypeExpr.argumentTexts .atom g.fields)

end TypeNotation
