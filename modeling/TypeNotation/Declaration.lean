import TypeNotation.TypeExpr.Equality
import TypeNotation.TypeExpr.Printer

/-!
# Declarations

A declaration gives a name to a type, which may have parameters.
-/

namespace TypeNotation

/-- A named type definition. -/
structure Declaration where
  name : String
  parameters : List Binder
  body : TypeExpr
  position : Option Position

namespace Declaration

/-- The number of parameters. -/
def arity (d : Declaration) : Nat :=
  d.parameters.length

/-- The letters of the parameters. -/
def letters (d : Declaration) : List String :=
  d.parameters.map (·.var.letter)

/-- Equality of declarations: name, letters and body.  Positions do not count. -/
def same (d e : Declaration) : Bool :=
  d.name = e.name && d.letters = e.letters && d.body.same e.body

/-- The text of a declaration. -/
def text (d : Declaration) : String :=
  d.name ++ String.join (d.letters.map (" " ++ ·)) ++ ": " ++ d.body.text

end Declaration

end TypeNotation
