/-!
# Positions in source text

A position is a line and a column, both counted from one; columns count code points.
-/

namespace TypeNotation

/-- A place in a source text. -/
structure Position where
  line : Nat
  column : Nat
  deriving DecidableEq, Repr, Inhabited

/-- The words that open a message about a position. -/
def Position.text (p : Position) : String :=
  "Line " ++ Nat.repr p.line ++ ", column " ++ Nat.repr p.column ++ ": "

end TypeNotation
