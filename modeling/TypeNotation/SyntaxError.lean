import TypeNotation.Position

/-!
# Syntax errors

Why a text is not in the notation.  Every cause but one has a position, and says what was expected
there and what was found instead.
-/

namespace TypeNotation

/-- The cause for which a text is refused. -/
inductive SyntaxError where
  /-- Something else was expected at this place. -/
  | unexpected (at_ : Position) (expected found : String)
  /-- A bracket is closed by the wrong one, by none, or was never opened. -/
  | bracketMismatch (at_ : Position) (expected found : String)
  /-- There is no type in the text. -/
  | emptyText
  /-- A number is cut short or runs into something else. -/
  | malformedNumber (at_ : Position) (literal : String)
  /-- A field or constructor has the name of an earlier one. -/
  | repeatedName (at_ : Position) (kind name : String)
  /-- An input that takes any number of arguments is not the last one. -/
  | variadicNotLast (at_ : Position) (parameter : String)
  /-- A reserved word stands where a declaration needs its name. -/
  | reservedWord (at_ : Position) (word : String)
  /-- A number contains a digit that has no place value, such as a superscript. -/
  | valuelessDigit
  deriving DecidableEq, Repr

namespace SyntaxError

/-- The place that an error points at. -/
def position? : SyntaxError → Option Position
  | unexpected p _ _ | bracketMismatch p _ _ | malformedNumber p _ | repeatedName p _ _
  | variadicNotLast p _ | reservedWord p _ => some p
  | emptyText => some ⟨1, 1⟩
  | valuelessDigit => none

/-- Put quotes around a piece of source text. -/
def quoted (s : String) : String :=
  "'" ++ s ++ "'"

/-- What was expected. -/
def expected : SyntaxError → String
  | unexpected _ e _ | bracketMismatch _ e _ => e
  | emptyText => "a type"
  | malformedNumber .. => "a number"
  | repeatedName _ kind _ => "a new " ++ kind ++ " name"
  | variadicNotLast .. => "'->' after a variadic parameter"
  | reservedWord .. => "a type name"
  | valuelessDigit => "a digit with a value"

/-- What was found instead. -/
def found : SyntaxError → String
  | unexpected _ _ f | bracketMismatch _ _ f => f
  | emptyText => "end of input"
  | malformedNumber _ literal => quoted literal
  | repeatedName _ _ name => quoted name
  | variadicNotLast _ parameter => "more parameters after " ++ quoted parameter
  | reservedWord _ word => quoted word
  | valuelessDigit => "a digit without one"

/-- The wording of an error. -/
def message : SyntaxError → String
  | unexpected p e f => p.text ++ "expected " ++ e ++ ", but found " ++ f ++ "."
  | bracketMismatch p e f =>
    p.text ++ "mismatched bracket; expected " ++ e ++ ", but found " ++ f ++ "."
  | emptyText => "Empty parse."
  | malformedNumber p literal => p.text ++ "malformed number " ++ quoted literal ++ "."
  | repeatedName p kind name => p.text ++ "duplicate " ++ kind ++ " name " ++ quoted name ++ "."
  | variadicNotLast p _ => p.text ++ "a variadic parameter must be the last input."
  | reservedWord p word => p.text ++ quoted word ++ " is reserved and cannot name a type."
  | valuelessDigit => "a digit has no place value"

end SyntaxError

end TypeNotation
