import TypeNotation.Declaration
import TypeNotation.Parser.Operators

/-!
# Source texts

A source text is a sequence of declarations, separated by line breaks or commas.  `parse` reads one
and `parseType` reads a single type.
-/

namespace TypeNotation

/-- The words that no declaration may have for a name. -/
def reservedWords : List String :=
  ["void", "nan"]

namespace Parser

/-- The name of a declaration. -/
def declaredName : Parser Token := do
  let token ← peek
  if token.text ∈ reservedWords then fail (.reservedWord token.position token.text)
  if token.kind = .name ∧ !token.isVariable then next else refuse "a type name"

/-- Another parameter of a declaration, different from the earlier ones. -/
def declaredParameter (earlier : List Binder) : Parser Binder := do
  let token ← next
  let at_ (expected : String) : SyntaxError := .unexpected token.position expected token.described
  if !token.isVariable then fail (at_ "a type variable or ':'")
  if earlier.any (·.var.letter = token.text) then fail (at_ "a new type variable")
  return ⟨token.position, ⟨token.text, none⟩⟩

/-- A declaration. -/
def declaration : Parser Declaration := do
  let name ← declaredName
  let parameters ← repeatWhile (frontIs .name)
    (fun parameters => return parameters ++ [← declaredParameter parameters]) []
  takeMark .colon
  let body ← type (← read) ⟨true, true⟩
  return ⟨name.text, parameters, body, name.position⟩

/-- Whether a declaration may end here. -/
def endsDeclaration (tokens : List Token) : Bool :=
  frontIs .newline tokens || frontIsMark .comma tokens || frontIs .finish tokens

/-- Declarations and one more after them, with the separators that come after it. -/
def anotherDeclaration (ds : List Declaration) : Parser (List Declaration) := do
  let d ← declaration
  if !(← asks endsDeclaration) then refuse "a line break or ','"
  skipSeparators
  return ds ++ [d]

/-- Declarations up to the end of the text. -/
def declarations : Parser (List Declaration) := do
  skipSeparators
  repeatWhile (fun tokens => !frontIs .finish tokens) anotherDeclaration []

/-- A single type, which takes up the whole text. -/
def wholeType : Parser TypeExpr := do
  skipBreaks
  if ← asks (frontIs .finish) then fail .emptyText
  let t ← type (← read) ⟨true, false⟩
  skipBreaks
  if !(← asks (frontIs .finish)) then refuse "end of input"
  return t

end Parser

/-- How a production ends on a text. -/
def reading {α : Type} (p : Parser α) (text : String) : Except Stop α :=
  match tokenize text with
  | .ok tokens => ((p.run tokens.length).run tokens).map Prod.fst
  | .error e => .error (.refused e)

/-- Run a production on a text. -/
def runParser {α : Type} (p : Parser α) (text : String) : Except SyntaxError α :=
  match reading p text with
  | .ok a => .ok a
  | .error (.refused e) => .error e
  -- the bound is always large enough, and nothing is missing
  | .error _ => .error .emptyText

/-- The declarations of a source text, in order of appearance. -/
def parse (text : String) : Except SyntaxError (List Declaration) :=
  runParser Parser.declarations text

/-- The type that a text denotes. -/
def parseType (text : String) : Except SyntaxError TypeExpr :=
  runParser Parser.wholeType text

end TypeNotation
