import TypeNotation.Parser.Cursor
import TypeNotation.TypeExpr.Equality
import TypeNotation.TypeExpr.Printer

/-!
# Atoms

The innermost productions: numbers and intervals, names, brackets of all kinds, records, and the
application of a name to arguments.  What stands inside brackets is a whole type again; the
production for it is a parameter here.
-/

namespace TypeNotation

/-- What the surroundings of a type allow: whether a comma may continue a list, and whether
alternatives of bare names are constructors. -/
structure Surroundings where
  commas : Bool
  top : Bool

/-- A production for types, given what their surroundings allow. -/
abbrev TypeParser := Surroundings → Parser TypeExpr

namespace Parser

/-! ## Numbers -/

/-- A number token, as a literal. -/
def literal : Parser Numeral := do
  let token ← peek
  match token.kind with
  | .number x =>
    modify List.tail
    return .literal token.position x
  | _ => refuse "a number"

/-- The tower of powers of some literals.  It groups to the right. -/
def powerTower (base : Numeral) : List Numeral → Numeral
  | [] => base
  | exponent :: rest => .power base.position base (powerTower exponent rest)

/-- A literal or a tower of powers of literals. -/
def numeral : Parser Numeral := do
  let base ← literal
  let exponents ← repeatWhile (frontIsMark .caret) (fun exponents => do
    takeMark .caret
    return exponents ++ [← literal]) []
  return powerTower base exponents

/-- Whether dots and another number follow, which makes an interval. -/
def intervalAhead (tokens : List Token) : Bool :=
  frontIsMark .ellipsis tokens && (tokenAt tokens 1).value?.isSome

/-- A number or an interval. -/
def number : Parser TypeExpr := do
  let start ← peek
  let low ← numeral
  if ← asks intervalAhead then
    takeMark .ellipsis
    return .interval (.written start.position) low (← numeral)
  else return .number low

/-! ## Brackets -/

/-- Types separated by commas, up to and including a closing bracket. -/
def items (type : TypeParser) (closer : Punctuation) : Parser (List TypeExpr) := do
  let ts ← repeatWhile (fun tokens => !frontIsMark closer tokens) (fun ts => do
    let t ← type ⟨false, false⟩
    if ← asks (frontIsMark .comma) then takeMark .comma
    else if !(← asks (frontIsMark closer)) then
      refuse ("',' or " ++ SyntaxError.quoted closer.text)
    return ts ++ [t]) []
  takeMark closer
  return ts

/-- A field of a record.  Variables after the name are allowed and mean nothing, since variables are
introduced implicitly anyway. -/
def field (type : TypeParser) (earlier : List (Field TypeExpr)) : Parser (Field TypeExpr) := do
  let name ← peek
  if name.kind ≠ .name then refuse "a field name"
  modify List.tail
  if earlier.any (·.name = name.text) then fail (.repeatedName name.position "field" name.text)
  modify (List.dropWhile fun t => t.kind = .name && t.isVariable)
  takeMark .colon
  return ⟨name.text, ← type ⟨true, true⟩⟩

/-- The fields of a record, up to and including the closing brace. -/
def fields (type : TypeParser) : Parser (List (Field TypeExpr)) := do
  skipBreaks
  let fs ← repeatWhile (fun tokens => !frontIsMark .braceClose tokens) (fun fs => do
    let f ← field type fs
    if ← asks (fun tokens => frontIsMark .comma tokens || frontIs .newline tokens) then
      skipSeparators
    else if !(← asks (frontIsMark .braceClose)) then refuse "',', a line break or '\x7d'"
    return fs ++ [f]) []
  takeMark .braceClose
  return fs

/-- A type in parentheses, after the opening one. -/
def parenthesized (type : TypeParser) : Parser TypeExpr := do
  skipBreaks
  let t ← type ⟨true, false⟩
  takeMark .parenClose
  return t

/-! ## Atoms and applications -/

/-- A type that needs no parentheses anywhere. -/
def atom (type : TypeParser) : Parser TypeExpr := do
  let token ← peek
  let mark := Mark.written token.position
  match token.kind with
  | .name =>
    modify List.tail
    return if token.isVariable then .typeVariable mark ⟨token.text, none⟩
      else .reference mark token.text []
  | .void =>
    modify List.tail
    return .unit mark
  | .number _ => number
  | .mark .parenOpen =>
    modify List.tail
    parenthesized type
  | .mark .bracketOpen =>
    modify List.tail
    return .listOf mark (← items type .bracketClose)
  | .mark .tupleOpen =>
    modify List.tail
    return .tuple mark (← items type .bracketClose)
  | .mark .braceOpen =>
    modify List.tail
    return .record mark (← fields type)
  | _ => refuse "a type"

/-- A name with its arguments, or an atom. -/
def application (type : TypeParser) : Parser TypeExpr := do
  let token ← peek
  if token.kind = .name ∧ !token.isVariable then
    modify List.tail
    let args ← repeatWhile (fun tokens => (tokenAt tokens 0).kind.startsType)
      (fun args => return args ++ [← atom type]) []
    return .reference (.written token.position) token.text args
  else atom type

end Parser

end TypeNotation
