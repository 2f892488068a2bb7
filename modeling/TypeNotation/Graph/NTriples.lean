import TypeNotation.Graph.Basic
import TypeNotation.Number.Decimal

/-!
# N-Triples

One line for each triple.  Lines are written in the order of their text, so that equal graphs
without blank nodes have equal documents.
-/

namespace TypeNotation

namespace NTriples

/-- A character inside a quoted literal. -/
def escapeChar (c : Char) : List Char :=
  match c with
  | '\\' => ['\\', '\\']
  | '\n' => ['\\', 'n']
  | '"' => ['\\', '"']
  | '\r' => ['\\', 'r']
  | c => [c]

/-- A quoted literal. -/
def quoted (s : String) : String :=
  String.ofList ('"' :: s.toList.flatMap escapeChar ++ ['"'])

/-- An IRI between angle brackets. -/
def bracketed (iri : String) : String :=
  "<" ++ iri ++ ">"

/-- The text of a node. -/
def node : Node → String
  | .iri name => bracketed name
  | .blank index => "_:b" ++ Nat.repr index
  | .text value => quoted value
  | .integer value =>
    quoted (Number.intText value) ++ "^^" ++ bracketed "http://www.w3.org/2001/XMLSchema#integer"

/-- The line of a triple, without its end. -/
def line (t : Triple) : String :=
  node t.subject ++ " " ++ bracketed t.predicate ++ " " ++ node t.object ++ " ."

/-- The lines of a graph, in order. -/
def lines (g : Graph) : List String :=
  (g.triples.map line).mergeSort fun a b => a ≤ b

/-- The document of a graph. -/
def document (g : Graph) : String :=
  String.join ((lines g).map (· ++ "\n"))

end NTriples

end TypeNotation
