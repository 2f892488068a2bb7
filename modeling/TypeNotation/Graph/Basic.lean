/-!
# Graphs of triples

A graph is a set of triples over resources, literals and blank nodes.  The triples are kept in the
order in which they came in, each of them once.  A graph also knows how many blank nodes it has
given out, so that the next one is new.
-/

namespace TypeNotation

/-- What a triple relates. -/
inductive Node where
  | iri (name : String)
  | blank (index : Nat)
  | text (value : String)
  | integer (value : Int)
  deriving DecidableEq, Repr

namespace Node

/-- Whether a node counts as something.  The empty text and the number zero do not. -/
def isSomething : Node → Bool
  | iri name => name ≠ ""
  | blank _ => true
  | text value => value ≠ ""
  | integer value => value ≠ 0

/-- Rename a blank node by moving its index up. -/
def shift (by_ : Nat) : Node → Node
  | blank index => blank (index + by_)
  | node => node

end Node

/-- A statement: a subject is related to an object by a predicate. -/
structure Triple where
  subject : Node
  predicate : String
  object : Node
  deriving DecidableEq, Repr

/-- A set of triples, and the number of blank nodes given out. -/
structure Graph where
  triples : List Triple
  blanks : Nat
  deriving Repr

namespace Graph

/-- The graph that says nothing. -/
def empty : Graph := ⟨[], 0⟩

/-- Add a triple, if it is not there yet. -/
def add (g : Graph) (t : Triple) : Graph :=
  if t ∈ g.triples then g else { g with triples := g.triples ++ [t] }

/-- Add triples, in order. -/
def addAll (g : Graph) (ts : List Triple) : Graph :=
  ts.foldl add g

/-- Give out a new blank node. -/
def newBlank (g : Graph) : Node × Graph :=
  (.blank g.blanks, { g with blanks := g.blanks + 1 })

/-- The object that a subject is related to by a predicate. -/
def value? (g : Graph) (subject : Node) (predicate : String) : Option Node :=
  (g.triples.find? fun t => t.subject = subject ∧ t.predicate = predicate).map (·.object)

/-- What two graphs say together.  The blank nodes of the second are kept apart from those of the
first. -/
def union (g h : Graph) : Graph :=
  let moved := h.triples.map fun t =>
    ⟨t.subject.shift g.blanks, t.predicate, t.object.shift g.blanks⟩
  { addAll g moved with blanks := g.blanks + h.blanks }

theorem mem_add {g : Graph} {s t : Triple} :
    s ∈ (g.add t).triples ↔ s ∈ g.triples ∨ s = t := by
  unfold add
  split
  · constructor
    · exact Or.inl
    · rintro (h | rfl)
      · exact h
      · assumption
  · simp

end Graph

/-! ## Vocabularies in use -/

namespace Rdf

/-- A name of the RDF vocabulary. -/
def name (local_ : String) : String :=
  "http://www.w3.org/1999/02/22-rdf-syntax-ns#" ++ local_

/-- The predicate from a resource to its class. -/
def type : String := name "type"

/-- The predicate from a list cell to its item. -/
def first : String := name "first"

/-- The predicate from a list cell to the cells after it. -/
def rest : String := name "rest"

/-- The empty list. -/
def nil : Node := .iri (name "nil")

end Rdf

namespace Rdfs

/-- A name of the RDF schema vocabulary. -/
def name (local_ : String) : String :=
  "http://www.w3.org/2000/01/rdf-schema#" ++ local_

/-- The predicate from a resource to what it is called. -/
def label : String := name "label"

/-- The predicate from a class to a class that holds it. -/
def subClassOf : String := name "subClassOf"

end Rdfs

end TypeNotation
