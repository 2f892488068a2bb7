import TypeNotation.Graph.Basic

/-!
# Lists in graphs

An ordered list is a chain of blank cells, each with its item and the cells after it; the empty list
is a resource of its own.  A list is written from its end, and read back from its first cell.
Reading stops at an item that counts as nothing, which leaves a chain that is not a list.
-/

namespace TypeNotation

namespace Graph

/-- Put a cell in front of a list. -/
def cons (g : Graph) (item tail : Node) : Node × Graph :=
  let (cell, g) := g.newBlank
  (cell, (g.add ⟨cell, Rdf.first, item⟩).add ⟨cell, Rdf.rest, tail⟩)

/-- Write a list and return its head. -/
def addList (g : Graph) : List Node → Node × Graph
  | [] => (Rdf.nil, g)
  | item :: rest =>
    let (tail, g) := g.addList rest
    g.cons item tail

/-- Read the items from a node on, and the node at which reading stops, if there is one.  The bound
is on the number of cells. -/
def itemsFrom (g : Graph) : Nat → Node → List Node × Option Node
  | 0, node => ([], some node)
  | bound + 1, node =>
    match (g.value? node Rdf.first).filter Node.isSomething with
    | none => ([], some node)
    | some item =>
      match g.value? node Rdf.rest with
      | none => ([item], none)
      | some tail =>
        let (items, stop) := g.itemsFrom bound tail
        (item :: items, stop)

/-- The items of a list, if reading them ends at the empty list.  A list has no more cells than the
graph has triples. -/
def getList? (g : Graph) (head : Node) : Option (List Node) :=
  match g.itemsFrom (g.triples.length + 1) head with
  | (items, stop) => if stop = some Rdf.nil then some items else none

end Graph

end TypeNotation
