import TypeNotation.Graph.RdfList
import TypeNotation.Session

/-!
# Registries as vocabularies

A registry is published as a graph: every declaration is a resource with its arity, its notation
text and, as asked for, its label, its parameters, the parts of a delegation, and the constructors
of a tagged union.

The *taxonomy* relates the declarations without parameters by the subtype relation, reduced to the
relations that do not follow from others.  Declarations that cannot be resolved, and pairs that
cannot be compared, are left out.
-/

namespace TypeNotation

/-- What is described. -/
structure VocabularyOptions where
  namespace_ : String
  openRecords : Bool
  taxonomy : Bool
  delegation : Bool
  constructors : Bool
  labels : Bool

namespace VocabularyOptions

/-- The namespace of resources where none is asked for. -/
def exampleNamespace : String := "https://example.com/#"

/-- Everything is described, or, if less is wanted, only the declarations themselves. -/
def standard (minimal : Bool) : VocabularyOptions :=
  ⟨exampleNamespace, true, !minimal, !minimal, !minimal, !minimal⟩

end VocabularyOptions

namespace Vocabulary

/-- A name of the vocabulary for types. -/
def name (local_ : String) : String :=
  "urn:oblige:vocab#" ++ local_

/-- The resource of a name. -/
def resource (options : VocabularyOptions) (local_ : String) : Node :=
  .iri (options.namespace_ ++ local_)

/-- A plain reference to a declared type is that type's resource; anything else is its notation
text. -/
def referenceNode (options : VocabularyOptions) (registry : Registry) (t : TypeExpr) : Node :=
  match t with
  | .reference _ name [] =>
    if registry.hasName name && !Registry.isBuiltin name then resource options name
    else .text t.text
  | _ => .text t.text

/-! ## Declarations -/

/-- The triples of a constructor. -/
def tagTriples (options : VocabularyOptions) (d : Declaration) (g : Tag TypeExpr) : List Triple :=
  let node := resource options (d.name ++ "." ++ g.name)
  [⟨node, Rdf.type, .iri (name "Constructor")⟩,
    ⟨node, name "constructorOf", resource options d.name⟩,
    ⟨node, name "arity", .integer g.fields.length⟩] ++
    (if options.labels then [⟨node, Rdfs.label, .text g.name⟩] else [])

/-- Add a list as the object of a triple. -/
def addListTriple (graph : Graph) (subject : Node) (predicate : String) (items : List Node) :
    Graph :=
  let (head, graph) := graph.addList items
  graph.add ⟨subject, predicate, head⟩

/-- Describe a declaration. -/
def addDeclaration (options : VocabularyOptions) (registry : Registry) (graph : Graph)
    (d : Declaration) : Graph :=
  let node := resource options d.name
  let graph := graph.addAll [⟨node, Rdf.type, .iri (name "Type")⟩,
    ⟨node, name "arity", .integer d.arity⟩, ⟨node, name "text", .text d.body.text⟩]
  let graph :=
    if d.parameters.isEmpty then graph
    else addListTriple graph node (name "parameters") (d.letters.map .text)
  let graph := if options.labels then graph.add ⟨node, Rdfs.label, .text d.name⟩ else graph
  let graph :=
    match d.body with
    | .delegation _ base targets =>
      if options.delegation then
        addListTriple (graph.add ⟨node, name "base", referenceNode options registry base⟩) node
          (name "delegatesTo") (targets.map (referenceNode options registry))
      else graph
    | _ => graph
  match d.body with
  | .tagged _ tags =>
    if options.constructors then graph.addAll (tags.flatMap (tagTriples options d)) else graph
  | _ => graph

/-- The declarations that are described. -/
def described (registry : Registry) : List Declaration :=
  registry.declarations.filter fun d => !Registry.isBuiltin d.name

/-! ## Taxonomy -/

/-- A relation between names. -/
abbrev Relation := List (String × String)

/-- Whether one name is related to another. -/
def related (r : Relation) (a b : String) : Bool :=
  (a, b) ∈ r

/-- Whether a relation follows from others: there is a name strictly in between. -/
def isImplied (r : Relation) (a c : String) : Bool :=
  r.any fun (x, b) =>
    x = a && b ≠ c && related r b c && !related r b a && !related r c b

/-- The relations that do not follow from others. -/
def reduced (r : Relation) : Relation :=
  r.filter fun (a, c) => !isImplied r a c

/-- Do something that may not be possible for lack of a normal form. -/
def ifResolvable {α : Type} (action : Action α) : Action (Option α) := do
  try
    return some (← action)
  catch
    | .resolution _ => return none
    | fault => throw fault

/-- The normal forms of the declarations without parameters, as far as they have one. -/
def normalForms (ds : List Declaration) : Action (List (String × TypeExpr)) := do
  let found ← ds.filterMapM fun d => do
    if d.arity = 0 then
      let t ← ifResolvable (Action.resolve (.reference (.written none) d.name []))
      return t.map fun t => (d.name, t)
    else return none
  return found

/-- The subtype relation between different names. -/
def subtypeRelation (openRecords : Bool) (types : List (String × TypeExpr)) : Action Relation := do
  let rows ← types.mapM fun (a, s) => types.filterMapM fun (b, t) => do
    if a = b then return none
    let holds ← ifResolvable (Action.isSubtype openRecords s t)
    return if holds = some true then some (a, b) else none
  return rows.flatten

/-- The triples of the taxonomy. -/
def taxonomy (options : VocabularyOptions) : Action (List Triple) := do
  let types ← normalForms (described (← get).registry)
  let r ← subtypeRelation options.openRecords types
  return (reduced r).map fun (a, b) =>
    ⟨resource options a, Rdfs.subClassOf, resource options b⟩

/-- The graph of a registry. -/
def build (options : VocabularyOptions) : Action Graph := do
  let registry := (← get).registry
  let graph := (described registry).foldl (addDeclaration options registry) Graph.empty
  if options.taxonomy then return graph.addAll (← taxonomy options) else return graph

end Vocabulary

end TypeNotation
