import TypeNotation.Relation.Subtype
import TypeNotation.Resolution.Expansion
import TypeNotation.Resolution.Productive

/-!
# Sessions

A session is a registry together with the store of everything that resolving has made so far.  Its
operations keep the store also when they fail.

A resolution expands a type and then concludes: it checks that the expansions are productive, checks
the noted conditions, and hands the expansions to the memo.  Checking a condition may need the
result of a suspended target, whose resolution is a session of the same kind; the nesting of such
demands is bounded.
-/

namespace TypeNotation

/-- A registry and the store of what resolving has made. -/
structure Session where
  registry : Registry
  store : Store

namespace Session

/-- A session on a registry. -/
def ofRegistry (registry : Registry) : Session := ⟨registry, .empty⟩

instance : Inhabited Session := ⟨ofRegistry .empty⟩

end Session

/-- An operation on a session.  A fault keeps the session as it is at that point. -/
abbrev Action (α : Type) := ExceptT Fault (StateM Session) α

namespace Action

variable {α : Type}

/-- The bound on the depth of questions and on the nesting of demands. -/
def depthBound : Nat := 20000

/-- Why an operation fails when a question has no answer. -/
def faultOf : Halt → Fault
  | .unresolved t => .unresolved t
  | .incomparable => .incomparable
  | .arithmetic fault => .arithmetic fault
  | .demand _ => .exhausted
  | .exhausted => .exhausted

/-- Ask a question, resolving the suspended targets that it demands.  The bound is on their number.
-/
def askWith (force : TypeExpr → Action TypeExpr) (question : Heap → Query α) : Nat → Action α
  | 0 => throw .exhausted
  | bound + 1 => do
    match question (← get).store.heap with
    | .ok answer => return answer
    | .error (.demand target) =>
      let _ ← force target
      askWith force question bound
    | .error halt => throw (faultOf halt)

/-! ## Resolution -/

/-- Change a resolver. -/
def modifyResolver (key : Nat) (f : Resolver → Resolver) : Action Unit :=
  modify fun s => { s with store := s.store.setResolver key (f (s.store.resolver key)) }

/-- Check a condition.  A binding that has variables is checked when it is instantiated. -/
def checkCondition (force : TypeExpr → Action TypeExpr) (c : Condition) : Action Unit := do
  if c.binding.isClosed then
    let holds ← askWith force (fun heap =>
      (Matcher.mk heap true).isSubtype depthBound c.binding c.constraint) depthBound
    if !holds then
      throw (.resolution (.predicateViolation c.var c.binding c.constraint c.position))

/-- Check what could only be checked once every expansion was complete, then remember the
expansions. -/
def conclude (force : TypeExpr → Action TypeExpr) (key : Nat) : Action Unit := do
  let s ← get
  match s.store.heap.checkProductive (s.store.resolver key).expanded with
  | .error e => throw (.resolution e)
  | .ok () =>
    let conditions := (s.store.resolver key).pending
    modifyResolver key fun r => { r with pending := [] }
    conditions.forM (checkCondition force)
    modify fun s => { s with registry := s.registry.memoize (s.store.resolver key).expanded }

/-- Run an expansion with a resolver from the store. -/
def runExpansion (key : Nat) (expansion : Expansion α) : Action α := do
  let s ← get
  let (result, e) := expansion.run.run ⟨s.store, (s.store.resolver key).restart⟩
  set { s with store := e.store.setResolver key e.resolver }
  match result with
  | .ok a => return a
  | .error fault => throw fault

/-- Expand with a resolver and conclude.  A regular fault, and a question that went too deep, make
the resolver forget what it has done, and the latter is reported as a budget that is used up; any
other fault leaves the resolver as it stands. -/
def resolving (force : TypeExpr → Action TypeExpr) (key : Nat) (expansion : Expansion α) :
    Action α :=
  tryCatch (do
    let result ← runExpansion key expansion
    conclude force key
    return result) fun raised => do
      let fault := ((← get).store.resolver key).report raised
      if fault.isRegular then modifyResolver key Resolver.clear
      throw fault

/-- What is suspended at a node.  A node without a suspension stands for itself. -/
def suspensionAt (s : Store) (node : TypeExpr) : Suspension :=
  (s.suspensions[node.stamp]?).getD <|
    match node with
    | .deferred _ target bindings => ⟨target, bindings, none⟩
    | t => ⟨t, [], none⟩

/-- Resolve what is suspended at a node and keep the result. -/
def forceAnew (force : TypeExpr → Action TypeExpr) (node : TypeExpr) : Action TypeExpr := do
  let s ← get
  let suspension := suspensionAt s.store node
  let result ← resolving force node.stamp
    (Expansion.expand s.registry suspension.env suspension.scope suspension.target)
  modify fun s => { s with store :=
    { s.store with heap := s.store.heap.setResult node.stamp result } }
  return result

/-- The result of a suspended target, resolved unless it has been before.  The bound is on the
nesting of demands. -/
def forceWithin : Nat → TypeExpr → Action TypeExpr
  | 0, _ => throw .exhausted
  | bound + 1, node => do
    match (← get).store.heap.result? node.stamp with
    | some result => return result
    | none => forceAnew (forceWithin bound) node

/-- The result of a suspended target, resolved unless it has been before. -/
def force (node : TypeExpr) : Action TypeExpr :=
  forceWithin depthBound node

/-- Ask a question about normal forms. -/
def ask (question : Heap → Query α) : Action α :=
  askWith force question depthBound

/-- The result of a suspended target, resolved if need be; the unfolding of any other type. -/
def reveal (t : TypeExpr) : Action TypeExpr :=
  ask fun heap => heap.reveal t

/-! ## Resolvers and types -/

/-- Make a resolver with a budget. -/
def newResolver (maxSteps maxDepth : Nat) : Action Nat :=
  modifyGet fun s =>
    let key := s.store.nextStamp
    (key, { s with store :=
      { s.store.setResolver key (.ofBudget maxSteps maxDepth) with nextStamp := key + 1 } })

/-- The normal form of a type whose variables are bound to types, which are resolved first. -/
def resolveWith (key : Nat) (t : TypeExpr) (bindings : List (Field TypeExpr)) :
    Action TypeExpr := do
  let registry := (← get).registry
  let result ← resolving force key do
    let env ← bindings.mapM fun b =>
      return (⟨b.name, ← Expansion.expand registry [] none b.type⟩ : Field TypeExpr)
    Expansion.expand registry env none t
  return (← get).store.heap.unfold result

/-- The normal form of a type, by a resolver of its own. -/
def resolve (t : TypeExpr) : Action TypeExpr := do
  resolveWith (← newResolver 10000 64) t []

/-- Read something from text. -/
def reading (result : Except SyntaxError α) : Action α :=
  match result with
  | .ok a => return a
  | .error e => throw (.unreadable e)

/-- The normal form of the type that a text denotes. -/
def resolveText (text : String) : Action TypeExpr := do
  resolve (← reading (parseType text))

/-! ## Declarations -/

/-- Change the registry, unless there is a conflict. -/
def updateRegistry (f : Registry → Except Conflict Registry) : Action Unit := do
  let s ← get
  match f s.registry with
  | .ok registry => set { s with registry }
  | .error c => throw (.conflict c)

/-- Declare a name. -/
def declare (d : Declaration) : Action Unit :=
  updateRegistry (·.declare d)

/-- Load a batch of declarations, all of them or none. -/
def load (ds : List Declaration) : Action Unit :=
  updateRegistry (·.load ds)

/-- Load the declarations of a source text and return them. -/
def loadText (text : String) : Action (List Declaration) := do
  let ds ← reading (parse text)
  load ds
  return ds

/-! ## Questions about types -/

/-- Whether a value inhabits a type. -/
def isMember (openRecords : Bool) (v : Value) (t : TypeExpr) : Action Bool :=
  ask fun heap => (Matcher.mk heap openRecords).matchesType depthBound v t

/-- Whether one type is a subtype of another. -/
def isSubtype (openRecords : Bool) (a b : TypeExpr) : Action Bool :=
  ask fun heap => (Matcher.mk heap openRecords).isSubtype depthBound a b

/-- Whether two types may share a value. -/
def overlaps (openRecords : Bool) (a b : TypeExpr) : Action Bool :=
  ask fun heap => (Matcher.mk heap openRecords).overlaps depthBound a b

/-- The type of a member. -/
def member? (t : TypeExpr) (name : String) : Action (Option TypeExpr) :=
  ask fun heap => heap.member? depthBound t name

/-- The names of all members. -/
def members (t : TypeExpr) : Action (List String) :=
  ask fun heap => heap.members depthBound t

/-- The intervals that make up a type. -/
def spans (t : TypeExpr) : Action (List Span) :=
  ask fun heap => heap.spans depthBound t

/-- The type of a member of the type that a text denotes. -/
def lookupMember (text name : String) : Action (Option TypeExpr) := do
  member? (← resolveText text) name

end Action

end TypeNotation
