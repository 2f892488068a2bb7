import TypeNotation.Resolution.Error
import TypeNotation.TypeExpr.Subterms

/-!
# Expansion

Expansion turns a written type into a normal form.  A reference becomes a named node whose body is
the body of the declaration with the arguments in the place of the parameters.  An expansion that
has been made, or is under way, is used again, which ties the knot of a recursive type.  Numbers are
evaluated as far as they can be.  Delegation targets are suspended.

A budget bounds the number of references that are expanded and how deeply expansions nest.  The
depth makes expansion terminate: below the greatest depth a reference opens the body of its
declaration, and at the greatest depth it fails.

The conditions of predicates are not checked on the way but noted, since they can only be judged
when every expansion is complete.
-/

namespace TypeNotation

/-- Types bound to the letters of variables. -/
abbrev Env := List (Field TypeExpr)

/-- A condition to be checked: the type bound to a variable must satisfy the constraint. -/
structure Condition where
  binding : TypeExpr
  constraint : TypeExpr
  var : Variable
  position : Option Position

/-- A resolver: its budget, and what it keeps from one resolution to the next. -/
structure Resolver where
  maxSteps : Nat
  maxDepth : Nat
  /-- The references expanded in the present resolution. -/
  steps : Nat
  /-- The named nodes made so far, in order. -/
  expanded : List TypeExpr
  /-- The conditions that are still to be checked. -/
  pending : List Condition

namespace Resolver

/-- A resolver with a budget that has done nothing yet. -/
def ofBudget (maxSteps maxDepth : Nat) : Resolver :=
  ⟨maxSteps, maxDepth, 0, [], []⟩

/-- The budget of a resolver where none is asked for. -/
def fresh : Resolver :=
  ofBudget 10000 64

/-- A resolver as it starts a resolution. -/
def restart (r : Resolver) : Resolver :=
  { r with steps := 0 }

/-- A resolver that has forgotten its expansions and conditions. -/
def clear (r : Resolver) : Resolver :=
  { r with expanded := [], pending := [] }

/-- How a resolution reports what went wrong in it.  A question that went too deep is reported like
a budget that is used up, without the type that was being expanded; no expansion is open any more
when that is noticed, so the depth is zero. -/
def report (r : Resolver) : Fault → Fault
  | .exhausted => .resolution (.expansionLimit r.steps 0 none none)
  | fault => fault

end Resolver

/-- What is needed to resolve a suspended target later: the target, what the variables were bound
to, and the declaration that it stands in. -/
structure Suspension where
  target : TypeExpr
  env : Env
  scope : Option String

/-- Everything that expansions share: the heap, the suspended targets and the resolvers by their
stamps, and the stamp to be given next. -/
structure Store where
  heap : Heap
  suspensions : Std.HashMap Nat Suspension
  resolvers : Std.HashMap Nat Resolver
  nextStamp : Nat

namespace Store

/-- The store of a new session. -/
def empty : Store := ⟨.empty, ∅, ∅, 1⟩

instance : Inhabited Store := ⟨empty⟩

/-- The resolver under a stamp. -/
def resolver (s : Store) (stamp : Nat) : Resolver :=
  (s.resolvers[stamp]?).getD .fresh

/-- Put a resolver under a stamp. -/
def setResolver (s : Store) (stamp : Nat) (r : Resolver) : Store :=
  { s with resolvers := s.resolvers.insert stamp r }

end Store

/-- The state of an expansion: the store, and the resolver at work. -/
structure Expanding where
  store : Store
  resolver : Resolver

/-- A step of expansion.  A fault keeps the state as it is at that point. -/
abbrev Expansion (α : Type) := ExceptT Fault (StateM Expanding) α

namespace Expansion

/-- Give out a stamp. -/
def newStamp : Expansion Nat :=
  modifyGet fun s =>
    (s.store.nextStamp, { s with store := { s.store with nextStamp := s.store.nextStamp + 1 } })

/-- The mark of a new node that stands for the node with the given mark. -/
def remark (m : Mark) : Expansion Mark :=
  return ⟨m.position, ← newStamp⟩

/-- Change the resolver at work. -/
def modifyResolver (f : Resolver → Resolver) : Expansion Unit :=
  modify fun s => { s with resolver := f s.resolver }

/-- Fail with an error about the input. -/
def refuse {α : Type} (e : ResolutionError) : Expansion α :=
  throw (.resolution e)

/-! ## Numbers -/

/-- Evaluate a numeral; a power that is not computed keeps its evaluated parts. -/
def numeral : Numeral → Expansion Numeral
  | x@(.literal ..) => return x
  | x@(.power position base exponent) => do
    match x.value? with
    | .error .domain => refuse (.invalidNumber x.text position)
    | .error .overflow => throw (.arithmetic .overflow)
    | .ok (some v) => return .literal position v
    | .ok none =>
      let b ← numeral base
      return .power position b (← numeral exponent)

/-- Evaluate the ends of an interval, which must not be empty. -/
def interval (m : Mark) (low high : Numeral) : Expansion TypeExpr := do
  let text := (TypeExpr.interval m low high).text
  let l ← numeral low
  let h ← numeral high
  if l.isNaN || h.isNaN then refuse (.emptyInterval text m.position)
  match l.compare h with
  | .error .domain => refuse (.invalidNumber text m.position)
  | .error .overflow => throw (.arithmetic .overflow)
  | .ok .lt => return .interval (← remark m) l h
  | .ok _ => refuse (.emptyInterval text m.position)

/-! ## Variables and predicates -/

/-- A variable with a scope stays; one that is bound becomes its binding; any other takes the scope
of the declaration that it stands in. -/
def typeVariable (env : Env) (scope : Option String) (m : Mark) (v : Variable) :
    Expansion TypeExpr := do
  if v.scope.isSome then return .typeVariable m v
  match Field.find? env v.letter with
  | some t => return t
  | none => return .typeVariable (← remark m) ⟨v.letter, scope⟩

/-- A quantified variable that is not bound, in the scope of the declaration that it stands in. -/
def freeBinder (scope : Option String) (b : Binder) : Binder :=
  if b.var.scope.isSome then b else ⟨b.position, ⟨b.var.letter, scope⟩⟩

/-- What a variable is bound to, unless it has a scope. -/
def binding? (env : Env) (b : Binder) : Option TypeExpr :=
  if b.var.scope.isSome then none else Field.find? env b.var.letter

/-- A predicate whose constraint and body are expanded.  Bound variables give conditions to be
checked; a predicate that has no other variables is its body. -/
def predicate (env : Env) (scope : Option String) (m : Mark) (binders : List Binder)
    (constraint body : TypeExpr) : Expansion TypeExpr := do
  let conditions := binders.filterMap fun b =>
    (binding? env b).map fun t => (⟨t, constraint, b.var, m.position⟩ : Condition)
  modifyResolver fun r => { r with pending := r.pending ++ conditions }
  let free := (binders.filter fun b => (binding? env b).isNone).map (freeBinder scope)
  if free.isEmpty then return body else return .predicate (← remark m) constraint body free

/-- Suspend a delegation target, with a resolver of its own that has the budget of the one at work.
-/
def suspend (env : Env) (scope : Option String) (target : TypeExpr) : Expansion TypeExpr := do
  let stamp ← newStamp
  let letters := (target.typeVariables.map (·.var.letter)).eraseDups
  let bindings := letters.filterMap fun letter =>
    (Field.find? env letter).map fun t => (⟨letter, t⟩ : Field TypeExpr)
  modify fun s =>
    let r := Resolver.ofBudget s.resolver.maxSteps s.resolver.maxDepth
    let store := s.store.setResolver stamp r
    { s with store :=
        { store with suspensions := store.suspensions.insert stamp ⟨target, env, scope⟩ } }
  return .deferred ⟨none, stamp⟩ target bindings

/-! ## References -/

/-- Expand the body of a declaration: the body, what the parameters are bound to, and the name. -/
abbrev Opening := TypeExpr → Env → Option String → Expansion TypeExpr

/-- Expand a reference whose arguments are expanded.  Without an opening the greatest depth is
reached. -/
def reference (registry : Registry) (depth : Nat) (opening : Option Opening) (m : Mark)
    (d : Declaration) (args : List TypeExpr) : Expansion TypeExpr := do
  let wanted := TypeExpr.named m d.name args
  let known := ((← get).resolver.expanded.find? (·.same wanted)).orElse
    fun _ => registry.memoized wanted
  if let some t := known then return t
  modifyResolver fun r => { r with steps := r.steps + 1 }
  let r := (← get).resolver
  match opening with
  | some expandBody =>
    if r.maxSteps < r.steps then refuse (.expansionLimit r.steps depth (some wanted) m.position)
    let mark ← remark m
    let node := TypeExpr.named mark d.name args
    modifyResolver fun r => { r with expanded := r.expanded ++ [node] }
    -- of parameters with the same letter the last one counts
    let env : Env := ((d.letters.zip args).map fun (letter, t) => ⟨letter, t⟩).reverse
    let body ← expandBody d.body env (some d.name)
    modify fun s =>
      { s with store := { s.store with heap := s.store.heap.setBody mark.stamp body } }
    return node
  | none => refuse (.expansionLimit r.steps depth (some wanted) m.position)

/-- The declaration that a reference names, if the number of arguments is right. -/
def declarationOf (registry : Registry) (m : Mark) (name : String) (given : Nat) :
    Expansion Declaration :=
  match registry.lookup name with
  | none => refuse (.undefined name m.position)
  | some d =>
    if given = d.arity then return d else refuse (.arity name d.arity given m.position)

/-! ## Types -/

mutual

/-- Expand a type, with types bound to the letters of variables, inside the declaration of a given
name. -/
def expandIn (registry : Registry) (depth : Nat) (opening : Option Opening) (env : Env)
    (scope : Option String) : TypeExpr → Expansion TypeExpr
  | .number x => return .number (← numeral x)
  | .interval m low high => interval m low high
  | t@(.unit _) => return t
  | t@(.primitive ..) => return t
  | .tuple m items => do
    let ts ← expandAll registry depth opening env scope items
    return .tuple (← remark m) ts
  | .list m members => do
    let ts ← expandAll registry depth opening env scope members
    return .listOf (← remark m) ts
  | .record m fields => do
    let fs ← expandFields registry depth opening env scope fields
    return .record (← remark m) fs
  | .function m inputs outputs => do
    let ps ← expandInputs registry depth opening env scope inputs
    let ts ← expandAll registry depth opening env scope outputs
    return .function (← remark m) ps ts
  | .delegation m base targets => do
    let b ← expandIn registry depth opening env scope base
    let ts ← targets.mapM (suspend env scope)
    return .delegation (← remark m) b ts
  | .predicate m constraint body listed => do
    let c ← expandIn registry depth opening env scope constraint
    let b ← expandIn registry depth opening env scope body
    predicate env scope m (TypeExpr.quantified listed body) c b
  | .tagged m tags => do
    let gs ← expandTags registry depth opening env scope tags
    return .tagged (← remark m) gs
  | .union m left right => do
    let l ← expandIn registry depth opening env scope left
    let r ← expandIn registry depth opening env scope right
    return .union (← remark m) l r
  | .complement m left right => do
    let l ← expandIn registry depth opening env scope left
    let r ← expandIn registry depth opening env scope right
    return .complement (← remark m) l r
  | .reference m name args => do
    let d ← declarationOf registry m name args.length
    let ts ← expandAll registry depth opening env scope args
    reference registry depth opening m d ts
  | .typeVariable m v => typeVariable env scope m v
  | t@(.named ..) => return t
  | t@(.deferred ..) => return t

/-- Expand types, in order. -/
def expandAll (registry : Registry) (depth : Nat) (opening : Option Opening) (env : Env)
    (scope : Option String) : List TypeExpr → Expansion (List TypeExpr)
  | [] => return []
  | t :: rest => do
    let u ← expandIn registry depth opening env scope t
    return u :: (← expandAll registry depth opening env scope rest)

/-- Expand the types of fields, in order. -/
def expandFields (registry : Registry) (depth : Nat) (opening : Option Opening) (env : Env)
    (scope : Option String) : List (Field TypeExpr) → Expansion (List (Field TypeExpr))
  | [] => return []
  | ⟨name, t⟩ :: rest => do
    let u ← expandIn registry depth opening env scope t
    return ⟨name, u⟩ :: (← expandFields registry depth opening env scope rest)

/-- Expand the types of inputs, in order. -/
def expandInputs (registry : Registry) (depth : Nat) (opening : Option Opening) (env : Env)
    (scope : Option String) : List (Parameter TypeExpr) → Expansion (List (Parameter TypeExpr))
  | [] => return []
  | ⟨t, suffix, position⟩ :: rest => do
    let u ← expandIn registry depth opening env scope t
    return ⟨u, suffix, position⟩ :: (← expandInputs registry depth opening env scope rest)

/-- Expand the fields of constructors, in order. -/
def expandTags (registry : Registry) (depth : Nat) (opening : Option Opening) (env : Env)
    (scope : Option String) : List (Tag TypeExpr) → Expansion (List (Tag TypeExpr))
  | [] => return []
  | ⟨name, fields⟩ :: rest => do
    let us ← expandAll registry depth opening env scope fields
    return ⟨name, us⟩ :: (← expandTags registry depth opening env scope rest)

end

/-- Expand a type at a depth, with so much room left below the greatest depth. -/
def expandAt (registry : Registry) : (room depth : Nat) → Env → Option String → TypeExpr →
    Expansion TypeExpr
  | 0, depth, env, scope, t => expandIn registry depth none env scope t
  | room + 1, depth, env, scope, t =>
    expandIn registry depth
      (some fun body env scope => expandAt registry room (depth + 1) env scope body) env scope t

/-- Expand a type with the budget of the resolver at work. -/
def expand (registry : Registry) (env : Env) (scope : Option String) (t : TypeExpr) :
    Expansion TypeExpr := do
  expandAt registry (← get).resolver.maxDepth 0 env scope t

end Expansion

end TypeNotation
