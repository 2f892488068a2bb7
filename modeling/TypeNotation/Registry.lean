import TypeNotation.Parser.Declarations

/-!
# The registry

The declarations of a session, in the order in which they came in, and the memo of their expansions.
Two opaque domains are declared from the start and cannot be declared again.

Declaring the same thing twice is harmless; giving a name a second, different definition is refused.
A batch is loaded as a whole or not at all.  Whenever a new declaration comes in, the memo is
forgotten.
-/

namespace TypeNotation

/-- A declaration that is refused, with the one that has its name. -/
structure Conflict where
  new : Declaration
  old : Declaration

/-- Declarations by name, in order, and the expansions that are remembered. -/
structure Registry where
  declarations : List Declaration
  memo : List TypeExpr

namespace Registry

/-- The opaque domains: that of all texts and that of all values. -/
def builtins : List Declaration :=
  ["string", "any"].map fun name => ⟨name, [], .primitive (.written none) name, none⟩

/-- Whether a name belongs to an opaque domain. -/
def isBuiltin (name : String) : Bool :=
  builtins.any (·.name = name)

/-- A registry that knows the opaque domains only. -/
def empty : Registry := ⟨builtins, []⟩

instance : Inhabited Registry := ⟨empty⟩

/-- The declarations that a registry may start with: all numbers, and the truth values. -/
def preludeText : String :=
  "\nnumber: -infinity ... +infinity + +infinity + nan\nboolean: false | true\n"

/-! ## Declarations -/

/-- The declaration of a name among some declarations. -/
def lookupIn (ds : List Declaration) (name : String) : Option Declaration :=
  ds.find? (·.name = name)

/-- The declaration of a name. -/
def lookup (r : Registry) (name : String) : Option Declaration :=
  lookupIn r.declarations name

/-- Whether a name is declared. -/
def hasName (r : Registry) (name : String) : Bool :=
  (r.lookup name).isSome

/-- Whether the registry has an equal declaration under the same name. -/
def hasDeclaration (r : Registry) (d : Declaration) : Bool :=
  (r.lookup d.name).any (·.same d)

/-- The declared names, in order, with or without those of the opaque domains. -/
def names (r : Registry) (includeBuiltins : Bool) : List String :=
  (r.declarations.map (·.name)).filter fun name => includeBuiltins || !isBuiltin name

/-- The number of declarations, opaque domains included. -/
def size (r : Registry) : Nat :=
  r.declarations.length

/-- Refuse a declaration whose name is taken by a different one or by an opaque domain. -/
def check (existing : List Declaration) (d : Declaration) : Except Conflict Unit :=
  match lookupIn existing d.name with
  | some old => if isBuiltin d.name || !old.same d then .error ⟨d, old⟩ else .ok ()
  | none => .ok ()

/-- Give a name a declaration, in the place of the one that it has or behind all others. -/
def assign : List Declaration → Declaration → List Declaration
  | [], d => [d]
  | e :: rest, d => if e.name = d.name then d :: rest else e :: assign rest d

/-- Add a declaration that was not refused. -/
def insert (r : Registry) (d : Declaration) : Registry :=
  if r.hasDeclaration d then r else ⟨assign r.declarations d, []⟩

/-- Declare a name. -/
def declare (r : Registry) (d : Declaration) : Except Conflict Registry := do
  check r.declarations d
  return r.insert d

/-- Check a batch: each declaration against those known and those before it. -/
def checkAll (existing : List Declaration) : List Declaration → Except Conflict Unit
  | [] => .ok ()
  | d :: rest => do
    check existing d
    checkAll (assign existing d) rest

/-- Load a batch of declarations, all of them or none. -/
def load (r : Registry) (ds : List Declaration) : Except Conflict Registry := do
  checkAll r.declarations ds
  return ds.foldl insert r

/-- A registry with the prelude. -/
def withPrelude : Registry :=
  match parse preludeText with
  | .ok ds => ds.foldl insert empty
  | .error _ => empty

/-! ## The memo -/

/-- The remembered expansion that equals a named type. -/
def memoized (r : Registry) (t : TypeExpr) : Option TypeExpr :=
  r.memo.find? (·.same t)

/-- Remember an expansion, in the place of an equal one if there is one. -/
def remember (memo : List TypeExpr) (t : TypeExpr) : List TypeExpr :=
  if memo.any (·.same t) then memo.map fun u => if u.same t then t else u else memo ++ [t]

/-- Remember expansions, in order. -/
def memoize (r : Registry) (expansions : List TypeExpr) : Registry :=
  { r with memo := expansions.foldl remember r.memo }

end Registry

end TypeNotation
