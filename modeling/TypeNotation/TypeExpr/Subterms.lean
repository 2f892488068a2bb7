import TypeNotation.TypeExpr.Basic

/-!
# Subterms and type variables

The subterms of an expression are listed before and from left to right.  Bodies and suspended
targets, which are on the heap, are not subterms; the arguments of a named type are.
-/

namespace TypeNotation

namespace Numeral

/-- A numeral and all numerals inside it. -/
def subnumerals : Numeral → List Numeral
  | x@(literal ..) => [x]
  | x@(power _ base exponent) => x :: (base.subnumerals ++ exponent.subnumerals)

end Numeral

namespace TypeExpr

mutual

/-- An expression and all expressions inside it. -/
def subterms : TypeExpr → List TypeExpr
  | number value => value.subnumerals.map number
  | t@(interval _ low high) => t :: ((low.subnumerals ++ high.subnumerals).map number)
  | t@(unit _) => [t]
  | t@(primitive ..) => [t]
  | t@(tuple _ items) => t :: subtermsOfAll items
  | t@(list _ members) => t :: subtermsOfAll members
  | t@(record _ fields) => t :: subtermsOfFields fields
  | t@(function _ inputs outputs) => t :: (subtermsOfInputs inputs ++ subtermsOfAll outputs)
  | t@(delegation _ base targets) => t :: (base.subterms ++ subtermsOfAll targets)
  | t@(predicate _ constraint body _) => t :: (constraint.subterms ++ body.subterms)
  | t@(tagged _ tags) => t :: subtermsOfTags tags
  | t@(union _ left right) => t :: (left.subterms ++ right.subterms)
  | t@(complement _ left right) => t :: (left.subterms ++ right.subterms)
  | t@(reference _ _ args) => t :: subtermsOfAll args
  | t@(typeVariable ..) => [t]
  | t@(named _ _ args) => t :: subtermsOfAll args
  | t@(deferred ..) => [t]

/-- The subterms of several expressions. -/
def subtermsOfAll : List TypeExpr → List TypeExpr
  | [] => []
  | t :: rest => t.subterms ++ subtermsOfAll rest

/-- The subterms of the types of fields. -/
def subtermsOfFields : List (Field TypeExpr) → List TypeExpr
  | [] => []
  | ⟨_, t⟩ :: rest => t.subterms ++ subtermsOfFields rest

/-- The subterms of the types of inputs. -/
def subtermsOfInputs : List (Parameter TypeExpr) → List TypeExpr
  | [] => []
  | ⟨t, _, _⟩ :: rest => t.subterms ++ subtermsOfInputs rest

/-- The subterms of the fields of constructors. -/
def subtermsOfTags : List (Tag TypeExpr) → List TypeExpr
  | [] => []
  | ⟨_, fields⟩ :: rest => subtermsOfAll fields ++ subtermsOfTags rest

end

/-- An occurrence of a type variable, if the node is one. -/
def binder? : TypeExpr → Option Binder
  | typeVariable m v => some ⟨m.position, v⟩
  | _ => none

/-- Keep the first occurrence of every variable. -/
def firstOccurrences (binders : List Binder) : List Binder :=
  binders.foldl (fun kept b => if kept.any (·.var = b.var) then kept else kept ++ [b]) []

/-- The distinct type variables of an expression, in order of first occurrence. -/
def typeVariables (t : TypeExpr) : List Binder :=
  firstOccurrences (t.subterms.filterMap binder?)

/-- Whether no type variable occurs in an expression. -/
def isClosed (t : TypeExpr) : Bool :=
  t.typeVariables.isEmpty

/-- The variables that a predicate quantifies: those it lists or, if it lists none, those of its
body. -/
def quantified (listed : List Binder) (body : TypeExpr) : List Binder :=
  if listed.isEmpty then body.typeVariables else listed

end TypeExpr

end TypeNotation
