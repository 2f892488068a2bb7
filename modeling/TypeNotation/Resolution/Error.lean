import TypeNotation.Heap
import TypeNotation.Registry

/-!
# Faults

Why a type cannot be brought into normal form, and more generally why an operation on a session
fails.

A fault is *regular* when the library reports it as an error about its input.  The others come out
of arithmetic, out of matching a type that was never resolved, or out of a question that goes deeper
than the bound on questions.  The last of these becomes regular inside a resolution: a resolution
that goes too deep reports that its budget is used up.
-/

namespace TypeNotation

/-- Why a type has no normal form. -/
inductive ResolutionError where
  /-- A name is not declared. -/
  | undefined (name : String) (at_ : Option Position)
  /-- A name is given the wrong number of arguments. -/
  | arity (name : String) (expected given : Nat) (at_ : Option Position)
  /-- A number, or the comparison of two, has no real value. -/
  | invalidNumber (text : String) (at_ : Option Position)
  /-- The lower end of an interval is not below its upper end. -/
  | emptyInterval (text : String) (at_ : Option Position)
  /-- A type bound to a variable does not satisfy its constraint. -/
  | predicateViolation (v : Variable) (binding constraint : TypeExpr) (at_ : Option Position)
  /-- A named type leads back to itself without passing through a structure. -/
  | cyclic (names : List String) (at_ : Option Position)
  /-- The budget of expansions is used up, or a question asked on the way went too deep.  What was
  being expanded is known in the first case only. -/
  | expansionLimit (steps depth : Nat) (expr : Option TypeExpr) (at_ : Option Position)

namespace ResolutionError

/-- The place that an error points at. -/
def position? : ResolutionError → Option Position
  | undefined _ p | arity _ _ _ p | invalidNumber _ p | emptyInterval _ p
  | predicateViolation _ _ _ p | cyclic _ p | expansionLimit _ _ _ p => p

/-- The wording of an error, without its place. -/
def reason : ResolutionError → String
  | undefined name _ => "Type " ++ name ++ " is undefined."
  | arity name expected given _ =>
    "Type " ++ name ++ " takes " ++ Nat.repr expected ++ " parameter" ++
      (if expected = 1 then "" else "s") ++ "; " ++ Nat.repr given ++ " given."
  | invalidNumber text _ => "The number " ++ text ++ " has no real value."
  | emptyInterval text _ =>
    "The interval " ++ text ++
      " is empty; it requires a lower bound strictly below its upper bound."
  | predicateViolation v binding constraint _ =>
    "Type " ++ binding.text ++ " bound to " ++ v.letter ++ " does not satisfy the constraint " ++
      constraint.text ++ "."
  | cyclic names _ => "Encountered the cyclic type " ++ " -> ".intercalate names ++ "."
  | expansionLimit steps depth expr _ =>
    "Exceeded the expansion budget after " ++ Nat.repr steps ++ " steps at depth " ++
      Nat.repr depth ++ (expr.elim "" fun t => " while expanding " ++ t.text) ++ "."

/-- The wording of an error. -/
def message (e : ResolutionError) : String :=
  ((e.position?.map Position.text).getD "") ++ e.reason

end ResolutionError

/-- The wording of a refused declaration. -/
def Conflict.message (c : Conflict) : String :=
  let place := (c.new.position.map Position.text).getD ""
  if Registry.isBuiltin c.old.name then
    place ++ "Type " ++ c.new.name ++ " is built in and cannot be redeclared."
  else place ++ "Type " ++ c.new.name ++ " is already declared as `" ++ c.old.text ++ "`."

/-- Why an operation on a session fails. -/
inductive Fault where
  | unreadable (e : SyntaxError)
  | conflict (c : Conflict)
  | resolution (e : ResolutionError)
  | arithmetic (e : ArithmeticFault)
  | unresolved (t : TypeExpr)
  | incomparable
  | exhausted

namespace Fault

/-- Whether a fault is an error about the input that the library reports as such. -/
def isRegular : Fault → Bool
  | unreadable .valuelessDigit => false
  | unreadable _ | conflict _ | resolution _ => true
  | arithmetic _ | unresolved _ | incomparable | exhausted => false

/-- The place that a fault points at. -/
def position? : Fault → Option Position
  | unreadable e => e.position?
  | conflict c => c.new.position
  | resolution e => e.position?
  | _ => none

/-- The wording of a fault, for those that have one. -/
def message : Fault → String
  | unreadable e => e.message
  | conflict c => c.message
  | resolution e => e.message
  | unresolved t => "Reference " ++ t.text ++ " must be resolved before matching"
  | incomparable => "References must be resolved before comparing"
  | arithmetic .domain => "a number has no real value"
  | arithmetic .overflow => "a number is too large"
  | exhausted => "the bound on the depth of a question was reached"

end Fault

end TypeNotation
