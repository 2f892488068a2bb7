import TypeNotation.Number.Decimal
import TypeNotation.Text.Quoted
import TypeNotation.TypeExpr.Equality
import TypeNotation.TypeExpr.Printer
import TypeNotation.Value.Basic

/-!
# Display and equality of values

How values are shown, and when two of them are equal.  Numbers and truth values are equal when they
denote the same number; a number that is not a number equals nothing; a list never equals a tuple;
objects, calls and callables have an identity of their own and equal no other value.
-/

namespace TypeNotation

namespace Value

/-- A value as a number.  The truth values count as one and zero. -/
def asNumber? : Value → Option Number
  | bool b => some (.int (if b then 1 else 0))
  | number x => some x
  | _ => none

/-- Equality of numbers as values: what is not a number equals nothing. -/
def equalNumbers (x y : Number) : Bool :=
  !x.isNaN && x.same y

mutual

/-- Equality of two values made apart from each other. -/
def equal : Value → Value → Bool
  | absent, absent => true
  | bool b, v => (asNumber? v).any (equalNumbers (.int (if b then 1 else 0)))
  | number x, v => (asNumber? v).any (equalNumbers x)
  | text s, text s' => s = s'
  | bytes s, bytes s' => s = s'
  | list items, list items' => equalAll items items'
  | tuple items, tuple items' => equalAll items items'
  | mapping entries, mapping entries' =>
    entries.length = entries'.length && equalEntries entries entries'
  | tagged tag fields, tagged tag' fields' => tag = tag' && equalAll fields fields'
  | type t, type t' => t.same t'
  | _, _ => false

/-- Equality of sequences of values. -/
def equalAll : List Value → List Value → Bool
  | [], [] => true
  | v :: rest, v' :: rest' => v.equal v' && equalAll rest rest'
  | _, _ => false

/-- Every one of the first entries has an equal one under its key among the second. -/
def equalEntries : List (Field Value) → List (Field Value) → Bool
  | [], _ => true
  | ⟨name, v⟩ :: rest, others =>
    (match Field.find? others name with
      | some v' => v.equal v'
      | none => false) && equalEntries rest others

end

mutual

/-- How a value is shown. -/
def display : Value → String
  | absent => "None"
  | bool b => if b then "True" else "False"
  | number x => x.display
  | text s => Text.quote s
  | bytes s => Text.quoteBytes s
  | list items => "[" ++ ", ".intercalate (displays items) ++ "]"
  | tuple items =>
    match displays items with
    | [one] => "(" ++ one ++ ",)"
    | many => "(" ++ ", ".intercalate many ++ ")"
  | mapping entries => "\x7b" ++ ", ".intercalate (displayEntries entries) ++ "\x7d"
  | object _ _ => "<object>"
  | tagged tag fields => "Tagged(" ++ ", ".intercalate (Text.quote tag :: displays fields) ++ ")"
  | call arguments => "Call(" ++ ", ".intercalate (displays arguments) ++ ")"
  | callable _ => "<callable>"
  | type t => t.display

/-- How the values of a sequence are shown. -/
def displays : List Value → List String
  | [] => []
  | v :: rest => v.display :: displays rest

/-- How the entries of a mapping are shown. -/
def displayEntries : List (Field Value) → List String
  | [] => []
  | ⟨name, v⟩ :: rest => (Text.quote name ++ ": " ++ v.display) :: displayEntries rest

end

end Value

end TypeNotation
