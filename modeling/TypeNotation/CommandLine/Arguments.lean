/-!
# Arguments of the command line

A command is followed by switches and operands in any order.  Long switches start with two hyphens
and may take their value after an equals sign; short ones start with one and may take it directly
behind their letter.  Two hyphens alone end the switches, and one hyphen alone is an operand.
-/

namespace TypeNotation

namespace CommandLine

/-- What the switches ask for. -/
structure Switches where
  prelude : Bool
  skipError : Bool
  closedRecords : Bool
  minimal : Bool
  output : Option String
  format : Option String

/-- Nothing is asked for. -/
def Switches.none : Switches :=
  ⟨false, false, false, false, Option.none, Option.none⟩

/-- The commands. -/
inductive Command where
  | check
  | decide
  | publish
  deriving DecidableEq, Repr

/-- The command with a given name. -/
def Command.ofName? : String → Option Command
  | "check" => some check
  | "match" => some decide
  | "vocab" => some publish
  | _ => none

/-- Why arguments are not understood. -/
inductive ArgumentError where
  | unknownSwitch (name : String)
  | missingValue (name : String)
  | missingOperands
  deriving DecidableEq, Repr

/-- The wording of an error in the arguments. -/
def ArgumentError.message : ArgumentError → String
  | unknownSwitch name => "Unknown switch " ++ name
  | missingValue name => "Switch " ++ name ++ " needs a value"
  | missingOperands => "Too few arguments"

/-- Turn on the flag of a given name, if the command has it. -/
def flag? (c : Command) (s : Switches) : String → Option Switches
  | "--prelude" => some { s with prelude := true }
  | "--skip-error" => some { s with skipError := true }
  | "--closed-records" => if c = .decide then some { s with closedRecords := true } else none
  | "--minimal" => if c = .publish then some { s with minimal := true } else none
  | _ => none

/-- Set the switch of a given name to a value, if the command has it. -/
def option? (c : Command) (s : Switches) (name : String) : Option (String → Switches) :=
  if c ≠ .publish then none
  else if name = "-o" ∨ name = "--output" then some fun v => { s with output := some v }
  else if name = "-t" ∨ name = "--to" then some fun v => { s with format := some v }
  else none

/-- A switch with the value that is written into it: behind an equals sign, or behind the letter. -/
def splitSwitch (arg : String) : String × Option String :=
  let cs := arg.toList
  if cs.take 2 = ['-', '-'] then
    let name := cs.takeWhile (· ≠ '=')
    let value := cs.drop (name.length + 1)
    (String.ofList name, if name.length < cs.length then some (String.ofList value) else none)
  else (String.ofList (cs.take 2), if cs.length > 2 then some (String.ofList (cs.drop 2)) else none)

/-- Whether an argument is a switch. -/
def isSwitch (arg : String) : Bool :=
  arg.toList.head? = some '-' && arg ≠ "-"

/-- Separate switches and operands. -/
def separate (c : Command) : Switches → List String → List String →
    Except ArgumentError (Switches × List String)
  | s, operands, [] => .ok (s, operands)
  | s, operands, arg :: rest =>
    if arg = "--" then .ok (s, operands ++ rest)
    else if isSwitch arg then
      let name := (splitSwitch arg).1
      match flag? c s name with
      | some s => separate c s operands rest
      | none =>
        match option? c s name with
        | none => .error (.unknownSwitch name)
        | some set =>
          match (splitSwitch arg).2 with
          | some v => separate c (set v) operands rest
          | none =>
            match rest with
            | v :: rest => separate c (set v) operands rest
            | [] => .error (.missingValue name)
    else separate c s (operands ++ [arg]) rest

end CommandLine

end TypeNotation
