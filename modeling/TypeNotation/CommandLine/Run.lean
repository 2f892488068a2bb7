import TypeNotation.CommandLine.Arguments
import TypeNotation.Graph.NTriples
import TypeNotation.Graph.Vocabulary
import TypeNotation.Json

/-!
# Commands

`check` resolves every declaration of some files and reports the failures.  `match` decides whether
values, written in JSON, inhabit a type.  `vocab` publishes the declarations as a graph.

Running a command is a function from the contents of files to a report: what is printed, which files
are made, and the exit code.
-/

namespace TypeNotation

namespace CommandLine

/-- What a command has printed and made. -/
structure Report where
  code : Nat
  stdout : String
  stderr : String
  files : List (String × String)

/-- Why a command breaks off without a report of its own. -/
inductive Crash where
  | fault (f : Fault)
  | missingFile (path : String)
  | arguments (e : ArgumentError)

/-- The wording of a crash. -/
def Crash.message : Crash → String
  | fault f => f.message
  | missingFile path => "No such file: " ++ path
  | arguments e => e.message

/-- The state of a running command. -/
structure Console where
  session : Session
  stdout : String
  stderr : String
  files : List (String × String)

/-- A command that runs. -/
abbrev Program (α : Type) := ExceptT Crash (StateM Console) α

namespace Program

variable {α : Type}

/-- Print a line. -/
def print (line : String) : Program Unit :=
  modify fun c => { c with stdout := c.stdout ++ line ++ "\n" }

/-- Print a line about an error. -/
def complain (line : String) : Program Unit :=
  modify fun c => { c with stderr := c.stderr ++ line ++ "\n" }

/-- Operate on the session.  A regular fault is a result; any other breaks off. -/
def act (action : Action α) : Program (Except Fault α) := do
  let c ← get
  let (result, session) := action.run.run c.session
  set { c with session }
  match result with
  | .ok a => return .ok a
  | .error f => if f.isRegular then return .error f else throw (.fault f)

/-- Report an error about something. -/
def complainAbout (what subject : String) (message : String) : Program Unit :=
  complain (what ++ " " ++ subject ++ ":\n\t" ++ message)

end Program

open Program

/-- Read every kind of line break as a line feed. -/
def plainBreaks : List Char → List Char
  | [] => []
  | '\r' :: '\n' :: rest => '\n' :: plainBreaks rest
  | '\r' :: rest => '\n' :: plainBreaks rest
  | c :: rest => c :: plainBreaks rest

/-- Load files, one after the other.  A file that cannot be loaded is skipped if that is asked for,
and ends the loading otherwise. -/
def loadFiles (read : String → Option String) (skipError : Bool) : List String → Program Bool
  | [] => return true
  | path :: rest => do
    match read path with
    | none => throw (.missingFile path)
    | some contents =>
      match ← act (Action.loadText (String.ofList (plainBreaks contents.toList))) with
      | .ok _ => loadFiles read skipError rest
      | .error f =>
        if skipError then
          complainAbout "Skipping" path f.message
          loadFiles read skipError rest
        else
          complainAbout "Error in" path f.message
          return false

/-! ## Checking declarations -/

/-- Resolve declarations, print those that have a normal form and report the others. -/
def checkAll (skipError : Bool) : Bool → List Declaration → Program Nat
  | failed, [] => return if failed then 1 else 0
  | failed, d :: rest => do
    let args := d.parameters.map fun b => TypeExpr.typeVariable (.written b.position) b.var
    match ← act (Action.resolve (.reference (.written none) d.name args)) with
    | .ok _ =>
      print d.text
      checkAll skipError failed rest
    | .error f =>
      complainAbout "Error in" d.name f.message
      if skipError then checkAll skipError true rest else return 1

/-! ## Matching values -/

mutual

/-- The value that a JSON text denotes: objects are mappings and arrays are lists. -/
def valueOf : Json → Value
  | .null => .absent
  | .bool b => .bool b
  | .number x => .number x
  | .text s => .text s
  | .array items => .list (valuesOf items)
  | .object entries => .mapping (entriesOf entries)

/-- The values of several JSON values. -/
def valuesOf : List Json → List Value
  | [] => []
  | j :: rest => valueOf j :: valuesOf rest

/-- The entries of a mapping. -/
def entriesOf : List (String × Json) → List (Field Value)
  | [] => []
  | (key, j) :: rest => ⟨key, valueOf j⟩ :: entriesOf rest

end

/-- Decide for each text whether its value inhabits a type. -/
def matchAll (openRecords : Bool) (t : TypeExpr) : Bool → List String → Program Nat
  | success, [] => return if success then 0 else 1
  | success, text :: rest => do
    match Json.read text.toList with
    | .error f =>
      complainAbout "Error in" text (f.message text.toList)
      return 1
    | .ok j =>
      match ← act (Action.isMember openRecords (valueOf j) t) with
      | .ok holds =>
        print (text ++ ": " ++ if holds then "yes" else "no")
        matchAll openRecords t (success && holds) rest
      | .error f => throw (.fault f)

/-! ## Commands -/

/-- Write a document to a file, or print it. -/
def deliver (output : Option String) (document : String) : Program Unit :=
  match output with
  | some path =>
    if path = "" ∨ path = "-" then print document
    else modify fun c => { c with files := c.files ++ [(path, document)] }
  | none => print document

/-- Run a command on its operands. -/
def perform (read : String → Option String) (s : Switches) :
    Command → List String → Program Nat
  | .check, files => do
    if files.isEmpty then throw (.arguments .missingOperands)
    if ← loadFiles read s.skipError files then
      checkAll s.skipError false (← get).session.registry.declarations
    else return 1
  | .decide, file :: type :: values => do
    if ← loadFiles read s.skipError [file] then
      match ← act (Action.resolveText type) with
      | .ok t => matchAll (!s.closedRecords) t true values
      | .error f =>
        complainAbout "Error in" type f.message
        return 1
    else return 1
  | .decide, _ => throw (.arguments .missingOperands)
  | .publish, files => do
    if files.isEmpty then throw (.arguments .missingOperands)
    if ← loadFiles read s.skipError files then
      let options := { VocabularyOptions.standard s.minimal with labels := true }
      match ← act (Vocabulary.build options) with
      | .ok graph =>
        deliver s.output (NTriples.document graph)
        return 0
      | .error f => throw (.fault f)
    else return 1

/-- Run the command line. -/
def program (read : String → Option String) : List String → Program Nat
  | [] => throw (.arguments .missingOperands)
  | name :: args =>
    match Command.ofName? name with
    | none => do
      print ("Unknown command " ++ name)
      return 1
    | some c =>
      match separate c .none [] args with
      | .error e => throw (.arguments e)
      | .ok (switches, operands) => do
        if switches.prelude then
          modify fun console => { console with session := .ofRegistry .withPrelude }
        perform read switches c operands

/-- The report of a command line, given the contents of files. -/
def run (read : String → Option String) (args : List String) : Except Crash Report :=
  match (program read args).run.run ⟨.ofRegistry .empty, "", "", []⟩ with
  | (.ok code, c) => .ok ⟨code, c.stdout, c.stderr, c.files⟩
  | (.error crash, _) => .error crash

end CommandLine

end TypeNotation
