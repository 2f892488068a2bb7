import TypeNotation.Number.Basic

/-!
# JSON

Values on the command line are written in JSON.  The reader is strict about grammar and text, keeps
the order of keys, lets the last of equal keys win, reads whole numbers exactly and other numbers as
doubles, and also takes the words for the numbers that JSON lacks.

An error has a cause and the offset of the character at which reading stopped.
-/

namespace TypeNotation

/-- A JSON value. -/
inductive Json where
  | null
  | bool (value : Bool)
  | number (value : Number)
  | text (value : String)
  | array (items : List Json)
  | object (entries : List (String × Json))

namespace Json

/-- Why a text is not JSON. -/
inductive Problem where
  | value
  | extra
  | key
  | colon
  | comma
  | unterminated
  | control
  | escape (chars : List Char)
  | codeUnit
  deriving DecidableEq, Repr

/-- The wording of a problem. -/
def Problem.message : Problem → String
  | value => "Expecting value"
  | extra => "Extra data"
  | key => "Expecting property name enclosed in double quotes"
  | colon => "Expecting ':' delimiter"
  | comma => "Expecting ',' delimiter"
  | unterminated => "Unterminated string starting at"
  | control => "Invalid control character at"
  | escape _ => "Invalid \\escape"
  | codeUnit => "Invalid \\uXXXX escape"

/-- A problem, with the number of characters that were left when it was met. -/
structure Failure where
  problem : Problem
  left : Nat
  deriving DecidableEq, Repr

/-- Fail in front of the given characters. -/
def fail {α : Type} (problem : Problem) (cs : List Char) : Except Failure α :=
  .error ⟨problem, cs.length⟩

/-- Whether JSON counts a character as white space. -/
def isSpace (c : Char) : Bool :=
  c = ' ' || c = '\t' || c = '\n' || c = '\r'

/-- Drop white space. -/
def skipSpace (cs : List Char) : List Char :=
  cs.dropWhile isSpace

/-! ## Numbers -/

/-- The value of a hexadecimal digit. -/
def hexValue? (c : Char) : Option Nat :=
  if c.isDigit then some (c.toNat - 48)
  else if 'a' ≤ c ∧ c ≤ 'f' then some (c.toNat - 87)
  else if 'A' ≤ c ∧ c ≤ 'F' then some (c.toNat - 55)
  else none

/-- The value of decimal digits. -/
def naturalOf (cs : List Char) : Nat :=
  cs.foldl (fun n c => n * 10 + (c.toNat - 48)) 0

/-- The digits after a point, if there are any. -/
def fractionDigits : List Char → List Char × List Char
  | '.' :: rest =>
    match rest.takeWhile Char.isDigit with
    | [] => ([], '.' :: rest)
    | ds => (ds, rest.dropWhile Char.isDigit)
  | cs => ([], cs)

/-- The exponent, if there is one. -/
def exponentPart (cs : List Char) : Option (Int × List Char) :=
  match cs with
  | c :: rest =>
    if c = 'e' ∨ c = 'E' then
      let (negative, unsigned) := match rest with
        | '-' :: more => (true, more)
        | '+' :: more => (false, more)
        | more => (false, more)
      match unsigned.takeWhile Char.isDigit with
      | [] => none
      | ds =>
        let n : Int := naturalOf ds
        some (if negative then -n else n, unsigned.dropWhile Char.isDigit)
    else none
  | [] => none

/-- A number whose sign has been read. -/
def number? (negative : Bool) (cs : List Char) : Option (Number × List Char) :=
  let whole := match cs with
    | '0' :: _ => ['0']
    | _ => cs.takeWhile Char.isDigit
  if whole.isEmpty then none
  else
    let (decimals, rest) := fractionDigits (cs.drop whole.length)
    let exponent := exponentPart rest
    let left := (exponent.map (·.2)).getD rest
    let n := naturalOf (whole ++ decimals)
    if decimals.isEmpty ∧ exponent.isNone then
      some (.int (if negative then -(n : Int) else n), left)
    else
      let x := Double.ofDecimal n ((exponent.map (·.1)).getD 0 - decimals.length)
      some (.double (if negative then -x else x), left)

/-- A literal of the grammar, with its value. -/
def word? (cs : List Char) : Option (Json × List Char) :=
  let words : List (List Char × Json) :=
    [(['n', 'u', 'l', 'l'], .null), (['t', 'r', 'u', 'e'], .bool true),
      (['f', 'a', 'l', 's', 'e'], .bool false),
      (['N', 'a', 'N'], .number (.double Double.nan)),
      (['I', 'n', 'f', 'i', 'n', 'i', 't', 'y'], .number (.double Double.infinity)),
      (['-', 'I', 'n', 'f', 'i', 'n', 'i', 't', 'y'], .number (.double (-Double.infinity)))]
  (words.find? fun w => w.1.isPrefixOf cs).map fun w => (w.2, cs.drop w.1.length)

/-! ## Texts -/

/-- Four hexadecimal digits. -/
def codeUnit? : List Char → Option (Nat × List Char)
  | a :: b :: c :: d :: rest => do
    let a ← hexValue? a
    let b ← hexValue? b
    let c ← hexValue? c
    let d ← hexValue? d
    return (((a * 16 + b) * 16 + c) * 16 + d, rest)
  | _ => none

/-- The character of an escape that starts with a given code unit.  Two halves of a surrogate pair
make one character; a lone half makes the replacement character. -/
def unitChar (unit : Nat) (rest : List Char) : Char × List Char :=
  if 0xD800 ≤ unit ∧ unit < 0xDC00 then
    match rest with
    | '\\' :: 'u' :: more =>
      match codeUnit? more with
      | some (low, left) =>
        if 0xDC00 ≤ low ∧ low < 0xE000 then
          (Char.ofNat (0x10000 + (unit - 0xD800) * 1024 + (low - 0xDC00)), left)
        else ('\uFFFD', rest)
      | none => ('\uFFFD', rest)
    | _ => ('\uFFFD', rest)
  else if 0xDC00 ≤ unit ∧ unit < 0xE000 then ('\uFFFD', rest)
  else (Char.ofNat unit, rest)

/-- The character behind a backslash. -/
def escaped? : Char → Option Char
  | '"' => some '"'
  | '\\' => some '\\'
  | '/' => some '/'
  | 'b' => some '\x08'
  | 'f' => some '\x0c'
  | 'n' => some '\n'
  | 'r' => some '\r'
  | 't' => some '\t'
  | _ => none

/-- The characters of a text up to its closing quote.  The second argument is the length of the
source from the opening quote on, at which an unterminated text is reported. -/
def chars : Nat → Nat → List Char → List Char → Except Failure (String × List Char)
  | 0, start, _, _ => .error ⟨.unterminated, start⟩
  | _, start, _, [] => .error ⟨.unterminated, start⟩
  | _, _, done, '"' :: rest => .ok (String.ofList done.reverse, rest)
  | bound + 1, start, done, '\\' :: rest =>
    match rest with
    | [] => .error ⟨.unterminated, start⟩
    | 'u' :: more =>
      match codeUnit? more with
      | some (unit, left) =>
        let (c, left) := unitChar unit left
        chars bound start (c :: done) left
      | none => fail .codeUnit rest
    | c :: more =>
      match escaped? c with
      | some e => chars bound start (e :: done) more
      | none => fail (.escape [c]) ('\\' :: rest)
  | bound + 1, start, done, c :: rest =>
    if c.toNat < 32 then fail .control (c :: rest) else chars bound start (c :: done) rest

/-- A text whose opening quote has been read. -/
def textAfterQuote (cs : List Char) : Except Failure (String × List Char) :=
  chars (cs.length + 1) (cs.length + 1) [] cs

/-! ## Values -/

/-- Add an entry; an earlier one with the same key keeps its place and takes the new value. -/
def insertEntry (entries : List (String × Json)) (key : String) (value : Json) :
    List (String × Json) :=
  if entries.any (·.1 = key) then entries.map fun e => if e.1 = key then (key, value) else e
  else entries ++ [(key, value)]

mutual

/-- A value.  The bound is on the number of steps; twice the number of characters is enough. -/
def value : Nat → List Char → Except Failure (Json × List Char)
  | 0, cs => fail .value cs
  | bound + 1, cs =>
    match cs with
    | '"' :: rest => do
      let (s, left) ← textAfterQuote rest
      return (.text s, left)
    | '{' :: rest =>
      match skipSpace rest with
      | '}' :: left => .ok (.object [], left)
      | left => entries bound [] left
    | '[' :: rest =>
      match skipSpace rest with
      | ']' :: left => .ok (.array [], left)
      | left => elements bound [] left
    | _ =>
      match word? cs with
      | some found => .ok found
      | none =>
        let found := match cs with
          | '-' :: rest => number? true rest
          | _ => number? false cs
        match found with
        | some (x, left) => .ok (.number x, left)
        | none => fail .value cs

/-- The elements of an array, after those already read, the last of which comes first. -/
def elements : Nat → List Json → List Char → Except Failure (Json × List Char)
  | 0, _, cs => fail .value cs
  | bound + 1, done, cs => do
    let (v, left) ← value bound cs
    match skipSpace left with
    | ']' :: rest => return (.array (v :: done).reverse, rest)
    | ',' :: rest => elements bound (v :: done) (skipSpace rest)
    | rest => fail .comma rest

/-- The entries of an object, from the first one on. -/
def entries : Nat → List (String × Json) → List Char → Except Failure (Json × List Char)
  | 0, _, cs => fail .key cs
  | bound + 1, done, cs =>
    match cs with
    | '"' :: rest => do
      let (key, left) ← textAfterQuote rest
      match skipSpace left with
      | ':' :: rest =>
        let (v, left) ← value bound (skipSpace rest)
        let done := insertEntry done key v
        match skipSpace left with
        | '}' :: rest => return (.object done, rest)
        | ',' :: rest => entries bound done (skipSpace rest)
        | rest => fail .comma rest
      | rest => fail .colon rest
    | _ => fail .key cs

end

/-- The JSON value that takes up a whole text. -/
def read (cs : List Char) : Except Failure Json := do
  let (v, left) ← value (2 * cs.length + 2) (skipSpace cs)
  match skipSpace left with
  | [] => return v
  | rest => fail .extra rest

/-- The wording of a failure: the problem, with the line, the column and the offset in the text. -/
def Failure.message (f : Failure) (cs : List Char) : String :=
  let offset := cs.length - f.left
  let before := cs.take offset
  let line := 1 + before.count '\n'
  let column := 1 + (before.reverse.takeWhile (· ≠ '\n')).length
  f.problem.message ++ ": line " ++ Nat.repr line ++ " column " ++ Nat.repr column ++
    " (char " ++ Nat.repr offset ++ ")"

/-! ## Access -/

/-- The entry of an object under a key. -/
def get? (key : String) : Json → Option Json
  | object es => es.lookup key
  | _ => none

end Json

end TypeNotation
