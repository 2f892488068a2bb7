import TypeNotation.SyntaxError
import TypeNotation.Text.Blank
import TypeNotation.Text.Digit
import TypeNotation.Token.Basic

/-!
# From text to tokens

At every point of a text the *lexeme* there is determined by the characters that follow and by
whether an operand has just ended.  A lexeme is a line break, a blank, a comment, or the text of a
token.  Scanning walks the characters one by one: at the start of a lexeme it decides what the
lexeme is and how many characters it takes, and passes over the rest of them.

Brackets are checked on the way.  A line break inside parentheses, lists and tuples is no token; one
directly inside braces is.
-/

namespace TypeNotation

open Text

/-- What stands at a point of a text. -/
inductive Lexeme where
  | lineBreak
  | blank
  | comment (length : Nat)
  | word (chars : List Char)
  | number (chars : List Char) (value : Number)
  | mark (p : Punctuation)
  deriving DecidableEq

namespace Lexeme

/-- The number of characters of a lexeme. -/
def length : Lexeme → Nat
  | lineBreak | blank => 1
  | comment n => n
  | word cs => cs.length
  | number cs _ => cs.length
  | mark p => p.chars.length

/-! ## Words -/

/-- Whether a name can start with a character. -/
def startsName (c : Char) : Bool :=
  isLetter c || c = '_' || c = '$'

/-- Whether a name can go on with a character. -/
def continuesName (c : Char) : Bool :=
  isAlphanumeric c || c = '_' || c = '$'

/-- The rest of a name.  A hyphen belongs to it if a name could start after the hyphen. -/
def nameRest : List Char → List Char
  | [] => []
  | c :: rest =>
    if continuesName c then c :: nameRest rest
    else if c = '-' ∧ rest.head?.any startsName then c :: nameRest rest
    else []

/-! ## Numbers -/

/-- The word for the ends of the number line. -/
def infinityChars : List Char :=
  ['i', 'n', 'f', 'i', 'n', 'i', 't', 'y']

/-- Whether the word for infinity stands here and no name goes on after it. -/
def infinityAt (cs : List Char) : Bool :=
  infinityChars.isPrefixOf cs &&
    !((cs.drop 8).head?.any fun c => continuesName c || c = '-')

/-- Whether three dots stand here. -/
def ellipsisAt (cs : List Char) : Bool :=
  Punctuation.ellipsis.chars.isPrefixOf cs

/-- The value of digits in order, if all of them have one. -/
def digitsValue? (cs : List Char) : Option Nat :=
  cs.foldlM (fun n c => (digitValue? c).map (n * 10 + ·)) 0

/-- The number with a sign, whole digits and, if there is a point, the digits after it. -/
def numberValue? (negative : Bool) (whole : List Char) (fraction : Option (List Char)) :
    Option Number :=
  match fraction with
  | none => (digitsValue? whole).map fun n => .int (if negative then -n else n)
  | some decimals =>
    (digitsValue? (whole ++ decimals)).map fun n =>
      let x := Double.ofDecimal n (-(decimals.length : Int))
      .double (if negative then -x else x)

/-- The number that starts with the given sign, if any, and goes on with the given characters. -/
def numberAt (position : Position) (sign : Option Char) (cs : List Char) :
    Except SyntaxError Lexeme :=
  let signChars := sign.toList
  let negative := decide (sign = some '-')
  if sign.isSome && infinityAt cs then
    let x := Double.infinity
    .ok (.number (signChars ++ infinityChars) (.double (if negative then -x else x)))
  else
    let whole := cs.takeWhile isDigit
    let afterWhole := cs.dropWhile isDigit
    let pointed := afterWhole.head? = some '.' && !ellipsisAt afterWhole
    let decimals := if pointed then afterWhole.tail.takeWhile isDigit else []
    if pointed && decimals.isEmpty then
      .error (.malformedNumber position (String.ofList (signChars ++ whole ++ ['.'])))
    else
      let literal := whole ++ (if pointed then '.' :: decimals else [])
      let after := cs.drop literal.length
      let runsOn := after.head?.any fun c => startsName c || (c = '.' && !ellipsisAt after)
      if runsOn then
        let tail := after.takeWhile (!isBlank ·)
        .error (.malformedNumber position (String.ofList (signChars ++ literal ++ tail)))
      else
        match numberValue? negative whole (if pointed then some decimals else none) with
        | some x => .ok (.number (signChars ++ literal) x)
        | none => .error .valuelessDigit

/-- Whether a sign here starts a number.  A plus sign after an operand is an operator. -/
def signedNumberAt (afterOperand : Bool) (c : Char) (rest : List Char) : Bool :=
  (c = '-' || (c = '+' && !afterOperand)) && (rest.head?.any isDigit || infinityAt rest)

/-! ## Lexemes -/

/-- The lexeme that starts with the character `c` and goes on in `rest`. -/
def at_ (position : Position) (afterOperand : Bool) (c : Char) (rest : List Char) :
    Except SyntaxError Lexeme :=
  if c = '\n' then .ok .lineBreak
  else if isBlank c then .ok .blank
  else if c = '/' ∧ rest.head? = some '/' then
    .ok (.comment (1 + (rest.takeWhile (· ≠ '\n')).length))
  else if startsName c then .ok (.word (c :: nameRest rest))
  else if isDigit c then numberAt position none (c :: rest)
  else if signedNumberAt afterOperand c rest then numberAt position (some c) rest
  else
    match Punctuation.all.find? (·.chars.isPrefixOf (c :: rest)) with
    | some p => .ok (.mark p)
    | none =>
      if c = '-' then .error (.malformedNumber position "-")
      else .error (.unexpected position "a type" (SyntaxError.quoted c.toString))

/-- The kind of the token of a word. -/
def wordKind (chars : List Char) : TokenKind :=
  if chars = ['v', 'o', 'i', 'd'] then .void
  else if chars = ['n', 'a', 'n'] then .number (.double Double.nan)
  else .name

/-- The token of a lexeme, for those that have one.  A line break is one if the flag says so. -/
def token? (position : Position) (breakCounts : Bool) : Lexeme → Option Token
  | lineBreak => if breakCounts then some ⟨.newline, "\n", position⟩ else none
  | blank => none
  | comment _ => none
  | word cs => some ⟨wordKind cs, String.ofList cs, position⟩
  | number cs x => some ⟨.number x, String.ofList cs, position⟩
  | mark p => some ⟨.mark p, p.text, position⟩

end Lexeme

/-! ## Scanning -/

/-- An opening bracket that waits for its closing one. -/
structure OpenBracket where
  opener : Punctuation
  closer : Punctuation
  position : Position
  deriving DecidableEq

/-- Account for a punctuation mark in the open brackets, innermost first. -/
def OpenBracket.step (brackets : List OpenBracket) (position : Position) (p : Punctuation) :
    Except SyntaxError (List OpenBracket) :=
  match p.closer? with
  | some closer => .ok (⟨p, closer, position⟩ :: brackets)
  | none =>
    if p.isCloser then
      match brackets with
      | [] => .error (.bracketMismatch position "no closing bracket" (SyntaxError.quoted p.text))
      | b :: outer =>
        if b.closer = p then .ok outer
        else .error (.bracketMismatch position (SyntaxError.quoted b.closer.text)
          (SyntaxError.quoted p.text))
    else .ok brackets

/-- Where scanning stands: the position, the open brackets, innermost first, and whether the last
token ends an operand. -/
structure ScanState where
  position : Position
  brackets : List OpenBracket
  afterOperand : Bool

namespace ScanState

/-- The state at the start of a text. -/
def start : ScanState := ⟨⟨1, 1⟩, [], false⟩

/-- Whether a line break is a token here: outside of brackets or directly inside braces. -/
def breakCounts (s : ScanState) : Bool :=
  s.brackets.head?.all (·.opener = .braceOpen)

/-- Move past a character. -/
def past (s : ScanState) (c : Char) : ScanState :=
  { s with
    position :=
      if c = '\n' then ⟨s.position.line + 1, 1⟩ else ⟨s.position.line, s.position.column + 1⟩ }

/-- Take note of a lexeme and of the token that it makes. -/
def note (s : ScanState) (lexeme : Lexeme) (token : Option Token) :
    Except SyntaxError ScanState := do
  let brackets ← match lexeme with
    | .mark p => OpenBracket.step s.brackets s.position p
    | _ => .ok s.brackets
  let afterOperand := match token with
    | some t => t.kind.endsOperand
    | none => s.afterOperand
  return ⟨s.position, brackets, afterOperand⟩

/-- The two tokens that close every text, if all brackets are closed. -/
def close (s : ScanState) : Except SyntaxError (List Token) :=
  match s.brackets with
  | [] => .ok [⟨.newline, "", s.position⟩, ⟨.finish, "", s.position⟩]
  | b :: _ =>
    .error (.bracketMismatch b.position
      (SyntaxError.quoted b.closer.text ++ " to close " ++ SyntaxError.quoted b.opener.text)
      "end of input")

end ScanState

/-- The tokens of the characters from a state on, after passing over the given number of them. -/
def scanFrom : List Char → Nat → ScanState → Except SyntaxError (List Token)
  | [], _, s => s.close
  | c :: rest, skip + 1, s => scanFrom rest skip (s.past c)
  | c :: rest, 0, s => do
    let lexeme ← Lexeme.at_ s.position s.afterOperand c rest
    let token := lexeme.token? s.position s.breakCounts
    let s ← s.note lexeme token
    let tokens ← scanFrom rest (lexeme.length - 1) (s.past c)
    return token.toList ++ tokens

/-- The tokens of a text, all line breaks that are not inside brackets included. -/
def scan (text : String) : Except SyntaxError (List Token) :=
  scanFrom text.toList 0 .start

/-- Drop the line breaks that end no declaration, given the kind of the token before. -/
def dropContinuations : TokenKind → List Token → List Token
  | _, [] => []
  | previous, t :: rest =>
    if t.kind = .newline ∧ (previous.continuesAfter ∨ rest.head?.any (·.kind.continuesBefore)) then
      dropContinuations previous rest
    else t :: dropContinuations t.kind rest

/-- The tokens of a text without the line breaks that end no declaration. -/
def tokenize (text : String) : Except SyntaxError (List Token) :=
  (scan text).map (dropContinuations .newline)

end TypeNotation
