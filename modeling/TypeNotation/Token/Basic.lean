import TypeNotation.Number.Basic
import TypeNotation.Position
import TypeNotation.Text.Capital

/-!
# Tokens

The tokens of the notation: names, numbers, the word for the absent value, punctuation marks, and
the line breaks and the end of the text.
-/

namespace TypeNotation

/-- The punctuation marks. -/
inductive Punctuation where
  | ellipsis
  | tupleOpen
  | arrow
  | implies
  | delegates
  | parenOpen
  | parenClose
  | bracketOpen
  | bracketClose
  | braceOpen
  | braceClose
  | colon
  | comma
  | bar
  | plus
  | backslash
  | question
  | caret
  deriving DecidableEq, Repr

namespace Punctuation

/-- How a mark is written. -/
def chars : Punctuation → List Char
  | ellipsis => ['.', '.', '.']
  | tupleOpen => ['#', '[']
  | arrow => ['-', '>']
  | implies => ['=', '>']
  | delegates => ['<', '|']
  | parenOpen => ['(']
  | parenClose => [')']
  | bracketOpen => ['[']
  | bracketClose => [']']
  | braceOpen => ['{']
  | braceClose => ['}']
  | colon => [':']
  | comma => [',']
  | bar => ['|']
  | plus => ['+']
  | backslash => ['\\']
  | question => ['?']
  | caret => ['^']

/-- The text of a mark. -/
def text (p : Punctuation) : String :=
  String.ofList p.chars

/-- All marks, the longer ones first, so that three dots are read as one mark. -/
def all : List Punctuation :=
  [ellipsis, tupleOpen, arrow, implies, delegates, parenOpen, parenClose, bracketOpen, bracketClose,
    braceOpen, braceClose, colon, comma, bar, plus, backslash, question, caret]

/-- The mark that closes an opening bracket. -/
def closer? : Punctuation → Option Punctuation
  | parenOpen => some parenClose
  | bracketOpen => some bracketClose
  | tupleOpen => some bracketClose
  | braceOpen => some braceClose
  | _ => none

/-- Whether a mark closes a bracket. -/
def isCloser : Punctuation → Bool
  | parenClose | bracketClose | braceClose => true
  | _ => false

theorem mem_all (p : Punctuation) : p ∈ all := by
  cases p <;> decide

end Punctuation

/-- The kinds of tokens. -/
inductive TokenKind where
  | name
  | void
  | number (value : Number)
  | mark (p : Punctuation)
  | newline
  | finish
  deriving DecidableEq

namespace TokenKind

/-- Whether an operand may end with a token of this kind, so that a plus sign after it is an
operator and not part of a number. -/
def endsOperand : TokenKind → Bool
  | name | number _ | void => true
  | mark p => p.isCloser || p = .question
  | newline | finish => false

/-- Whether a type can start with a token of this kind. -/
def startsType : TokenKind → Bool
  | name | number _ | void => true
  | mark p => p.closer?.isSome
  | newline | finish => false

/-- Whether a line break directly after a token of this kind does not end a declaration. -/
def continuesAfter : TokenKind → Bool
  | mark p =>
    p.closer?.isSome || p ∈ [.colon, .comma, .arrow, .implies, .delegates, .bar, .plus, .backslash,
      .caret, .ellipsis]
  | newline => true
  | _ => false

/-- Whether a line break directly before a token of this kind does not end a declaration. -/
def continuesBefore : TokenKind → Bool
  | mark p =>
    p.isCloser || p ∈ [.arrow, .implies, .delegates, .bar, .plus, .backslash, .caret, .ellipsis,
      .question, .comma]
  | newline | finish => true
  | _ => false

/-- The name of a kind of token; that of a punctuation mark is the mark itself. -/
def text : TokenKind → String
  | name => "name"
  | void => "void"
  | number _ => "number"
  | mark p => p.text
  | newline => "newline"
  | finish => "end"

end TokenKind

/-- A token with its text and the position where it starts. -/
structure Token where
  kind : TokenKind
  text : String
  position : Position
  deriving DecidableEq

namespace Token

/-- Whether a token is a type variable: a name of a single capital. -/
def isVariable (t : Token) : Bool :=
  t.kind = .name &&
    match t.text.toList with
    | [c] => Text.isCapital c
    | _ => false

/-- How a token is described in an error. -/
def described (t : Token) : String :=
  match t.kind with
  | .finish => "end of input"
  | .newline => "line break"
  | _ => "'" ++ t.text ++ "'"

/-- The number that a token stands for. -/
def value? (t : Token) : Option Number :=
  match t.kind with
  | .number x => some x
  | _ => none

end Token

end TypeNotation
