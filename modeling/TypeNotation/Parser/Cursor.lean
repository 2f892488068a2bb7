import TypeNotation.Token.Scan

/-!
# Reading from a sequence of tokens

A production of the grammar reads tokens from the front of a sequence and leaves the rest, or says
what it expected and what stood there instead.  The sequence always ends with the token for the end
of the text, which no production takes.

Repetition is bounded by the number of tokens of the whole text, which every production is told: a
round takes at least one token, so the bound is never what ends it.  That it was reached is told
apart from every refusal, and so is that something is missing which a production takes for granted.
-/

namespace TypeNotation

/-- How reading stops without an answer: a production refuses what it finds, the bound on repetition
and nesting is reached, or something is missing that was taken for granted. -/
inductive Stop where
  | refused (e : SyntaxError)
  | exhausted
  | broken

/-- A production: told the number of tokens of the text, it takes tokens from the front, or stops.
-/
abbrev Parser (α : Type) := ReaderT Nat (StateT (List Token) (Except Stop)) α

/-- The token at an offset from the front.  Beyond the last token stands the end. -/
def tokenAt (tokens : List Token) (offset : Nat) : Token :=
  (tokens[offset]?).getD ⟨.finish, "", ⟨1, 1⟩⟩

/-- Whether the token at the front is of a given kind. -/
def frontIs (kind : TokenKind) (tokens : List Token) : Bool :=
  (tokenAt tokens 0).kind = kind

/-- Whether the token at the front is a given mark. -/
def frontIsMark (p : Punctuation) (tokens : List Token) : Bool :=
  frontIs (.mark p) tokens

/-- Whether a declaration or a field starts at the front: a name that is not a type variable,
perhaps more names, and a colon. -/
def declarationAhead (tokens : List Token) : Bool :=
  let first := tokenAt tokens 0
  first.kind = .name && !first.isVariable &&
    frontIsMark .colon (tokens.dropWhile (·.kind = .name))

/-- Whether a comma at the front continues the current comma-separated list, if commas may. -/
def commaContinues (commas : Bool) (tokens : List Token) : Bool :=
  commas && frontIsMark .comma tokens && (tokenAt tokens 1).kind.startsType &&
    !declarationAhead (tokens.drop 1)

namespace Parser

variable {α σ : Type}

/-- The token at the front. -/
def peek : Parser Token :=
  return tokenAt (← get) 0

/-- Ask something about the tokens that are left. -/
def asks (question : List Token → Bool) : Parser Bool :=
  return question (← get)

/-- Take the token at the front. -/
def next : Parser Token := do
  let token ← peek
  modify List.tail
  return token

/-- Refuse the text. -/
def fail (e : SyntaxError) : Parser α :=
  throw (.refused e)

/-- Refuse the token at the front. -/
def refuse (expected : String) : Parser α := do
  let token ← peek
  fail (.unexpected token.position expected token.described)

/-- Answer what has been found without looking at the tokens, or stop. -/
def ofResult : Except Stop α → Parser α
  | .ok a => return a
  | .error e => throw e

/-- Take a given mark. -/
def takeMark (p : Punctuation) : Parser Unit := do
  if ← asks (frontIsMark p) then modify List.tail
  else refuse (SyntaxError.quoted p.text)

/-- Repeat a step at most so many times, as long as the tokens that are left say so. -/
def repeatUpTo (more : List Token → Bool) (step : σ → Parser σ) : Nat → σ → Parser σ
  | 0, s => do
    if ← asks more then throw .exhausted else return s
  | rounds + 1, s => do
    if ← asks more then repeatUpTo more step rounds (← step s) else return s

/-- Repeat a step as long as the tokens that are left say so. -/
def repeatWhile (more : List Token → Bool) (step : σ → Parser σ) (s : σ) : Parser σ := do
  repeatUpTo more step (← read) s

/-- Pass over the tokens at the front that are of certain kinds. -/
def skipWhile (skipped : TokenKind → Bool) : Parser Unit :=
  modify (List.dropWhile fun t => skipped t.kind)

/-- Pass over line breaks. -/
def skipBreaks : Parser Unit :=
  skipWhile (· = .newline)

/-- Pass over line breaks and commas. -/
def skipSeparators : Parser Unit :=
  skipWhile fun k => k = .newline || k = .mark .comma

end Parser

end TypeNotation
