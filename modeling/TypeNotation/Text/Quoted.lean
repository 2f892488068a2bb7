import TypeNotation.Text.Printable

/-!
# Quoted text

A text as it is displayed among values: in single quotes, or in double quotes if it holds a single
quote and no double one.  Backslashes, the quote itself and everything that is not printable are
escaped.
-/

namespace TypeNotation.Text

/-- The hexadecimal digits of a number, padded with zeros. -/
def hexDigits (width n : Nat) : List Char :=
  let ds := Nat.toDigits 16 n
  List.replicate (width - ds.length) '0' ++ ds

/-- A character inside quotes. -/
def escapeChar (quote c : Char) : List Char :=
  if c = quote ∨ c = '\\' then ['\\', c]
  else if c = '\n' then ['\\', 'n']
  else if c = '\r' then ['\\', 'r']
  else if c = '\t' then ['\\', 't']
  else if isPrintable c then [c]
  else if c.toNat < 0x100 then '\\' :: 'x' :: hexDigits 2 c.toNat
  else if c.toNat < 0x10000 then '\\' :: 'u' :: hexDigits 4 c.toNat
  else '\\' :: 'U' :: hexDigits 8 c.toNat

/-- The quote that a text is displayed in. -/
def quoteFor (cs : List Char) : Char :=
  if '\'' ∈ cs ∧ '"' ∉ cs then '"' else '\''

/-- A text in quotes. -/
def quote (s : String) : String :=
  let cs := s.toList
  let q := quoteFor cs
  String.ofList (q :: cs.flatMap (escapeChar q) ++ [q])

/-- The bytes of a text in quotes, with a mark in front.  Bytes beyond ASCII are escaped. -/
def quoteBytes (s : String) : String :=
  let bs := s.toUTF8.toList.map fun b => Char.ofNat b.toNat
  let q := quoteFor bs
  let byte (c : Char) : List Char :=
    if c.toNat < 128 then escapeChar q c else '\\' :: 'x' :: hexDigits 2 c.toNat
  String.ofList ('b' :: q :: bs.flatMap byte ++ [q])

end TypeNotation.Text
