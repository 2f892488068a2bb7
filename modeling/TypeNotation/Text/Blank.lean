import TypeNotation.Text.Stretch

/-!
# Blank characters

White space between tokens: the characters of bidirectional type WS, B or S and those of category
Zs.  Besides the six of ASCII these are the four information separators, the next-line character and
the spaces and separators of Unicode.
-/

namespace TypeNotation.Text

/-- The blank characters. -/
def blankStretches : List Stretch := [
  ⟨0x0009, 0x000D, 1⟩, ⟨0x001C, 0x0020, 1⟩, ⟨0x0085, 0x0085, 1⟩, ⟨0x00A0, 0x00A0, 1⟩,
  ⟨0x1680, 0x1680, 1⟩, ⟨0x2000, 0x200A, 1⟩, ⟨0x2028, 0x2029, 1⟩, ⟨0x202F, 0x202F, 1⟩,
  ⟨0x205F, 0x205F, 1⟩, ⟨0x3000, 0x3000, 1⟩]

/-- Whether a character is white space. -/
def isBlank (c : Char) : Bool :=
  within blankStretches c

theorem isBlank_of_isWhitespace {c : Char} (h : c.isWhitespace = true) : isBlank c = true := by
  simp only [Char.isWhitespace, Bool.or_eq_true, decide_eq_true_eq] at h
  rcases h with ((rfl | rfl) | rfl) | rfl <;> decide

end TypeNotation.Text
