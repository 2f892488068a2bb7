import TypeNotation.Number.Decimal
import TypeNotation.Proofs.Token.Join
import TypeNotation.Proofs.Token.Positions

/-!
# Scanning what is written

A text is *spelled* by a sequence of tokens if scanning finds these tokens in it wherever it stands,
so long as it ends there: a name or a number goes on up to a blank, a comma, a closing bracket or a
caret.  Texts that are put together of spelled ones are spelled by the tokens together.
-/

namespace TypeNotation

open Text

/-! ## Delimiters -/

/-- The characters that end a name or a number before them. -/
def delimiters : List Char := [' ', ',', ')', ']', '^']

def isDelimiter (x : Char) : Bool :=
  delimiters.contains x

lemma not_of_isDelimiter {P : Char → Bool} (hP : delimiters.any P = false) {x : Char}
    (hx : isDelimiter x = true) : P x = false :=
  Bool.eq_false_iff.2 (List.any_eq_false.1 hP x (List.contains_iff_mem.1 hx))

/-- Whether a name or a number ends before the characters. -/
def Delimited (rest : List Char) : Prop :=
  rest.head?.all isDelimiter = true

section Delimited

variable {rest : List Char}

lemma Delimited.any_head? (h : Delimited rest) {P : Char → Bool}
    (hP : delimiters.any P = false) : rest.head?.any P = false := by
  cases rest with
  | nil => rfl
  | cons x rest => exact not_of_isDelimiter hP h

lemma Delimited.head?_ne (h : Delimited rest) {c : Char}
    (hc : isDelimiter c = false) : rest.head? ≠ some c := by
  intro front
  rw [Delimited, front] at h
  exact Bool.false_ne_true (hc.symm.trans h)

lemma Delimited.append (h : Delimited rest) {cs : List Char} (hcs : Delimited cs) :
    Delimited (cs ++ rest) := by
  cases cs with
  | nil => exact h
  | cons x cs => exact hcs

lemma Delimited.takeWhile_append (h : Delimited rest) {P : Char → Bool}
    (hP : delimiters.any P = false) {cs : List Char} (hcs : ∀ c ∈ cs, P c) :
    (cs ++ rest).takeWhile P = cs := by
  rw [List.takeWhile_append_of_pos hcs]
  cases rest with
  | nil => simp
  | cons x rest => simp [not_of_isDelimiter hP h]

lemma Delimited.dropWhile_append (h : Delimited rest) {P : Char → Bool}
    (hP : delimiters.any P = false) {cs : List Char} (hcs : ∀ c ∈ cs, P c) :
    (cs ++ rest).dropWhile P = rest := by
  rw [List.dropWhile_append_of_pos hcs]
  cases rest with
  | nil => rfl
  | cons x rest => simp [not_of_isDelimiter hP h]

end Delimited

/-! ## Lexemes -/

namespace Lexeme

variable {position : Position} {afterOperand : Bool} {rest : List Char}

lemma nameRest_delimited (h : Delimited rest) {cs : List Char} (hcs : nameRest cs = cs) :
    nameRest (cs ++ rest) = cs := by
  induction cs with
  | nil =>
    cases rest with
    | nil => rfl
    | cons x rest =>
      have ends : continuesName x = false := not_of_isDelimiter (by decide) h
      have hyphen : x ≠ '-' := fun hx => h.head?_ne (c := '-') (by decide) (congrArg some hx)
      rw [List.nil_append, nameRest, if_neg (by simp [ends]), if_neg fun other => hyphen other.1]
  | cons c cs ih =>
    rw [nameRest] at hcs
    rw [List.cons_append, nameRest]
    by_cases goesOn : continuesName c = true
    · rw [if_pos goesOn] at hcs ⊢
      rw [ih (List.cons_injective hcs)]
    · rw [if_neg goesOn] at hcs ⊢
      by_cases hyphen : c = '-' ∧ cs.head?.any startsName = true
      · rw [if_pos hyphen] at hcs
        have front : (cs ++ rest).head?.any startsName = true := by
          cases cs with
          | nil => exact absurd hyphen.2 (by simp)
          | cons c' cs => exact hyphen.2
        rw [if_pos ⟨hyphen.1, front⟩, ih (List.cons_injective hcs)]
      · rw [if_neg hyphen] at hcs
        cases hcs

/-- What a word starts with. -/
structure Begins (c : Char) : Prop where
  unbroken : c ≠ '\n'
  filled : isBlank c = false
  starts : startsName c = true

lemma at_word {c : Char} (hc : Begins c) (cs : List Char) :
    at_ position afterOperand c cs = .ok (.word (c :: nameRest cs)) := by
  have slash : c ≠ '/' := by
    rintro rfl
    exact absurd hc.starts (by decide)
  rw [at_, if_neg hc.unbroken, if_neg (by simp [hc.filled]), if_neg fun comment => slash comment.1,
    if_pos hc.starts]

lemma begins_of_at {c : Char} {cs ws : List Char}
    (h : at_ position afterOperand c cs = .ok (.word ws)) : Begins c ∧ ws = c :: nameRest cs := by
  have other {sign : Option Char} {ds : List Char}
      (h : numberAt position sign ds = .ok (.word ws)) : False := by
    rw [numberAt_eq_ok] at h
    split at h
    · cases h
    · obtain ⟨-, -, y, -, h⟩ := h
      cases h
  unfold at_ at h
  split at h
  · cases h
  rename_i unbroken
  split at h
  · cases h
  rename_i filled
  split at h
  · cases h
  split at h
  · rename_i starts
    cases h
    exact ⟨⟨unbroken, Bool.eq_false_iff.2 filled, starts⟩, rfl⟩
  split at h
  · exact (other h).elim
  split at h
  · exact (other h).elim
  split at h
  · cases h
  · split at h <;> cases h

/-! ### Integers -/

lemma infinityAt_of_front {cs : List Char} (h : cs.head? ≠ some 'i') : infinityAt cs = false := by
  cases cs with
  | nil => rfl
  | cons c cs =>
    have hc : 'i' ≠ c := fun hc => h (by rw [hc, List.head?_cons])
    simp [infinityAt, infinityChars, List.isPrefixOf, hc]

lemma digitsValue?_eq {cs : List Char} (h : ∀ c ∈ cs, c.isDigit = true) :
    digitsValue? cs = some (Nat.ofDigitChars 10 cs 0) := by
  have from_ (n : Nat) : cs.foldlM (fun n c => (digitValue? c).map (n * 10 + ·)) n =
      some (Nat.ofDigitChars 10 cs n) := by
    induction cs generalizing n with
    | nil => rfl
    | cons c cs ih =>
      rw [List.forall_mem_cons] at h
      rw [List.foldlM_cons, digitValue?, if_pos h.1, Nat.ofDigitChars_cons, Nat.mul_comm]
      exact ih h.2 _
  exact from_ 0

def asciiDigits : List Char := ['0', '1', '2', '3', '4', '5', '6', '7', '8', '9']

lemma mem_asciiDigits {d : Char} (h : d.isDigit = true) : d ∈ asciiDigits := by
  simp only [Char.isDigit, Bool.and_eq_true, decide_eq_true_eq, ge_iff_le] at h
  have low : 48 ≤ d.toNat := UInt32.le_iff_toNat_le.1 h.1
  have high : d.toNat ≤ 57 := UInt32.le_iff_toNat_le.1 h.2
  obtain ⟨k, hk, hd⟩ : ∃ k < 10, d.toNat = 48 + k := ⟨d.toNat - 48, by omega, by omega⟩
  have all : ∀ k < 10, Char.ofNat (48 + k) ∈ asciiDigits := by decide
  rw [← Char.ofNat_toNat d, hd]
  exact all k hk

/-- The digits of a natural number, after its sign. -/
lemma numberAt_digits (position : Position) (h : Delimited rest) (sign : Option Char) (n : Nat) :
    numberAt position sign (Decimal.digitsOf n ++ rest) =
      .ok (.number (sign.toList ++ Decimal.digitsOf n)
        (.int (if decide (sign = some '-') then -n else n))) := by
  have ascii : ∀ c ∈ Decimal.digitsOf n, c.isDigit = true := fun c hc =>
    Nat.isDigit_of_mem_toDigits (by decide) (by decide) hc
  have digits : ∀ c ∈ Decimal.digitsOf n, isDigit c = true := fun c hc =>
    isDigit_of_asciiDigit (ascii c hc)
  have finite : infinityAt (Decimal.digitsOf n ++ rest) = false := by
    obtain ⟨d, ds, hds⟩ := List.exists_cons_of_ne_nil (Nat.toDigits_ne_nil (n := n) (b := 10))
    have hds : Decimal.digitsOf n = d :: ds := hds
    refine infinityAt_of_front fun front => ?_
    rw [hds, List.cons_append, List.head?_cons, Option.some.injEq] at front
    subst front
    exact absurd (ascii 'i' (hds ▸ List.mem_cons_self)) (by decide)
  have whole : (Decimal.digitsOf n ++ rest).takeWhile isDigit = Decimal.digitsOf n :=
    h.takeWhile_append (by decide) digits
  have point : decimals? (Decimal.digitsOf n ++ rest) = none := by
    have none : rest.head? ≠ some '.' := h.head?_ne (by decide)
    rw [decimals?, h.dropWhile_append (by decide) digits]
    simp [none]
  have literal : literalAt (Decimal.digitsOf n ++ rest) = Decimal.digitsOf n := by
    rw [literalAt, whole, point]
    simp
  have ends : runsOnAt rest = false := by
    rw [runsOnAt]
    cases ellipsisAt rest <;> exact h.any_head? (by decide)
  rw [numberAt_eq_ok, finite, Bool.and_false, if_neg Bool.false_ne_true, whole, point, literal,
    List.drop_left]
  refine ⟨by simp, ends, _, ?_, rfl⟩
  rw [numberValue?, digitsValue?_eq ascii, Decimal.digitsOf, Nat.ofDigitChars_ten_toDigits]
  rfl

lemma at_digit {d : Char} {ds : List Char} (hd : d.isDigit = true) :
    at_ position afterOperand d ds = numberAt position none (d :: ds) := by
  have front : asciiDigits.all (fun d => d ≠ '\n' && !isBlank d && d ≠ '/' && !startsName d) := by
    decide
  obtain ⟨⟨⟨unbroken, filled⟩, slash⟩, other⟩ : ((d ≠ '\n' ∧ isBlank d = false) ∧ d ≠ '/') ∧
      startsName d = false := by
    simpa using List.all_eq_true.1 front d (mem_asciiDigits hd)
  rw [at_, if_neg unbroken, if_neg (by simp [filled]), if_neg fun comment => slash comment.1,
    if_neg (by simp [other]), if_pos (isDigit_of_asciiDigit hd)]

lemma at_sign {cs : List Char} (h : cs.head?.any isDigit = true) :
    at_ position afterOperand '-' cs = numberAt position (some '-') cs := by
  rw [at_, if_neg (by decide), if_neg (by decide), if_neg (by simp), if_neg (by decide),
    if_neg (by decide), if_pos (by simp [signedNumberAt, h])]

lemma at_int (position : Position) (afterOperand : Bool) (h : Delimited rest) (i : Int) :
    ∃ c cs, (Number.intText i).toList = c :: cs ∧
      at_ position afterOperand c (cs ++ rest) = .ok (.number (c :: cs) (.int i)) := by
  obtain ⟨d, ds, hds⟩ := List.exists_cons_of_ne_nil (Nat.toDigits_ne_nil (n := i.natAbs) (b := 10))
  have hd : d.isDigit = true := Nat.isDigit_of_mem_toDigits (n := i.natAbs) (b := 10) (by decide)
    (by decide) (by rw [hds]; exact List.mem_cons_self)
  have hds : Decimal.digitsOf i.natAbs = d :: ds := hds
  have value (sign : Option Char) := numberAt_digits position h sign i.natAbs
  rw [hds] at value
  by_cases negative : i < 0
  · refine ⟨'-', d :: ds, by simp [Number.intText, negative, Decimal.digitText, hds], ?_⟩
    have magnitude : -(i.natAbs : Int) = i := by omega
    rw [at_sign (by simpa using isDigit_of_asciiDigit hd), value, decide_eq_true rfl, if_pos rfl,
      magnitude]
    rfl
  · refine ⟨d, ds, by simp [Number.intText, negative, Decimal.digitText, hds], ?_⟩
    have magnitude : (i.natAbs : Int) = i := by omega
    rw [List.cons_append] at value
    rw [at_digit hd, value, decide_eq_false (by simp), if_neg Bool.false_ne_true, magnitude]
    rfl

/-! ### Marks -/

lemma at_mark {p : Punctuation} {c : Char} {cs : List Char} (hp : p.chars = c :: cs)
    (plus : p = .plus → Delimited rest) :
    at_ position afterOperand c (cs ++ rest) = .ok (.mark p) := by
  have sign : signedNumberAt afterOperand c (cs ++ rest) = false := by
    cases p with
    | plus =>
      cases hp
      have end_ := (plus rfl).any_head? (P := isDigit) (by decide)
      have finite := infinityAt_of_front ((plus rfl).head?_ne (c := 'i') (by decide))
      simp [signedNumberAt, end_, finite]
    | arrow =>
      cases hp
      have finite : infinityAt ('>' :: rest) = false := infinityAt_of_front (by simp)
      simp [signedNumberAt, finite, show isDigit '>' = false by decide]
    | _ =>
      cases hp
      simp [signedNumberAt]
  have mark : Punctuation.all.find? (·.chars.isPrefixOf (c :: (cs ++ rest))) = some p := by
    cases p <;> cases hp <;> simp [Punctuation.all, Punctuation.chars, List.find?, List.isPrefixOf]
  have front : c ≠ '\n' ∧ isBlank c = false ∧ c ≠ '/' ∧ startsName c = false ∧
    isDigit c = false := by
    cases p <;> cases hp <;> decide
  rw [at_, if_neg front.1, if_neg (by simp [front.2.1]), if_neg fun slash => front.2.2.1 slash.1,
    if_neg (by simp [front.2.2.2.1]), if_neg (by simp [front.2.2.2.2]), sign, mark]
  rfl

end Lexeme

/-! ## Scanning -/

/-- Scanning characters that come before others makes tokens, and leads from one state to another.
-/
def Passes (s : ScanState) (cs rest : List Char) (ts : List Token) (s' : ScanState) : Prop :=
  ∀ more, scanFrom rest 0 s' = .ok more → scanFrom (cs ++ rest) 0 s = .ok (ts ++ more)

lemma Passes.trans {s s' s'' : ScanState} {cs ds rest : List Char} {ts us : List Token}
    (h : Passes s cs (ds ++ rest) ts s') (h' : Passes s' ds rest us s'') :
    Passes s (cs ++ ds) rest (ts ++ us) s'' := by
  intro more scanned
  rw [List.append_assoc, List.append_assoc]
  exact h _ (h' _ scanned)

lemma scanFrom_skip (cs rest : List Char) (s : ScanState) :
    scanFrom (cs ++ rest) cs.length s = scanFrom rest 0 (cs.foldl ScanState.past s) := by
  induction cs generalizing s with
  | nil => rfl
  | cons c cs ih =>
    rw [List.cons_append, List.length_cons, scanFrom, ih]
    rfl

lemma ScanState.brackets_foldl_past (cs : List Char) (s : ScanState) :
    (cs.foldl past s).brackets = s.brackets := by
  induction cs generalizing s with
  | nil => rfl
  | cons c cs ih => exact ih _

lemma ScanState.afterOperand_foldl_past (cs : List Char) (s : ScanState) :
    (cs.foldl past s).afterOperand = s.afterOperand := by
  induction cs generalizing s with
  | nil => rfl
  | cons c cs ih => exact ih _

/-- A lexeme is passed over at once. -/
lemma passes_lexeme {s s' : ScanState} {c : Char} {l : Lexeme} (cs rest : List Char)
    (hl : Lexeme.at_ s.position s.afterOperand c (cs ++ rest) = .ok l)
    (length : l.length = cs.length + 1)
    (noted : s.note l (l.token? s.position s.breakCounts) = .ok s') :
    ∃ s'', Passes s (c :: cs) rest (l.token? s.position s.breakCounts).toList s'' ∧
      s''.brackets = s'.brackets ∧ s''.afterOperand = s'.afterOperand := by
  refine ⟨cs.foldl ScanState.past (s'.past c), fun more scanned => ?_,
    ScanState.brackets_foldl_past _ _, ScanState.afterOperand_foldl_past _ _⟩
  refine scanFrom_cons_eq_ok.2 ⟨l, s', more, hl, noted, ?_, rfl⟩
  rw [length, Nat.add_sub_cancel]
  exact (scanFrom_skip cs rest _).trans scanned

/-! ## Spelling -/

/-- A text is spelled by tokens of some kind, wherever it stands before a delimiter.  It leaves the
open brackets as they were. -/
def Spells (cs : List Char) (P : List Token → Prop) : Prop :=
  ∀ s rest, Delimited rest → ∃ ts s', Passes s cs rest ts s' ∧ s'.brackets = s.brackets ∧
    (∀ t ∈ ts, t.kind ≠ .newline) ∧ P ts

namespace Spells

variable {cs ds : List Char} {P Q R : List Token → Prop}

lemma imp (h : Spells cs P) (hPQ : ∀ ts, P ts → Q ts) : Spells cs Q := by
  intro s rest hrest
  obtain ⟨ts, s', passes, brackets, unbroken, hts⟩ := h s rest hrest
  exact ⟨ts, s', passes, brackets, unbroken, hPQ ts hts⟩

lemma nil (h : P []) : Spells [] P :=
  fun s _ _ => ⟨[], s, fun _ scanned => scanned, rfl, by simp, h⟩

/-- A spelled text goes on the scan of the characters before it. -/
lemma follow (hd : Spells ds Q) {s s' : ScanState} {rest : List Char} {ts : List Token}
    (hrest : Delimited rest) (passes : Passes s cs (ds ++ rest) ts s')
    (brackets : s'.brackets = s.brackets) (unbroken : ∀ t ∈ ts, t.kind ≠ .newline) :
    ∃ us s'', Passes s (cs ++ ds) rest (ts ++ us) s'' ∧ s''.brackets = s.brackets ∧
      (∀ t ∈ ts ++ us, t.kind ≠ .newline) ∧ Q us := by
  obtain ⟨us, s'', passes', brackets', unbroken', hus⟩ := hd s' rest hrest
  exact ⟨us, s'', passes.trans passes', brackets'.trans brackets,
    List.forall_mem_append.2 ⟨unbroken, unbroken'⟩, hus⟩

lemma append (delimited : Delimited ds) (hc : Spells cs P) (hd : Spells ds Q)
    (h : ∀ ts us, P ts → Q us → R (ts ++ us)) : Spells (cs ++ ds) R := by
  intro s rest hrest
  obtain ⟨ts, s', passes, brackets, unbroken, hts⟩ := hc s (ds ++ rest) (hrest.append delimited)
  obtain ⟨us, s'', whole, brackets, unbroken, hus⟩ := hd.follow hrest passes brackets unbroken
  exact ⟨ts ++ us, s'', whole, brackets, unbroken, h ts us hts hus⟩

lemma blank (hc : Spells cs P) : Spells (' ' :: cs) P := by
  intro s rest hrest
  obtain ⟨s', passes, brackets, -⟩ := passes_lexeme (s := s) (c := ' ') (l := .blank) []
    (cs ++ rest) rfl rfl rfl
  obtain ⟨ts, s'', passes', brackets', unbroken, hts⟩ := hc s' rest hrest
  exact ⟨ts, s'', passes.trans passes', brackets'.trans brackets, unbroken, hts⟩

/-- A mark before characters that are no bracket. -/
lemma passes_mark {p : Punctuation} {s : ScanState} {brackets : List OpenBracket}
    (rest : List Char) (hs : OpenBracket.step s.brackets s.position p = .ok brackets)
    (plus : p = .plus → Delimited rest) :
    ∃ k s', Passes s p.chars rest [k] s' ∧ s'.brackets = brackets ∧
      s'.afterOperand = TokenKind.endsOperand (.mark p) ∧ k.kind = .mark p := by
  obtain ⟨c, cs, hp⟩ : ∃ c cs, p.chars = c :: cs := by cases p <;> exact ⟨_, _, rfl⟩
  obtain ⟨s', passes, after, operand⟩ := passes_lexeme (s := s) cs rest (Lexeme.at_mark hp plus)
    (by rw [Lexeme.length, hp, List.length_cons]) (bind_eq_ok.2 ⟨brackets, hs, rfl⟩)
  exact ⟨_, s', hp ▸ passes, after, operand, rfl⟩

/-- A mark before what is spelled.  A plus sign must not run into a number. -/
lemma mark {p : Punctuation} (plain : p.closer? = none ∧ p.isCloser = false)
    (plus : p = .plus → cs.head? = some ' ') (hc : Spells cs P)
    (h : ∀ k ts, k.kind = .mark p → P ts → Q (k :: ts)) : Spells (p.chars ++ cs) Q := by
  intro s rest hrest
  have same : OpenBracket.step s.brackets s.position p = .ok s.brackets := by
    simp [OpenBracket.step, plain.1, plain.2]
  have free : p = .plus → Delimited (cs ++ rest) := by
    intro hp
    obtain ⟨cs, rfl⟩ := List.head?_eq_some_iff.1 (plus hp)
    rfl
  obtain ⟨k, s', passes, brackets, -, hk⟩ := passes_mark (cs ++ rest) same free
  obtain ⟨ts, s'', passes', brackets', unbroken, hts⟩ := hc s' rest hrest
  refine ⟨k :: ts, s'', passes.trans passes', brackets'.trans brackets, ?_, h k ts hk hts⟩
  exact List.forall_mem_cons.2 ⟨by simp [hk], unbroken⟩

/-- Two texts with a mark between them that stands alone. -/
lemma between {p : Punctuation} (plain : p.closer? = none ∧ p.isCloser = false)
    (hc : Spells cs P) (hd : Spells ds Q)
    (h : ∀ ts k us, P ts → k.kind = .mark p → Q us → R (ts ++ k :: us)) :
    Spells (cs ++ ' ' :: (p.chars ++ ' ' :: ds)) R := by
  have right : Spells (' ' :: (p.chars ++ ' ' :: ds))
      fun us => ∃ k vs, us = k :: vs ∧ k.kind = .mark p ∧ Q vs :=
    (hd.blank.mark plain (fun _ => rfl) fun k ts hk hts => ⟨k, ts, rfl, hk, hts⟩).blank
  refine .append rfl hc right ?_
  rintro ts _ hts ⟨k, us, rfl, hk, hus⟩
  exact h ts k us hts hk hus

/-- A text in brackets. -/
lemma enclosed {p q : Punctuation} (hp : p.closer? = some q) (hq : q ∈ [.parenClose, .bracketClose])
    (hc : Spells cs P)
    (h : ∀ k ts c, k.kind = .mark p → P ts → c.kind = .mark q → R (k :: (ts ++ [c]))) :
    Spells (p.chars ++ (cs ++ q.chars)) R := by
  intro s rest hrest
  have opens : OpenBracket.step s.brackets s.position p =
      .ok (⟨p, q, s.position⟩ :: s.brackets) := by
    simp [OpenBracket.step, hp]
  have delimited : Delimited (q.chars ++ rest) := by
    simp only [List.mem_cons, List.not_mem_nil, or_false] at hq
    rcases hq with rfl | rfl <;> rfl
  obtain ⟨k, s', passes, brackets, -, hk⟩ := passes_mark (cs ++ q.chars ++ rest) opens
    (by rintro rfl; cases hp)
  obtain ⟨ts, s'', passes', brackets', unbroken, hts⟩ := hc s' (q.chars ++ rest) delimited
  have closes : OpenBracket.step s''.brackets s''.position q = .ok s.brackets := by
    rw [brackets', brackets]
    simp only [List.mem_cons, List.not_mem_nil, or_false] at hq
    rcases hq with rfl | rfl <;> simp [OpenBracket.step, Punctuation.closer?, Punctuation.isCloser]
  obtain ⟨c, s₃, passes₃, brackets₃, -, hc'⟩ := passes_mark rest closes
    (by rintro rfl; simp at hq)
  refine ⟨k :: (ts ++ [c]), s₃, passes.trans (passes'.trans passes₃), brackets₃, ?_,
    h k ts c hk hts hc'⟩
  simp only [List.forall_mem_cons, List.forall_mem_append]
  exact ⟨by simp [hk], unbroken, by simp [hc'], by simp⟩

/-! ### Words and integers -/

lemma word {c : Char} (hc : Lexeme.Begins c) (whole : Lexeme.nameRest cs = cs)
    (h : ∀ k : Token, k.kind = Lexeme.wordKind (c :: cs) → k.text = String.ofList (c :: cs) →
      P [k]) : Spells (c :: cs) P := by
  intro s rest hrest
  have at_ : Lexeme.at_ s.position s.afterOperand c (cs ++ rest) = .ok (.word (c :: cs)) := by
    rw [Lexeme.at_word hc, Lexeme.nameRest_delimited hrest whole]
  obtain ⟨s', passes, brackets, -⟩ :=
    passes_lexeme (s := s) cs rest at_ (by rw [Lexeme.length]; rfl) rfl
  refine ⟨_, s', passes, brackets, ?_, h _ rfl rfl⟩
  simp only [Lexeme.token?, Option.toList_some, List.mem_singleton, forall_eq, Lexeme.wordKind]
  split
  · simp
  · split <;> simp

lemma int (i : Int) (h : ∀ k : Token, k.kind = .number (.int i) → P [k]) :
    Spells (Number.intText i).toList P := by
  intro s rest hrest
  obtain ⟨c, cs, chars, at_⟩ := Lexeme.at_int s.position s.afterOperand hrest i
  obtain ⟨s', passes, brackets, -⟩ := passes_lexeme cs rest at_ (by rw [Lexeme.length]; rfl) rfl
  rw [chars]
  exact ⟨_, s', passes, brackets, by simp [Lexeme.token?], h _ rfl⟩

end Spells

/-! ## The tokens of a spelled text -/

lemma dropContinuations_closing {p : TokenKind} {ts : List Token}
    (unbroken : ∀ t ∈ ts, t.kind ≠ .newline) (place : Position) :
    dropContinuations p (ts ++ closing place) = ts ++ [⟨.finish, "", place⟩] := by
  induction ts generalizing p with
  | nil => simp [closing, dropContinuations, TokenKind.continuesBefore]
  | cons t ts ih =>
    rw [List.forall_mem_cons] at unbroken
    rw [List.cons_append, dropContinuations, if_neg fun newline => unbroken.1 newline.1,
      ih unbroken.2]
    rfl

lemma tokenize_of_passes {text : String} {ts : List Token} {s : ScanState}
    (passes : Passes .start text.toList [] ts s) (closed : s.brackets = [])
    (unbroken : ∀ t ∈ ts, t.kind ≠ .newline) :
    tokenize text = .ok (ts ++ [⟨.finish, "", s.position⟩]) := by
  have close : scanFrom [] 0 s = .ok (closing s.position) := by
    simp [scanFrom, ScanState.close, closed, closing]
  have scanned := passes _ close
  rw [List.append_nil] at scanned
  exact tokenize_eq_ok.2 ⟨_, scanned, dropContinuations_closing unbroken s.position⟩

lemma tokenize_of_spells {text : String} {P : List Token → Prop} (h : Spells text.toList P) :
    ∃ ts fin, tokenize text = .ok (ts ++ [fin]) ∧ fin.kind = .finish ∧ P ts := by
  obtain ⟨ts, s, passes, brackets, unbroken, hts⟩ := h .start [] rfl
  exact ⟨ts, _, tokenize_of_passes passes brackets unbroken, rfl, hts⟩

/-! ## Names -/

lemma Lexeme.length_text_le {l : Lexeme} {p : Position} {breakCounts : Bool} {t : Token}
    (h : t ∈ l.token? p breakCounts) : t.text.length ≤ l.length := by
  cases l with
  | lineBreak =>
    cases breakCounts with
    | false => cases h
    | true =>
      cases h
      exact (by decide : "\n".length ≤ 1)
  | blank | comment => cases h
  | word cs =>
    cases h
    simp [Lexeme.length]
  | number cs x =>
    cases h
    simp [Lexeme.length]
  | mark p =>
    cases h
    simp [Lexeme.length, Punctuation.text]

lemma length_text_le_of_scanFrom {cs : List Char} {skip : Nat} {s : ScanState}
    {tokens : List Token} (h : scanFrom cs skip s = .ok tokens) :
    ∀ t ∈ tokens, t.text.length ≤ cs.length := by
  induction cs generalizing skip s tokens with
  | nil =>
    rw [scanFrom] at h
    obtain ⟨-, rfl⟩ := ScanState.close_eq_ok h
    simp [closing]
  | cons c cs ih =>
    cases skip with
    | succ skip => exact fun t ht => Nat.le_succ_of_le (ih (scanFrom.eq_2 .. ▸ h) t ht)
    | zero =>
      obtain ⟨l, s', rest, at_, -, scanned, rfl⟩ := scanFrom_cons_eq_ok.1 h
      intro t ht
      rcases List.mem_append.1 ht with ht | ht
      · exact Nat.le_trans (Lexeme.length_text_le (by simpa using ht)) (Lexeme.length_at_le at_)
      · exact Nat.le_succ_of_le (ih scanned t ht)

/-- A text that is scanned as a single name, which may be that of a variable. -/
def ScansAsName (ofVariable : Bool) (name : String) : Prop :=
  ∃ k fin, tokenize name = .ok [k, fin] ∧ k.kind = .name ∧ k.text = name ∧
    k.isVariable = ofVariable

lemma ScansAsName.exists_cons {ofVariable : Bool} {name : String}
    (h : ScansAsName ofVariable name) : ∃ c cs, name.toList = c :: cs ∧ Lexeme.Begins c ∧
      Lexeme.nameRest cs = cs ∧ Lexeme.wordKind (c :: cs) = .name := by
  obtain ⟨k, fin, h, hk, rfl, -⟩ := h
  obtain ⟨all, scanned, dropped⟩ := tokenize_eq_ok.1 h
  have found : k ∈ all := (dropContinuations_sublist .newline all).subset
    (dropped ▸ List.mem_cons_self)
  cases chars : k.text.toList with
  | nil =>
    rw [chars, scanFrom] at scanned
    obtain ⟨-, rfl⟩ := ScanState.close_eq_ok scanned
    simp only [closing, List.mem_cons, List.not_mem_nil, or_false] at found
    rcases found with rfl | rfl <;> cases hk
  | cons c cs =>
    rw [chars] at scanned
    obtain ⟨l, s', rest, at_, -, later, rfl⟩ := scanFrom_cons_eq_ok.1 scanned
    rcases List.mem_append.1 found with found | found
    · cases l with
      | word ws =>
        obtain rfl := List.mem_singleton.1 found
        obtain ⟨begins, rest⟩ := Lexeme.begins_of_at at_
        have whole : ws = c :: cs := by simpa using chars
        rw [whole] at rest
        exact ⟨c, cs, rfl, begins, (List.cons_injective rest).symm, whole ▸ hk⟩
      | lineBreak =>
        obtain rfl := List.mem_singleton.1 found
        cases hk
      | blank | comment => cases found
      | number | mark =>
        obtain rfl := List.mem_singleton.1 found
        cases hk
    · -- whatever comes later is shorter
      have short := length_text_le_of_scanFrom later k found
      rw [← String.length_toList, chars, List.length_cons] at short
      exact absurd short (Nat.not_succ_le_self _)

lemma spells_name {ofVariable : Bool} {name : String} {P : List Token → Prop}
    (h : ScansAsName ofVariable name)
    (hP : ∀ k : Token, k.kind = .name → k.text = name → k.isVariable = ofVariable → P [k]) :
    Spells name.toList P := by
  obtain ⟨c, cs, chars, begins, whole, kind⟩ := h.exists_cons
  obtain ⟨k', fin, -, hk', text', single⟩ := h
  rw [chars]
  refine .word begins whole fun k hk text => hP k (hk.trans kind) ?_ ?_
  · rw [text, ← chars, String.ofList_toList]
  · rw [← single, Token.isVariable, Token.isVariable, hk, kind, hk', text', text, chars,
      String.toList_ofList]

end TypeNotation
