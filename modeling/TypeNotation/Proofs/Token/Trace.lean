import TypeNotation.Proofs.Token.Spelling
import TypeNotation.Proofs.Token.Nesting

/-!
# Scanning lexeme by lexeme

Scanning passes from one state to the next by a lexeme at a time.  Which lexeme that is depends on
characters that come after it, so these are kept in sight; what has been scanned can then be cut
between any two lexemes.
-/

namespace TypeNotation

open Text

/-! ## What a lexeme is read from -/

namespace Lexeme

/-- What the characters must be like at which a lexeme is read. -/
def ReadFrom : Lexeme → List Char → Prop
  | lineBreak, cs => cs.head? = some '\n'
  | blank, cs => ∃ c, cs.head? = some c ∧ c ≠ '\n' ∧ isBlank c
  | comment n, cs => ['/', '/'] <+: cs ∧ n = (cs.takeWhile (· ≠ '\n')).length
  | word ws, cs => ws <+: cs
  | number ws _, cs => ws <+: cs
  | mark p, cs => p.chars <+: cs

lemma nameRest_isPrefix (cs : List Char) : nameRest cs <+: cs := by
  induction cs with
  | nil => exact List.prefix_refl _
  | cons c cs ih =>
    rw [nameRest]
    split
    · exact List.cons_prefix_cons.2 ⟨rfl, ih⟩
    · split
      · exact List.cons_prefix_cons.2 ⟨rfl, ih⟩
      · exact List.nil_prefix

lemma literalAt_isPrefix (cs : List Char) : literalAt cs <+: cs := by
  have whole : cs.takeWhile isDigit ++ cs.dropWhile isDigit = cs := List.takeWhile_append_dropWhile
  rw [literalAt]
  conv_rhs => rw [← whole]
  refine (List.prefix_append_right_inj _).2 ?_
  unfold decimals?
  dsimp only
  split
  · rename_i point
    cases after : cs.dropWhile isDigit with
    | nil => simp [after] at point
    | cons d ds =>
      rw [after, Bool.and_eq_true, decide_eq_true_eq, List.head?_cons, Option.some.injEq] at point
      rw [Option.map_some, Option.getD_some, point.1, List.tail_cons]
      exact List.cons_prefix_cons.2 ⟨rfl, List.takeWhile_prefix _⟩
  · exact List.nil_prefix

lemma readFrom_numberAt {p : Position} {sign : Option Char} {cs : List Char} {l : Lexeme}
    (h : numberAt p sign cs = .ok l) : l.ReadFrom (sign.toList ++ cs) := by
  rw [numberAt_eq_ok] at h
  split at h
  · rename_i infinite
    rw [Bool.and_eq_true, infinityAt, Bool.and_eq_true] at infinite
    subst h
    exact (List.prefix_append_right_inj _).2 (List.isPrefixOf_iff_prefix.1 infinite.2.1)
  · obtain ⟨-, -, y, -, rfl⟩ := h
    exact (List.prefix_append_right_inj _).2 (literalAt_isPrefix cs)

lemma readFrom_at {p : Position} {afterOperand : Bool} {c : Char} {cs : List Char} {l : Lexeme}
    (h : at_ p afterOperand c cs = .ok l) : l.ReadFrom (c :: cs) := by
  unfold at_ at h
  split at h
  · rename_i hc
    cases h
    exact congrArg some hc
  rename_i unbroken
  split at h
  · rename_i blank
    cases h
    exact ⟨c, rfl, unbroken, blank⟩
  split at h
  · rename_i slash
    cases h
    obtain ⟨rfl, hcs⟩ := slash
    obtain ⟨ds, rfl⟩ := List.head?_eq_some_iff.1 hcs
    refine ⟨⟨ds, rfl⟩, ?_⟩
    have first : ('/' :: '/' :: ds).takeWhile (· ≠ '\n') =
        '/' :: ('/' :: ds).takeWhile (· ≠ '\n') :=
      List.takeWhile_cons_of_pos (by decide)
    rw [first, List.length_cons, Nat.add_comm]
  split at h
  · cases h
    exact List.cons_prefix_cons.2 ⟨rfl, nameRest_isPrefix cs⟩
  split at h
  · exact readFrom_numberAt h
  split at h
  · exact readFrom_numberAt h
  split at h
  · rename_i p found
    cases h
    have fits := List.find?_some found
    exact List.isPrefixOf_iff_prefix.1 fits
  · split at h <;> cases h

lemma length_numberAt_pos {p : Position} {c : Char} {cs : List Char} {l : Lexeme}
    (h : numberAt p none (c :: cs) = .ok l) (digit : isDigit c = true) : 0 < l.length := by
  rw [numberAt_eq_ok, Option.isSome_none, Bool.false_and, if_neg Bool.false_ne_true] at h
  obtain ⟨-, -, y, -, rfl⟩ := h
  simp [length, literalAt, List.takeWhile_cons_of_pos digit]

/-- No lexeme is empty. -/
lemma length_at_pos {p : Position} {afterOperand : Bool} {c : Char} {cs : List Char} {l : Lexeme}
    (h : at_ p afterOperand c cs = .ok l) : 0 < l.length := by
  unfold at_ at h
  split at h
  · cases h
    exact Nat.one_pos
  split at h
  · cases h
    exact Nat.one_pos
  split at h
  · cases h
    exact Nat.add_pos_left Nat.one_pos _
  split at h
  · cases h
    exact Nat.succ_pos _
  split at h
  · rename_i digit
    exact length_numberAt_pos h digit
  split at h
  · rw [numberAt_eq_ok] at h
    split at h
    · subst h
      exact Nat.succ_pos _
    · obtain ⟨-, -, y, -, rfl⟩ := h
      exact Nat.succ_pos _
  split at h
  · rename_i p found
    cases h
    cases p <;> exact Nat.succ_pos _
  · split at h <;> cases h

end Lexeme

/-! ## One lexeme -/

/-- The token of a lexeme in a state. -/
def ScanState.token? (s : ScanState) (l : Lexeme) : Option Token :=
  l.token? s.position s.breakCounts

/-- A lexeme is scanned of characters before others, and leads from one state to another. -/
structure Step (s : ScanState) (cs rest : List Char) (l : Lexeme) (s' : ScanState) : Prop where
  lexeme : ∃ c taken, cs = c :: taken ∧
    Lexeme.at_ s.position s.afterOperand c (taken ++ rest) = .ok l
  length : l.length = cs.length
  noted : ∃ s₁, s.note l (s.token? l) = .ok s₁ ∧ s' = cs.foldl ScanState.past s₁

lemma ScanState.foldl_past (cs : List Char) (s : ScanState) :
    cs.foldl past s = ⟨s.position.after cs, s.brackets, s.afterOperand⟩ := by
  induction cs generalizing s with
  | nil => rfl
  | cons c cs ih => exact ih _

namespace Step

variable {s s' : ScanState} {cs rest : List Char} {l : Lexeme}

lemma position (h : Step s cs rest l s') : s'.position = s.position.after cs := by
  obtain ⟨s₁, noted, rfl⟩ := h.noted
  rw [ScanState.foldl_past, ScanState.note_position noted]

lemma readFrom (h : Step s cs rest l s') : l.ReadFrom (cs ++ rest) := by
  obtain ⟨c, taken, rfl, at_⟩ := h.lexeme
  exact Lexeme.readFrom_at at_

lemma nonempty (h : Step s cs rest l s') : cs ≠ [] := by
  obtain ⟨c, taken, rfl, -⟩ := h.lexeme
  exact List.cons_ne_nil _ _

/-- What the token of a lexeme does to the open brackets. -/
lemma through (h : Step s cs rest l s') :
    OpenBracket.through s.brackets (s.token? l).toList = .ok s'.brackets := by
  obtain ⟨s₁, noted, rfl⟩ := h.noted
  rw [ScanState.token?, read_token?, ← ScanState.token?, noted, ScanState.foldl_past]
  rfl

lemma afterOperand (h : Step s cs rest l s') : s'.afterOperand =
    ((s.token? l).map (·.kind.endsOperand)).getD s.afterOperand := by
  obtain ⟨s₁, noted, rfl⟩ := h.noted
  rw [ScanState.foldl_past]
  cases l with
  | mark p =>
    obtain ⟨brackets, -, h⟩ := bind_eq_ok.1 noted
    cases h
    rfl
  | _ =>
    cases noted
    cases s.token? _ <;> rfl

/-- A token is written as what it is scanned of. -/
lemma text_of_token (h : Step s cs rest l s') {t : Token} (ht : s.token? l = some t) :
    t.text.toList = cs := by
  have whole {ws : List Char} (hw : ws <+: cs ++ rest) (length : ws.length = cs.length) : ws = cs :=
    (List.prefix_of_prefix_length_le hw (List.prefix_append _ _)
      (Nat.le_of_eq length)).eq_of_length length
  have read := h.readFrom
  have length := h.length
  cases l with
  | lineBreak =>
    rw [ScanState.token?, Lexeme.token?] at ht
    split at ht <;> cases ht
    obtain ⟨ds, hds⟩ := List.head?_eq_some_iff.1 read
    have one : ['\n'] = cs := whole ⟨ds, hds.symm⟩ length
    exact (by decide : "\n".toList = ['\n']).trans one
  | blank | comment => cases ht
  | word ws =>
    cases ht
    rw [String.toList_ofList]
    exact whole read length
  | number ws x =>
    cases ht
    rw [String.toList_ofList]
    exact whole read length
  | mark p =>
    cases ht
    rw [Punctuation.text, String.toList_ofList]
    exact whole read length

lemma scanFrom_ok (h : Step s cs rest l s') {more : List Token}
    (scanned : scanFrom rest 0 s' = .ok more) :
    scanFrom (cs ++ rest) 0 s = .ok ((s.token? l).toList ++ more) := by
  obtain ⟨c, taken, rfl, at_⟩ := h.lexeme
  obtain ⟨s₁, noted, rfl⟩ := h.noted
  refine scanFrom_cons_eq_ok.2 ⟨l, s₁, more, at_, noted, ?_, rfl⟩
  rw [h.length, List.length_cons, Nat.add_sub_cancel]
  exact (scanFrom_skip taken rest _).trans scanned

end Step

lemma exists_step {c : Char} {cs : List Char} {s : ScanState} {tokens : List Token}
    (h : scanFrom (c :: cs) 0 s = .ok tokens) : ∃ ds rest l s' more, c :: cs = ds ++ rest ∧
      Step s ds rest l s' ∧ scanFrom rest 0 s' = .ok more ∧
      tokens = (s.token? l).toList ++ more := by
  obtain ⟨l, s₁, more, at_, noted, scanned, rfl⟩ := scanFrom_cons_eq_ok.1 h
  have short := Lexeme.length_at_le at_
  have long := Lexeme.length_at_pos at_
  have split : cs.take (l.length - 1) ++ cs.drop (l.length - 1) = cs := List.take_append_drop _ _
  have length : (cs.take (l.length - 1)).length = l.length - 1 := by
    rw [List.length_take]
    omega
  refine ⟨c :: cs.take (l.length - 1), cs.drop (l.length - 1), l, _, more, by
    rw [List.cons_append, split], ⟨⟨c, _, rfl, by rwa [split]⟩, ?_, s₁, noted, rfl⟩, ?_, rfl⟩
  · rw [List.length_cons, length]
    omega
  · rw [← split] at scanned
    conv at scanned =>
      lhs
      arg 2
      rw [← length]
    rwa [scanFrom_skip] at scanned

/-! ## Many lexemes -/

/-- Tokens are scanned of characters before others, and lead from one state to another. -/
inductive Scans : ScanState → List Char → List Char → List Token → ScanState → Prop
  | nil {s : ScanState} {rest : List Char} : Scans s [] rest [] s
  | cons {s s' s'' : ScanState} {cs ds rest : List Char} {l : Lexeme} {ts : List Token} :
      Step s cs (ds ++ rest) l s' → Scans s' ds rest ts s'' →
      Scans s (cs ++ ds) rest ((s.token? l).toList ++ ts) s''

namespace Scans

variable {s s' s'' : ScanState} {cs ds rest : List Char} {ts us : List Token}

lemma append (h : Scans s cs (ds ++ rest) ts s') (h' : Scans s' ds rest us s'') :
    Scans s (cs ++ ds) rest (ts ++ us) s'' := by
  generalize hr : ds ++ rest = rest' at h
  induction h with
  | nil => exact h'
  | cons step _ ih =>
    subst hr
    rw [List.append_assoc, List.append_assoc]
    exact .cons (by rwa [List.append_assoc]) (ih h' rfl)

lemma position (h : Scans s cs rest ts s') : s'.position = s.position.after cs := by
  induction h with
  | nil => rfl
  | cons step _ ih =>
    rw [ih, step.position, Position.after, Position.after, Position.after, List.foldl_append]

lemma through (h : Scans s cs rest ts s') :
    OpenBracket.through s.brackets ts = .ok s'.brackets := by
  induction h with
  | nil => rfl
  | cons step _ ih =>
    rw [OpenBracket.through_append, step.through]
    exact ih

/-- Whether an operand has ended is known from the last token. -/
lemma afterOperand (h : Scans s cs rest ts s') {kind : TokenKind}
    (start : s.afterOperand = kind.endsOperand) :
    s'.afterOperand = (lastKind kind ts).endsOperand := by
  induction h generalizing kind with
  | nil => exact start
  | @cons s s₁ s' cs ds rest l ts step _ ih =>
    have next := step.afterOperand
    cases made : s.token? l with
    | none =>
      rw [made, Option.map_none, Option.getD_none] at next
      exact ih (next.trans start)
    | some t =>
      rw [made, Option.map_some, Option.getD_some] at next
      rw [Option.toList_some, List.singleton_append, lastKind_cons]
      exact ih next

/-- What every lexeme preserves is preserved by scanning. -/
lemma invariant {text : List Char} {P : List Char → List Token → ScanState → Prop}
    (step : ∀ {pre cs rest ts s l s'}, text = pre ++ (cs ++ rest) → P pre ts s →
      Step s cs rest l s' → P (pre ++ cs) (ts ++ (s.token? l).toList) s')
    {pre : List Char} {before : List Token} (h : Scans s cs rest ts s')
    (whole : text = pre ++ (cs ++ rest)) (start : P pre before s) :
    P (pre ++ cs) (before ++ ts) s' := by
  induction h generalizing pre before with
  | nil => simpa using start
  | cons first _ ih =>
    rw [List.append_assoc] at whole
    have next := ih (by rw [whole]; simp) (step whole start first)
    simpa using next

end Scans

/-- Scanning a text is scanning its lexemes and closing it. -/
lemma scanFrom_eq_ok_iff {cs : List Char} {s : ScanState} {tokens : List Token} :
    scanFrom cs 0 s = .ok tokens ↔ ∃ ts s', Scans s cs [] ts s' ∧ s'.brackets = [] ∧
      tokens = ts ++ closing s'.position := by
  constructor
  · intro h
    induction hn : cs.length using Nat.strongRecOn generalizing cs s tokens with
    | ind n ih =>
      cases cs with
      | nil =>
        obtain ⟨empty, rfl⟩ := ScanState.close_eq_ok h
        exact ⟨[], s, .nil, empty, rfl⟩
      | cons c cs =>
        obtain ⟨ds, rest, l, s', more, split, step, scanned, rfl⟩ := exists_step h
        have shorter : rest.length < n := by
          have := congrArg List.length split
          have := List.length_pos_iff.2 step.nonempty
          rw [List.length_append] at *
          omega
        obtain ⟨ts, s'', scans, empty, rfl⟩ := ih _ shorter scanned rfl
        rw [split]
        exact ⟨_, s'', .cons (by rwa [List.append_nil]) scans, empty, (List.append_assoc ..).symm⟩
  · rintro ⟨ts, s', h, empty, rfl⟩
    generalize hr : ([] : List Char) = rest at h
    induction h with
    | nil =>
      rw [scanFrom, ScanState.close, empty]
      rfl
    | cons step _ ih =>
      subst hr
      rw [List.append_assoc]
      have scanned := ih empty rfl
      rw [List.append_nil] at step
      exact step.scanFrom_ok scanned

end TypeNotation
