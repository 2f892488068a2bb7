import TypeNotation.Proofs.Token.Boundary

/-!
# Positions in a text

Scanning counts lines and columns as it passes over the characters.  So the position of every token,
and that of every error, is that of a character of the text or of the end of one of its lines.  The
one error that has no position says that there is a digit without a place value, and there is one.
-/

namespace TypeNotation

open Text

/-! ## The lines of a text -/

/-- A position in a text: on one of its lines, at a character or right behind the last. -/
def Position.In (text : List Char) (p : Position) : Prop :=
  1 ≤ p.line ∧ p.line ≤ text.count '\n' + 1 ∧
    ∃ line, (text.splitOn '\n')[p.line - 1]? = some line ∧
      1 ≤ p.column ∧ p.column ≤ line.length + 1

/-- Passing over characters from some column of a line, one comes to the column of a character or to
the end of a line. -/
lemma Position.column_after (as bs : List Char) (l k : Nat) (hk : 1 ≤ k) :
    ∃ line, ((as ++ bs).splitOn '\n')[as.count '\n']? = some line ∧
      1 ≤ (Position.after ⟨l, k⟩ as).column ∧ (Position.after ⟨l, k⟩ as).column ≤
        (if as.count '\n' = 0 then k - 1 else 0) + line.length + 1 := by
  induction as generalizing l k with
  | nil =>
    obtain ⟨line, lines, split⟩ := List.exists_cons_of_ne_nil (List.splitOn_ne_nil '\n' bs)
    refine ⟨line, by simp [split], hk, ?_⟩
    simp only [after, List.foldl_nil, List.count_nil, if_true]
    omega
  | cons c as ih =>
    have step : Position.after ⟨l, k⟩ (c :: as) =
        Position.after (if c = '\n' then ⟨l + 1, 1⟩ else ⟨l, k + 1⟩) as := rfl
    rw [List.cons_append, List.splitOn_cons_eq_if_modifyHead, step]
    by_cases break_ : c = '\n'
    · subst break_
      obtain ⟨line, split, low, high⟩ := ih (l + 1) 1 (Nat.le_refl 1)
      refine ⟨line, by simpa using split, low, ?_⟩
      rw [Nat.sub_self, ite_self] at high
      rw [List.count_cons_self, if_neg (Nat.succ_ne_zero _)]
      exact high
    · obtain ⟨line, split, low, high⟩ := ih l (k + 1) (by omega)
      rw [List.count_cons_of_ne break_, if_neg (by simpa using break_), if_neg break_]
      by_cases first : as.count '\n' = 0
      · rw [if_pos first] at high ⊢
        rw [first] at split ⊢
        refine ⟨c :: line, ?_, low, ?_⟩
        · rw [List.getElem?_modifyHead, if_pos rfl, split]
          rfl
        · rw [List.length_cons]
          omega
      · rw [if_neg first] at high ⊢
        refine ⟨line, ?_, low, high⟩
        rw [List.getElem?_modifyHead, if_neg first, split]

/-- Where scanning comes to in a text. -/
lemma Position.in_after (as bs : List Char) :
    Position.In (as ++ bs) (Position.after ⟨1, 1⟩ as) := by
  obtain ⟨line, split, low, high⟩ := Position.column_after as bs 1 1 (Nat.le_refl 1)
  rw [Position.In, Position.line_after, Nat.add_sub_cancel_left, List.count_append]
  dsimp only
  refine ⟨by omega, by omega, line, split, low, ?_⟩
  rwa [Nat.sub_self, ite_self, Nat.zero_add] at high

/-! ## Errors of scanning -/

/-- An error points into a text; if it has no position, then there is a digit without a place value
in the text. -/
def SyntaxError.PointsInto (text : List Char) (e : SyntaxError) : Prop :=
  match e.position? with
  | some p => p.In text
  | none => ∃ c ∈ text, isDigit c ∧ digitValue? c = none

namespace Lexeme

lemma exists_of_digitsValue?_eq_none {cs : List Char} (h : digitsValue? cs = none) :
    ∃ c ∈ cs, digitValue? c = none := by
  have folded (cs : List Char) (n : Nat)
      (h : cs.foldlM (fun n c => (digitValue? c).map (n * 10 + ·)) n = none) :
      ∃ c ∈ cs, digitValue? c = none := by
    induction cs generalizing n with
    | nil => cases h
    | cons c cs ih =>
      cases hc : digitValue? c with
      | none => exact ⟨c, List.mem_cons_self, hc⟩
      | some d =>
        rw [List.foldlM_cons, hc] at h
        obtain ⟨c', hmem, hc'⟩ := ih _ h
        exact ⟨c', List.mem_cons_of_mem _ hmem, hc'⟩
  exact folded cs 0 h

lemma exists_of_numberValue?_eq_none {negative : Bool} {whole : List Char}
    {fraction : Option (List Char)} (h : numberValue? negative whole fraction = none) :
    ∃ c ∈ whole ++ fraction.getD [], digitValue? c = none := by
  cases fraction with
  | none =>
    have none : digitsValue? whole = none := by
      cases value : digitsValue? whole with
      | none => rfl
      | some n => simp [numberValue?, value] at h
    simpa using exists_of_digitsValue?_eq_none none
  | some decimals => exact exists_of_digitsValue?_eq_none (Option.map_eq_none_iff.1 h)

/-- A number that is refused is refused where it starts, or for a digit in it. -/
lemma error_numberAt {p : Position} {sign : Option Char} {cs : List Char} {e : SyntaxError}
    (h : numberAt p sign cs = .error e) : e.position? = some p ∨
      (e.position? = none ∧ ∃ c ∈ cs, isDigit c ∧ digitValue? c = none) := by
  have first : cs.takeWhile isDigit ⊆ cs := (List.takeWhile_sublist _).subset
  have second : (cs.dropWhile isDigit).tail.takeWhile isDigit ⊆ cs :=
    ((List.takeWhile_sublist _).trans
      ((List.tail_sublist _).trans (List.dropWhile_sublist _))).subset
  have digits (ds : List Char) : ∀ c ∈ ds.takeWhile isDigit, isDigit c = true :=
    fun c hc => List.all_eq_true.1 List.all_takeWhile c hc
  have refused {runsOn : Bool} {e' : SyntaxError} {x : Except SyntaxError Lexeme}
      (h : (if runsOn = true then .error e' else x) = .error e) : e = e' ∨ x = .error e := by
    cases runsOn
    · exact .inr h
    · cases h
      exact .inl rfl
  unfold numberAt at h
  split at h
  · cases h
  by_cases pointed :
      ((cs.dropWhile isDigit).head? = some '.' && !ellipsisAt (cs.dropWhile isDigit)) = true
  · simp only [pointed, if_true, Bool.true_and] at h
    rcases refused h with rfl | h
    · exact .inl rfl
    rcases refused h with rfl | h
    · exact .inl rfl
    split at h
    · cases h
    · rename_i none
      cases h
      obtain ⟨c, hmem, hc⟩ := exists_of_numberValue?_eq_none none
      rcases List.mem_append.1 hmem with hmem | hmem
      · exact .inr ⟨rfl, c, first hmem, digits _ c hmem, hc⟩
      · exact .inr ⟨rfl, c, second hmem, digits _ c hmem, hc⟩
  · simp only [pointed, Bool.false_and, Bool.false_eq_true, if_false] at h
    rcases refused h with rfl | h
    · exact .inl rfl
    split at h
    · cases h
    · rename_i none
      cases h
      obtain ⟨c, hmem, hc⟩ := exists_of_numberValue?_eq_none none
      rw [Option.getD_none, List.append_nil] at hmem
      exact .inr ⟨rfl, c, first hmem, digits _ c hmem, hc⟩

/-- A lexeme that is refused is refused where it starts, or for a digit in it. -/
lemma error_at_ {p : Position} {afterOperand : Bool} {c : Char} {cs : List Char} {e : SyntaxError}
    (h : at_ p afterOperand c cs = .error e) : e.position? = some p ∨
      (e.position? = none ∧ ∃ d ∈ c :: cs, isDigit d ∧ digitValue? d = none) := by
  unfold at_ at h
  split at h
  · cases h
  split at h
  · cases h
  split at h
  · cases h
  split at h
  · cases h
  split at h
  · exact error_numberAt h
  split at h
  · rcases error_numberAt h with placed | ⟨none, d, hmem, hd⟩
    · exact .inl placed
    · exact .inr ⟨none, d, List.mem_cons_of_mem _ hmem, hd⟩
  split at h
  · cases h
  split at h <;> cases h <;> exact .inl rfl

end Lexeme

/-! ## Scanning -/

lemma OpenBracket.error_step {brackets : List OpenBracket} {p : Position} {mark : Punctuation}
    {e : SyntaxError} (h : step brackets p mark = .error e) : e.position? = some p := by
  unfold step at h
  split at h
  · cases h
  split at h
  · split at h
    · cases h
      rfl
    · split at h <;> cases h
      rfl
  · cases h

lemma OpenBracket.mem_step {brackets brackets' : List OpenBracket} {p : Position}
    {mark : Punctuation} (h : step brackets p mark = .ok brackets') :
    ∀ b ∈ brackets', b.position = p ∨ b ∈ brackets := by
  unfold step at h
  split at h
  · cases h
    intro b hb
    rcases List.mem_cons.1 hb with rfl | hb
    · exact .inl rfl
    · exact .inr hb
  split at h
  · split at h
    · cases h
    · split at h
      · cases h
        exact fun b hb => .inr (List.mem_cons_of_mem _ hb)
      · cases h
  · cases h
    exact fun b hb => .inr hb

namespace ScanState

variable {s s' : ScanState} {lexeme : Lexeme} {token : Option Token}

lemma error_note {e : SyntaxError} (h : s.note lexeme token = .error e) :
    e.position? = some s.position := by
  cases lexeme with
  | mark p =>
    rcases bind_eq_error.1 h with h | ⟨brackets, -, h⟩
    · exact OpenBracket.error_step h
    · cases h
  | _ => cases h

lemma mem_note (h : s.note lexeme token = .ok s') :
    ∀ b ∈ s'.brackets, b.position = s.position ∨ b ∈ s.brackets := by
  cases lexeme with
  | mark p =>
    obtain ⟨brackets, hstep, h⟩ := bind_eq_ok.1 h
    cases h
    exact OpenBracket.mem_step hstep
  | _ =>
    cases h
    exact fun b hb => .inr hb

end ScanState

lemma Lexeme.position_of_token? {lexeme : Lexeme} {p : Position} {breakCounts : Bool} {t : Token}
    (h : lexeme.token? p breakCounts = some t) : t.position = p := by
  cases lexeme with
  | lineBreak =>
    rw [token?] at h
    split at h <;> cases h
    rfl
  | blank | comment => cases h
  | word | number | mark =>
    cases h
    rfl

lemma SyntaxError.PointsInto.of_position {text : List Char} {e : SyntaxError} {p : Position}
    (h : e.position? = some p) (placed : p.In text) : e.PointsInto text := by
  rw [PointsInto, h]
  exact placed

/-- Tokens that are scanned in a text stand in it, and errors point into it. -/
lemma scanFrom_points {text : List Char} (pre cs : List Char) (skip : Nat) (s : ScanState)
    (split : text = pre ++ cs) (here : s.position = Position.after ⟨1, 1⟩ pre)
    (opened : ∀ b ∈ s.brackets, b.position.In text) :
    (∀ tokens, scanFrom cs skip s = .ok tokens → ∀ t ∈ tokens, t.position.In text) ∧
      ∀ e, scanFrom cs skip s = .error e → e.PointsInto text := by
  have placed : s.position.In text := here ▸ split ▸ Position.in_after pre cs
  induction cs generalizing pre skip s with
  | nil =>
    constructor
    · intro tokens h t ht
      obtain ⟨-, rfl⟩ := ScanState.close_eq_ok h
      simp only [closing, List.mem_cons, List.not_mem_nil, or_false] at ht
      rcases ht with rfl | rfl <;> exact placed
    · intro e h
      rw [scanFrom, ScanState.close] at h
      split at h
      · cases h
      · rename_i b outer brackets
        cases h
        exact .of_position rfl (opened b (by simp [brackets]))
  | cons c cs ih =>
    have next : text = (pre ++ [c]) ++ cs := by rw [split, List.append_assoc]; rfl
    have past {s' : ScanState} (position : s'.position = s.position) :
        (s'.past c).position = Position.after ⟨1, 1⟩ (pre ++ [c]) := by
      have step : Position.after ⟨1, 1⟩ (pre ++ [c]) =
          Position.after (Position.after ⟨1, 1⟩ pre) [c] := List.foldl_append
      rw [step, ← here, ← position]
      rfl
    cases skip with
    | succ skip =>
      exact ih _ skip _ next (past rfl) opened (past rfl ▸ next ▸ Position.in_after _ cs)
    | zero =>
      have continued {lexeme : Lexeme} {s' : ScanState} {token : Option Token}
          (noted : s.note lexeme token = .ok s') :=
        ih _ (lexeme.length - 1) (s'.past c) next (past (ScanState.note_position noted))
          (fun b hb => by
            rcases ScanState.mem_note noted b hb with position | hb
            · exact position ▸ placed
            · exact opened b hb)
          (past (ScanState.note_position noted) ▸ next ▸ Position.in_after _ cs)
      constructor
      · intro tokens h t ht
        obtain ⟨lexeme, s', rest, -, noted, scanned, rfl⟩ := scanFrom_cons_eq_ok.1 h
        rcases List.mem_append.1 ht with ht | ht
        · rw [Lexeme.position_of_token? (Option.mem_toList.1 ht)]
          exact placed
        · exact (continued noted).1 rest scanned t ht
      · intro e h
        rw [scanFrom] at h
        rcases bind_eq_error.1 h with h | ⟨lexeme, -, h⟩
        · rcases Lexeme.error_at_ h with position | ⟨none, d, hmem, hd⟩
          · exact .of_position position placed
          · rw [SyntaxError.PointsInto, none]
            exact ⟨d, split ▸ List.mem_append_right pre hmem, hd⟩
        · rcases bind_eq_error.1 h with h | ⟨s', noted, h⟩
          · exact .of_position (ScanState.error_note h) placed
          · rcases bind_eq_error.1 h with h | ⟨rest, -, h⟩
            · exact (continued noted).2 e h
            · cases h

lemma dropContinuations_sublist (p : TokenKind) (ts : List Token) :
    (dropContinuations p ts).Sublist ts := by
  induction ts generalizing p with
  | nil => exact List.Sublist.slnil
  | cons t ts ih =>
    rw [dropContinuations]
    split
    · exact (ih p).cons t
    · exact (ih t.kind).cons_cons t

/-- The tokens of a text stand in it, and what is refused is refused where it stands. -/
lemma tokenize_points (text : String) :
    (∀ tokens, tokenize text = .ok tokens → ∀ t ∈ tokens, t.position.In text.toList) ∧
      ∀ e, tokenize text = .error e → e.PointsInto text.toList := by
  have scanned := scanFrom_points [] text.toList 0 .start rfl rfl (by simp [ScanState.start])
  rw [tokenize, scan]
  cases hscan : scanFrom text.toList 0 .start with
  | error e =>
    refine ⟨nofun, fun e' h => ?_⟩
    cases h
    exact scanned.2 e hscan
  | ok all =>
    refine ⟨fun tokens h t ht => ?_, nofun⟩
    cases h
    exact scanned.1 all hscan t ((dropContinuations_sublist .newline all).subset ht)

/-- Every text ends with the tokens for a line break and for its end, so that a line break always
has a token after it. -/
lemma scan_closing {text : String} {all : List Token} (h : scan text = .ok all) :
    ∃ before p, all = before ++ closing p ∧ ∀ t ∈ before, t.kind ≠ .finish := by
  obtain ⟨before, e, split, unfinished, -⟩ :=
    scanFrom_append (x := '\n') (.inl rfl) (Nat.zero_le _) (fun _ _ _ => .inl rfl) h
  exact ⟨before, e.position, split, unfinished⟩

end TypeNotation
