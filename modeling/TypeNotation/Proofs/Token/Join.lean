import TypeNotation.Proofs.Token.Boundary

/-!
# The tokens of joined texts

Where two texts are joined by a line break or by a comma, the tokens of the second are those that it
has by itself, at other positions.  Between the two stands a token for what joins them, unless that
is a line break which ends no declaration.
-/

namespace TypeNotation

open Text

/-! ## Other positions -/

/-- A position in a text that starts so many lines further down, and whose first line starts so many
columns further to the right. -/
def Position.displace (lines columns : Nat) (p : Position) : Position :=
  ⟨p.line + lines, if p.line ≤ 1 then p.column + columns else p.column⟩

/-- A token at another position. -/
def Token.relocate (f : Position → Position) (t : Token) : Token :=
  { t with position := f t.position }

@[simp] lemma Token.kind_relocate (f : Position → Position) (t : Token) :
    (t.relocate f).kind = t.kind := rfl

@[simp] lemma Token.text_relocate (f : Position → Position) (t : Token) :
    (t.relocate f).text = t.text := rfl

@[simp] lemma Token.position_relocate (f : Position → Position) (t : Token) :
    (t.relocate f).position = f t.position := rfl

/-- An open bracket at another position. -/
def OpenBracket.relocate (f : Position → Position) (b : OpenBracket) : OpenBracket :=
  { b with position := f b.position }

namespace ScanState

/-- A state of scanning at other positions. -/
def relocate (f : Position → Position) (s : ScanState) : ScanState :=
  ⟨f s.position, s.brackets.map (OpenBracket.relocate f), s.afterOperand⟩

variable {f : Position → Position} {s s' : ScanState}

lemma breakCounts_relocate : (s.relocate f).breakCounts = s.breakCounts := by
  simp only [breakCounts, relocate, List.head?_map, Option.all_map]
  rfl

lemma past_displace {lines columns : Nat} (h : 1 ≤ s.position.line) (c : Char) :
    (s.relocate (.displace lines columns)).past c =
      (s.past c).relocate (.displace lines columns) := by
  simp only [past, relocate, mk.injEq, and_self, and_true, Position.displace]
  by_cases break_ : c = '\n'
  · have below : ¬ s.position.line + 1 ≤ 1 := by omega
    simp only [break_, if_true, below, if_false, Position.mk.injEq, and_true]
    omega
  · simp only [break_, if_false, Position.mk.injEq, true_and]
    split <;> omega

lemma step_relocate {brackets brackets' : List OpenBracket} {p : Position} {mark : Punctuation}
    (h : OpenBracket.step brackets p mark = .ok brackets') :
    OpenBracket.step (brackets.map (.relocate f)) (f p) mark =
      .ok (brackets'.map (.relocate f)) := by
  unfold OpenBracket.step at h ⊢
  split at h
  · cases h
    rfl
  · split at h
    · rename_i closes
      rw [if_pos closes]
      cases brackets with
      | nil => cases h
      | cons b outer =>
        dsimp only at h
        split at h
        · rename_i matches_
          cases h
          exact if_pos matches_
        · cases h
    · rename_i closes
      cases h
      rw [if_neg closes]

lemma note_relocate {lexeme : Lexeme} {token : Option Token} (h : s.note lexeme token = .ok s') :
    (s.relocate f).note lexeme (token.map (.relocate f)) = .ok (s'.relocate f) := by
  cases lexeme with
  | mark p =>
    obtain ⟨brackets, stepped, h⟩ := bind_eq_ok.1 h
    cases h
    refine bind_eq_ok.2 ⟨_, step_relocate stepped, ?_⟩
    cases token <;> rfl
  | _ =>
    cases h
    cases token <;> rfl

end ScanState

lemma Lexeme.token?_relocate (f : Position → Position) (p : Position) (breakCounts : Bool)
    (l : Lexeme) : l.token? (f p) breakCounts = (l.token? p breakCounts).map (.relocate f) := by
  cases l with
  | lineBreak => cases breakCounts <;> rfl
  | _ => rfl

/-- What a lexeme is does not depend on where it stands. -/
lemma Lexeme.at_elsewhere {p : Position} (p' : Position) {afterOperand : Bool} {c : Char}
    {cs : List Char} {l : Lexeme} (h : at_ p afterOperand c cs = .ok l) :
    at_ p' afterOperand c cs = .ok l := by
  have number {sign : Option Char} {cs : List Char} (h : numberAt p sign cs = .ok l) :
      numberAt p' sign cs = .ok l :=
    numberAt_eq_ok.2 (numberAt_eq_ok.1 h)
  unfold at_ at h ⊢
  by_cases break_ : c = '\n'
  · rw [if_pos break_] at h ⊢
    exact h
  rw [if_neg break_] at h ⊢
  by_cases blank : isBlank c = true
  · rw [if_pos blank] at h ⊢
    exact h
  rw [if_neg blank] at h ⊢
  by_cases comment : c = '/' ∧ cs.head? = some '/'
  · rw [if_pos comment] at h ⊢
    exact h
  rw [if_neg comment] at h ⊢
  by_cases name : startsName c = true
  · rw [if_pos name] at h ⊢
    exact h
  rw [if_neg name] at h ⊢
  by_cases digit : isDigit c = true
  · rw [if_pos digit] at h ⊢
    exact number h
  rw [if_neg digit] at h ⊢
  by_cases sign : signedNumberAt afterOperand c cs = true
  · rw [if_pos sign] at h ⊢
    exact number h
  rw [if_neg sign] at h ⊢
  split at h
  · exact h
  · split at h <;> cases h

/-- A text has the same tokens where it starts at another position. -/
lemma scanFrom_displace {lines columns : Nat} {cs : List Char} {skip : Nat} {s : ScanState}
    {tokens : List Token} (h : scanFrom cs skip s = .ok tokens) (line : 1 ≤ s.position.line) :
    scanFrom cs skip (s.relocate (.displace lines columns)) =
      .ok (tokens.map (.relocate (.displace lines columns))) := by
  have past {s : ScanState} (line : 1 ≤ s.position.line) (c : Char) :
      1 ≤ (s.past c).position.line := by
    simp only [ScanState.past]
    split
    · exact Nat.le_add_left 1 _
    · exact line
  induction cs generalizing skip s tokens with
  | nil =>
    rw [scanFrom] at h ⊢
    obtain ⟨empty, rfl⟩ := ScanState.close_eq_ok h
    simp only [ScanState.close, ScanState.relocate, empty, List.map_nil]
    rfl
  | cons c cs ih =>
    cases skip with
    | succ skip =>
      rw [scanFrom] at h ⊢
      rw [ScanState.past_displace line]
      exact ih h (past line c)
    | zero =>
      obtain ⟨lexeme, s', rest, at_, noted, scanned, rfl⟩ := scanFrom_cons_eq_ok.1 h
      have line' : 1 ≤ s'.position.line := ScanState.note_position noted ▸ line
      refine scanFrom_cons_eq_ok.2 ⟨lexeme, s'.relocate (.displace lines columns),
        rest.map (.relocate (.displace lines columns)), Lexeme.at_elsewhere _ at_, ?_, ?_, ?_⟩
      · rw [ScanState.breakCounts_relocate, ScanState.relocate, Lexeme.token?_relocate]
        exact ScanState.note_relocate noted
      · rw [ScanState.past_displace line']
        exact ih scanned (past line' c)
      · rw [ScanState.breakCounts_relocate, ScanState.relocate, Lexeme.token?_relocate]
        cases lexeme.token? s.position s.breakCounts <;> rfl

/-! ## Going on after a boundary -/

section Boundary

variable {e : ScanState} (empty : e.brackets = []) {cs : List Char} {all : List Token}
include empty

lemma scanFrom_lineBreak (h : scanFrom cs 0 .start = .ok all) :
    scanFrom ('\n' :: cs) 0 e = .ok (⟨.newline, "\n", e.position⟩ ::
      all.map (.relocate (.displace e.position.line 0))) := by
  have token : Lexeme.lineBreak.token? e.position e.breakCounts =
      some ⟨.newline, "\n", e.position⟩ := by
    simp [Lexeme.token?, ScanState.breakCounts, empty]
  have noted : e.note .lineBreak (some ⟨.newline, "\n", e.position⟩) =
      .ok ⟨e.position, [], false⟩ := by
    simp only [ScanState.note, empty]
    rfl
  have moved : ScanState.past ⟨e.position, [], false⟩ '\n' =
      ScanState.start.relocate (.displace e.position.line 0) := by
    simp [ScanState.past, ScanState.relocate, ScanState.start, Position.displace, Nat.add_comm]
  have rest : scanFrom cs 0 (ScanState.past ⟨e.position, [], false⟩ '\n') =
      .ok (all.map (.relocate (.displace e.position.line 0))) := by
    rw [moved]
    exact scanFrom_displace h (Nat.le_refl 1)
  exact scanFrom_cons_eq_ok.2 ⟨.lineBreak, _, _, rfl, token ▸ noted, rest, by rw [token]; rfl⟩

lemma scanFrom_comma (line : 1 ≤ e.position.line) (h : scanFrom cs 0 .start = .ok all) :
    scanFrom (',' :: cs) 0 e = .ok (⟨.mark .comma, ",", e.position⟩ ::
      all.map (.relocate (.displace (e.position.line - 1) e.position.column))) := by
  have lexeme : Lexeme.at_ e.position e.afterOperand ',' cs = .ok (.mark .comma) := by
    have sign : Lexeme.signedNumberAt e.afterOperand ',' cs = false := by
      simp [Lexeme.signedNumberAt]
    have mark : Punctuation.all.find? (·.chars.isPrefixOf (',' :: cs)) = some .comma := by
      simp [Punctuation.all, Punctuation.chars, List.find?, List.isPrefixOf]
    rw [Lexeme.at_, if_neg (by decide), if_neg (by decide), if_neg (by simp), if_neg (by decide),
      if_neg (by decide), sign, mark]
    rfl
  have noted : e.note (.mark .comma) (some ⟨.mark .comma, ",", e.position⟩) =
      .ok ⟨e.position, [], false⟩ := by
    rw [ScanState.note, empty]
    rfl
  have moved : ScanState.past ⟨e.position, [], false⟩ ',' =
      ScanState.start.relocate (.displace (e.position.line - 1) e.position.column) := by
    simp [ScanState.past, ScanState.relocate, ScanState.start, Position.displace, Nat.add_comm]
    omega
  refine scanFrom_cons_eq_ok.2 ⟨.mark .comma, _, _, lexeme, noted, ?_, rfl⟩
  rw [moved]
  exact scanFrom_displace h (Nat.le_refl 1)

end Boundary

/-! ## Line breaks that end no declaration -/

/-- The kind of the last token, or what it is if there is none. -/
def lastKind (previous : TokenKind) (ts : List Token) : TokenKind :=
  (ts.getLast?.map (·.kind)).getD previous

lemma lastKind_cons (previous : TokenKind) (t : Token) (ts : List Token) :
    lastKind previous (t :: ts) = lastKind t.kind ts := by
  cases ts <;> simp [lastKind, List.getLast?_cons]

section Continuations

variable {p q : TokenKind} {ts : List Token}

lemma dropContinuations_congr (h : p.continuesAfter = q.continuesAfter) :
    dropContinuations p ts = dropContinuations q ts := by
  induction ts with
  | nil => rfl
  | cons t ts ih =>
    rw [dropContinuations, dropContinuations, h, ih]

lemma dropContinuations_relocate (f : Position → Position) :
    dropContinuations p (ts.map (.relocate f)) = (dropContinuations p ts).map (.relocate f) := by
  induction ts generalizing p with
  | nil => rfl
  | cons t ts ih =>
    have next : (ts.map (Token.relocate f)).head?.any (·.kind.continuesBefore) =
        ts.head?.any (·.kind.continuesBefore) := by
      cases ts <;> rfl
    rw [List.map_cons, dropContinuations, dropContinuations, next, Token.kind_relocate]
    split
    · exact ih
    · rw [ih, List.map_cons]

/-- What is kept of the tokens before one that a line break may stand before. -/
lemma dropContinuations_append (p : TokenKind) (ts : List Token) :
    ∃ kept, (∀ t ∈ kept, t ∈ ts) ∧ (∀ t ∈ kept.getLast?, t.kind ≠ .newline) ∧
      (kept = [] → ∀ t ∈ ts, t.kind = .newline) ∧
      ∀ rest, rest.head?.any (·.kind.continuesBefore) →
        dropContinuations p (ts ++ rest) = kept ++ dropContinuations (lastKind p kept) rest := by
  induction ts generalizing p with
  | nil => exact ⟨[], by simp, by simp, by simp, fun rest _ => rfl⟩
  | cons t ts ih =>
    have next (rest : List Token) (h : rest.head?.any (·.kind.continuesBefore)) :
        (ts ++ rest).head?.any (·.kind.continuesBefore) =
          (ts.isEmpty || ts.head?.any (·.kind.continuesBefore)) := by
      cases ts
      · simpa using h
      · rfl
    by_cases dropped : t.kind = .newline ∧
        (p.continuesAfter ∨ (ts.isEmpty || ts.head?.any (·.kind.continuesBefore)))
    · obtain ⟨kept, among, last, none, onward⟩ := ih p
      refine ⟨kept, fun u hu => List.mem_cons_of_mem _ (among u hu), last,
        fun h u hu => ?_, fun rest h => ?_⟩
      · rcases List.mem_cons.1 hu with rfl | hu
        · exact dropped.1
        · exact none h u hu
      · rw [List.cons_append, dropContinuations, next rest h, if_pos dropped, onward rest h]
    · obtain ⟨kept, among, last, none, onward⟩ := ih t.kind
      refine ⟨t :: kept, ?_, ?_, by simp, fun rest h => ?_⟩
      · exact List.forall_mem_cons.2
          ⟨List.mem_cons_self, fun u hu => List.mem_cons_of_mem _ (among u hu)⟩
      · rw [List.getLast?_cons]
        intro u hu
        cases hlast : kept.getLast? with
        | some v =>
          rw [hlast] at hu last
          exact Option.mem_some.1 hu ▸ last v rfl
        | none =>
          -- A line break that is kept stands before a token which is kept as well.
          rw [hlast] at hu
          obtain rfl := Option.mem_some.1 hu
          intro newline
          have all := none (List.getLast?_eq_none_iff.1 hlast)
          refine dropped ⟨newline, .inr ?_⟩
          cases ts with
          | nil => rfl
          | cons v ts => simp [all v List.mem_cons_self, TokenKind.continuesBefore]
      · rw [List.cons_append, dropContinuations, next rest h, if_neg dropped, onward rest h,
          lastKind_cons, List.cons_append]

lemma dropContinuations_cons {b : Token} (newline : b.kind = .newline) (ts : List Token) :
    dropContinuations q (b :: ts) =
      if q.continuesAfter ∨ ts.head?.any (·.kind.continuesBefore) then dropContinuations q ts
      else b :: dropContinuations .newline ts := by
  simp [dropContinuations, newline]

/-- A line break is a token between what it joins, or it ends no declaration. -/
lemma dropContinuations_newline {b : Token} (newline : b.kind = .newline) (ts : List Token) :
    (∃ c : Token, c.kind = .newline ∧
      dropContinuations q (b :: ts) = c :: dropContinuations .newline ts) ∨
    (dropContinuations q (b :: ts) = dropContinuations .newline ts ∧
      (q.continuesAfter ∨
        (dropContinuations .newline ts).head?.any (·.kind.continuesBefore))) := by
  induction ts generalizing b with
  | nil =>
    rw [dropContinuations_cons newline]
    by_cases after : q.continuesAfter
    · rw [if_pos (.inl after)]
      exact .inr ⟨rfl, .inl after⟩
    · rw [if_neg (by simpa using after)]
      exact .inl ⟨b, newline, rfl⟩
  | cons t ts ih =>
    by_cases another : t.kind = .newline
    · have skipped : dropContinuations .newline (t :: ts) = dropContinuations .newline ts := by
        rw [dropContinuations, if_pos ⟨another, .inl rfl⟩]
      have before : (t :: ts).head?.any (·.kind.continuesBefore) := by
        rw [List.head?_cons, Option.any_some, another]
        rfl
      rw [dropContinuations_cons newline, if_pos (.inr before), skipped]
      exact ih another
    · have kept (q : TokenKind) :
          dropContinuations q (t :: ts) = t :: dropContinuations t.kind ts := by
        rw [dropContinuations, if_neg fun h => another h.1]
      rw [dropContinuations_cons newline, kept, kept, List.head?_cons, List.head?_cons,
        Option.any_some]
      by_cases dropped : q.continuesAfter ∨ t.kind.continuesBefore
      · rw [if_pos dropped]
        exact .inr ⟨rfl, dropped⟩
      · rw [if_neg dropped]
        exact .inl ⟨b, newline, rfl⟩

end Continuations

/-! ## The tokens of a whole text -/

lemma tokenize_eq_ok {text : String} {tokens : List Token} :
    tokenize text = .ok tokens ↔
      ∃ all, scanFrom text.toList 0 .start = .ok all ∧ dropContinuations .newline all = tokens := by
  rw [tokenize, scan]
  cases scanFrom text.toList 0 .start <;> simp [Except.map]

/-- What is kept of the tokens of a text where a boundary comes after it. -/
lemma tokenize_upTo {x : Char} (hx : IsBoundary x) {text : String} {tokens : List Token}
    (closed : ∀ as bs, text.toList = as ++ '/' :: '/' :: bs → x = '\n' ∨ '\n' ∈ bs)
    (h : tokenize text = .ok tokens) :
    ∃ kept e, tokens = kept ++ [⟨.finish, "", e.position⟩] ∧ (∀ t ∈ kept, t.kind ≠ .finish) ∧
      (∀ t ∈ kept.getLast?, t.kind ≠ .newline) ∧
      e.brackets = [] ∧ e.position.line = text.toList.count '\n' + 1 ∧
      ∀ more rest, scanFrom (x :: more.toList) 0 e = .ok rest →
        rest.head?.any (·.kind.continuesBefore) → tokenize (text ++ x.toString ++ more) =
          .ok (kept ++ dropContinuations (lastKind .newline kept) rest) := by
  obtain ⟨all, scanned, rfl⟩ := tokenize_eq_ok.1 h
  obtain ⟨before, e, rfl, unfinished, empty, position, onward⟩ :=
    scanFrom_append hx (Nat.zero_le _) closed scanned
  obtain ⟨kept, among, last, -, drop⟩ := dropContinuations_append .newline before
  refine ⟨kept, e, ?_, fun t ht => unfinished t (among t ht), last, empty, ?_,
    fun more rest hrest front => ?_⟩
  · rw [drop _ rfl]
    simp [closing, dropContinuations, TokenKind.continuesBefore]
  · rw [position, Position.line_after, Nat.add_comm]
    rfl
  · refine tokenize_eq_ok.2 ⟨before ++ rest, ?_, drop rest front⟩
    rw [← onward _ _ hrest]
    simp

/-- The tokens of a text end with the one for its end, and a line break does not come before it. -/
lemma tokenize_finish {text : String} {tokens : List Token} (h : tokenize text = .ok tokens) :
    ∃ before fin, tokens = before ++ [fin] ∧ fin.kind = .finish ∧
      (∀ t ∈ before, t.kind ≠ .finish) ∧ ∀ t ∈ before.getLast?, t.kind ≠ .newline := by
  obtain ⟨before, e, split, unfinished, last, -⟩ :=
    tokenize_upTo (x := '\n') (.inl rfl) (fun _ _ _ => .inl rfl) h
  exact ⟨before, _, split, rfl, unfinished, last⟩

/-- The tokens of two texts that a line break joins. -/
lemma tokenize_lineBreak {s t : String} {before after : List Token} {fin : Token}
    (hs : tokenize s = .ok (before ++ [fin])) (ht : tokenize t = .ok after) :
    ∃ between, tokenize (s ++ "\n" ++ t) = .ok (before ++ (between ++
        after.map (.relocate (.displace (s.toList.count '\n' + 1) 0)))) ∧
      ((∃ b : Token, b.kind = .newline ∧ between = [b]) ∨
        (between = [] ∧ ((lastKind .newline before).continuesAfter ∨
          after.head?.any (·.kind.continuesBefore)))) := by
  obtain ⟨kept, e, split, -, -, empty, line, onward⟩ :=
    tokenize_upTo (.inl rfl) (fun _ _ _ => .inl rfl) hs
  obtain ⟨rfl, -⟩ := List.append_inj' split rfl
  obtain ⟨all, scanned, rfl⟩ := tokenize_eq_ok.1 ht
  have joined := onward t _ (scanFrom_lineBreak empty scanned) rfl
  rw [line] at joined
  rcases dropContinuations_newline (q := lastKind .newline before)
    (b := ⟨.newline, "\n", e.position⟩) rfl
    (all.map (.relocate (.displace (s.toList.count '\n' + 1) 0))) with
    ⟨b, newline, kept⟩ | ⟨dropped, ends⟩
  · rw [kept, dropContinuations_relocate] at joined
    exact ⟨[b], joined, .inl ⟨b, newline, rfl⟩⟩
  · rw [dropped] at joined
    rw [dropContinuations_relocate] at joined ends
    refine ⟨[], joined, .inr ⟨rfl, ends.imp_right fun h => ?_⟩⟩
    rw [List.head?_map, Option.any_map] at h
    exact h

/-- The tokens of two texts that a comma joins. -/
lemma tokenize_comma {s t : String} {before after : List Token} {fin : Token}
    (closed : ∀ as bs, s.toList = as ++ '/' :: '/' :: bs → '\n' ∈ bs)
    (hs : tokenize s = .ok (before ++ [fin])) (ht : tokenize t = .ok after) :
    ∃ f, ∃ comma : Token, comma.kind = .mark .comma ∧
      tokenize (s ++ "," ++ t) = .ok (before ++ (comma :: after.map (.relocate f))) := by
  obtain ⟨kept, e, split, -, -, empty, line, onward⟩ :=
    tokenize_upTo (.inr rfl) (fun as bs h => .inr (closed as bs h)) hs
  obtain ⟨rfl, -⟩ := List.append_inj' split rfl
  obtain ⟨all, scanned, rfl⟩ := tokenize_eq_ok.1 ht
  have joined := onward t _ (scanFrom_comma empty (by omega) scanned) rfl
  rw [dropContinuations, if_neg (by simp)] at joined
  dsimp only at joined
  rw [dropContinuations_congr (p := .mark .comma) (q := .newline) rfl,
    dropContinuations_relocate] at joined
  exact ⟨_, _, rfl, joined⟩

end TypeNotation
