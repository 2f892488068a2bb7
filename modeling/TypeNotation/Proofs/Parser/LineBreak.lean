import TypeNotation.Proofs.Parser.Concatenation
import TypeNotation.Proofs.Token.Break
import TypeNotation.Proofs.Token.Extent

/-!
# Line breaks next to an operator

A line break directly before or after a binary operator ends no declaration: the declarations of a
text stay the same when it is put there.  The scanner however forgets at a line break that an
operand has ended, and takes a plus sign behind it for the sign of a number.
-/

namespace TypeNotation

open Text

/-! ## Where a line can be broken -/

/-- The marks that stand between operands. -/
def binaryOperators : List Punctuation :=
  [.arrow, .implies, .delegates, .bar, .plus, .backslash, .caret, .ellipsis]

/-- A token is a binary operator. -/
def Token.IsOperator (t : Token) : Prop :=
  ∃ p ∈ binaryOperators, t.kind = .mark p

lemma Token.IsOperator.continues {t : Token} (h : t.IsOperator) :
    t.kind.continuesAfter = true ∧ t.kind.continuesBefore = true ∧ t.kind ≠ .newline ∧
      t.kind ≠ .finish := by
  obtain ⟨p, hp, kind⟩ := h
  rw [kind]
  simp only [binaryOperators, List.mem_cons, List.not_mem_nil, or_false] at hp
  rcases hp with rfl | rfl | rfl | rfl | rfl | rfl | rfl | rfl <;> exact ⟨rfl, rfl, nofun, nofun⟩

/-- Where scanning comes to at the end of a text. -/
def endOf (text : String) : Position :=
  Position.after ⟨1, 1⟩ text.toList

/-- A text is cut between two tokens on one line, and not in a comment. -/
structure CutBetween (before after : String) (u v : Token) : Prop where
  sameLine : u.position.line = (endOf before).line ∧ v.position.line = (endOf before).line
  behind : u.position.column + u.text.length ≤ (endOf before).column
  ahead : (endOf before).column ≤ v.position.column
  clear : '/' ∉ lastLine before ∨ ∀ c ∈ after.toList.head?, c = '\n'

/-! ## The tokens on both sides -/

lemma mem_of_not_mem_lastLine {text : String} (h : '/' ∉ lastLine text) {as bs : List Char}
    (split : text.toList = as ++ '/' :: bs) : '\n' ∈ bs := by
  by_contra unbroken
  have onLine : ∀ c ∈ ('/' :: bs).reverse, decide (c ≠ '\n') = true := by
    intro c hc
    rw [List.mem_reverse, List.mem_cons] at hc
    rcases hc with rfl | hc
    · rfl
    · exact decide_eq_true fun e => unbroken (e ▸ hc)
  refine h ?_
  rw [lastLine, List.rtakeWhile, split, List.reverse_append, List.takeWhile_append_of_pos onLine]
  simp

/-- Two tokens that are followed by others and by those which close the text. -/
lemma exists_of_append_closing {ts pre post : List Token} {u v : Token} {p : Position}
    (h : pre ++ u :: v :: post = ts ++ closing p)
    (inside : ¬ (u.kind = .newline ∧ v.kind = .finish)) :
    ∃ us, ts = pre ++ u :: us ∧ v :: post = us ++ closing p := by
  rcases List.append_eq_append_iff.1 h with ⟨us, rfl, all⟩ | ⟨us, rfl, all⟩
  · cases us with
    | nil =>
      cases all
      exact absurd ⟨rfl, rfl⟩ inside
    | cons t us =>
      obtain ⟨rfl, tail⟩ := List.cons.inj all
      exact ⟨us, rfl, tail⟩
  · -- the first of the two would have to be one of those that close the text
    cases us with
    | nil =>
      cases all
      exact absurd ⟨rfl, rfl⟩ inside
    | cons t us =>
      rw [closing, List.cons_append] at all
      have tail := (List.cons.inj all).2
      cases us with
      | nil => cases tail
      | cons t' us =>
        have short := congrArg List.length (List.cons.inj tail).2
        simp at short

/-- Between two tokens that come one after the other, scanning makes no token. -/
lemma exists_scans_of_adjacent {text : String} {u v : Token} {pre post : List Token}
    (scanned : scan text = .ok (pre ++ u :: v :: post))
    (inside : ¬ (u.kind = .newline ∧ v.kind = .finish)) :
    ∃ done gap tail s s' us e, text.toList = done ++ (gap ++ tail) ∧
      Scans .start done (gap ++ tail) (pre ++ [u]) s ∧ Scans s gap tail [] s' ∧
      Scans s' tail [] us e ∧ e.brackets = [] ∧ v :: post = us ++ closing e.position ∧
      s.position = u.position.after u.text.toList ∧ s'.position = v.position := by
  obtain ⟨ts, e, scans, empty, all⟩ := scanFrom_eq_ok_iff.1 scanned
  obtain ⟨us, rfl, hus⟩ := exists_of_append_closing all inside
  obtain ⟨as, bs, s₀, split, first, second⟩ := scans.split
  obtain ⟨gap, chars, more, l, s₁, s, rfl, silent, step, made, later⟩ := second.next
  -- the second token may be the first of those that close the text
  obtain ⟨gap', tail, s', rfl, silent', here, rest⟩ : ∃ gap' tail s', more = gap' ++ tail ∧
      Scans s gap' (tail ++ []) [] s' ∧ s'.position = v.position ∧ Scans s' tail [] us e := by
    cases us with
    | nil =>
      refine ⟨more, [], e, (List.append_nil _).symm, later, ?_, .nil⟩
      rw [(List.cons.inj hus).1]
    | cons t us =>
      obtain ⟨gap', chars', more', l', s', s₄, rfl, silent', step', made', last⟩ := later.next
      refine ⟨gap', chars' ++ more', s', rfl, by simpa using silent', ?_,
        .cons_token step' made' last⟩
      rw [(List.cons.inj hus).1]
      exact (Lexeme.position_of_token? made').symm
  rw [List.append_nil] at step silent silent'
  rw [List.append_nil, ← List.append_assoc gap chars] at first
  have one : Scans s₁ (chars ++ []) (gap' ++ tail) [u] s := .cons_token step made .nil
  rw [List.append_nil] at one
  refine ⟨as ++ (gap ++ chars), gap', tail, s, s', us, e, ?_, first.append (silent.append one),
    silent', rest, empty, hus, ?_, here⟩
  · rw [split]
    simp only [List.append_assoc]
  · rw [step.position, step.text_of_token made, Lexeme.position_of_token? made]

/-- A place that is neither before nor behind a piece of a text is in it. -/
lemma exists_split_of_place {before after done gap tail : List Char} {p : Position}
    (split : before ++ after = done ++ (gap ++ tail))
    (low : ¬ (p.after before).Before (p.after done))
    (high : ¬ (p.after (done ++ gap)).Before (p.after before)) :
    ∃ d d', before = done ++ d ∧ gap = d ++ d' ∧ after = d' ++ tail := by
  obtain ⟨d, rfl, hd⟩ : ∃ d, before = done ++ d ∧ gap ++ tail = d ++ after := by
    rcases List.append_eq_append_iff.1 split with ⟨d, rfl, hd⟩ | ⟨d, h, hd⟩
    · cases d with
      | nil => exact ⟨[], by simp, hd.symm⟩
      | cons x d =>
        rw [Position.after_append] at low
        exact absurd (Position.before_after _ (List.cons_ne_nil x d)) low
    · exact ⟨d, h, hd⟩
  refine ⟨d, ?_⟩
  rcases List.append_eq_append_iff.1 hd with ⟨x, rfl, hx⟩ | ⟨x, h, hx⟩
  · cases x with
    | nil => exact ⟨[], rfl, by simp, hx.symm⟩
    | cons y x =>
      have behind := Position.before_after (p.after (done ++ gap)) (List.cons_ne_nil y x)
      rw [← Position.after_append, List.append_assoc] at behind
      exact absurd behind high
  · exact ⟨x, rfl, h, hx⟩

/-- Where a text is cut between two tokens, scanning can be cut. -/
lemma exists_scans_of_cut {before after : String} {u v : Token} {pre post : List Token}
    (scanned : scan (before ++ after) = .ok (pre ++ u :: v :: post))
    (inside : ¬ (u.kind = .newline ∧ v.kind = .finish)) (cut : CutBetween before after u v) :
    ∃ m us e, Scans .start before.toList after.toList (pre ++ [u]) m ∧
      Scans m after.toList [] us e ∧ e.brackets = [] ∧ v :: post = us ++ closing e.position := by
  obtain ⟨done, gap, tail, s, s', us, e, split, first, silent, rest, empty, hus, hs, hs'⟩ :=
    exists_scans_of_adjacent scanned inside
  have here : s'.position = Position.after ⟨1, 1⟩ (done ++ gap) := by
    rw [silent.position, first.position, Position.after_append]
    rfl
  rw [String.toList_append] at split
  have low : ¬ (endOf before).Before s.position := by
    by_cases broken : '\n' ∈ u.text.toList
    · -- then the second token would be on a later line
      have below := congrArg Position.line (silent.position.symm.trans hs')
      rw [hs, Position.line_after, Position.line_after, cut.sameLine.1, cut.sameLine.2] at below
      have := List.count_pos_iff.2 broken
      omega
    · rw [hs, Position.after_of_unbroken broken, Position.Before, String.length_toList]
      have := cut.sameLine.1
      have := cut.behind
      dsimp only
      omega
  have high : ¬ s'.position.Before (endOf before) := by
    rw [hs', Position.Before]
    have := cut.sameLine.2
    have := cut.ahead
    omega
  rw [first.position] at low
  rw [here] at high
  obtain ⟨d, d', hbefore, rfl, hafter⟩ := exists_split_of_place split low high
  have clear : (∀ xs ys, d = xs ++ '/' :: ys → '\n' ∈ ys) ∨
      ∀ c ∈ (d' ++ tail).head?, c = '\n' := by
    rw [← hafter]
    refine cut.clear.imp_left fun slashless xs ys h => ?_
    have line : before.toList = done ++ xs ++ '/' :: ys := by
      rw [hbefore, h, List.append_assoc]
    exact mem_of_not_mem_lastLine slashless line
  obtain ⟨m, left, right⟩ := silent.cut_silent rfl rfl clear
  refine ⟨m, us, e, ?_, ?_, empty, hus⟩
  · rw [List.append_assoc] at first
    have all := first.append left
    rwa [List.append_nil, ← hbefore, ← hafter] at all
  · rw [hafter]
    rw [← List.append_nil tail] at right
    exact right.append rest

/-! ## The tokens that are left -/

/-- A line break next to an operator is dropped, and what is dropped besides stays the same. -/
lemma dropContinuations_break {q : TokenKind} {pre post : List Token} {u b v : Token}
    (newline : b.kind = .newline) (operator : u.IsOperator ∨ v.IsOperator) :
    dropContinuations q (pre ++ u :: b :: v :: post) =
      dropContinuations q (pre ++ u :: v :: post) := by
  induction pre generalizing q with
  | nil =>
    rw [List.nil_append, List.nil_append]
    rcases operator with operator | operator
    · obtain ⟨after, -, unbroken, -⟩ := operator.continues
      have keeps (ts : List Token) :
          dropContinuations q (u :: ts) = u :: dropContinuations u.kind ts := by
        rw [dropContinuations, if_neg fun h => unbroken h.1]
      rw [keeps, keeps, dropContinuations_cons newline, if_pos (.inl after)]
    · obtain ⟨-, before, -⟩ := operator.continues
      have dropped (q : TokenKind) :
          dropContinuations q (b :: v :: post) = dropContinuations q (v :: post) := by
        rw [dropContinuations_cons newline, if_pos (.inr before)]
      have first (t : Token) (ts : List Token) (ht : t.kind.continuesBefore = true) :
          dropContinuations q (u :: t :: ts) =
            if u.kind = .newline then dropContinuations q (t :: ts)
            else u :: dropContinuations u.kind (t :: ts) := by
        rw [dropContinuations]
        simp [ht]
      rw [first b _ (by rw [newline]; rfl), first v _ before, dropped, dropped]
  | cons t pre ih =>
    have next : (pre ++ u :: b :: v :: post).head? = (pre ++ u :: v :: post).head? := by
      cases pre <;> rfl
    rw [List.cons_append, List.cons_append, dropContinuations, dropContinuations, next, ih, ih]

lemma Token.IsOperator.relocate {t : Token} (h : t.IsOperator) (f : Position → Position) :
    (t.relocate f).IsOperator := h

/-- The line break does not make a plus sign the sign of a number: not the next one behind it, as a
line break that is a token lets the operand before it be forgotten, and not one with the word for
infinity right before it, which an arrow told from the name for a number. -/
structure KeepsSigns (before after : String) (pre : List Token) (u v : Token) : Prop where
  next : v.kind = .mark .plus →
    (∃ o, Innermost (brackets (pre ++ [u])) o ∧
      o.kind ∈ [.mark .parenOpen, .mark .bracketOpen, .mark .tupleOpen]) ∨
    ∀ done more, after.toList = done ++ '+' :: more → (endOf before).after done = v.position →
      Lexeme.signedNumberAt false '+' more = false
  previous : '+' :: Lexeme.infinityChars <:+ before.toList → after.toList.head? = some '-' →
    (lastKind .newline pre.dropLast).endsOperand = true

/-- A line break directly inside parentheses, a list or a tuple is no token. -/
lemma breakCounts_of_innermost {s : ScanState} {ts : List Token} {o : Token}
    (stack : OpenBracket.through [] ts = .ok s.brackets) (ho : Innermost (brackets ts) o)
    (kind : o.kind ∈ [.mark .parenOpen, .mark .bracketOpen, .mark .tupleOpen]) :
    s.breakCounts = false := by
  rw [← OpenBracket.through_brackets] at stack
  obtain ⟨b, outer, open_, hb, -⟩ := (LeavesOpen.of_through
    (fun t ht => (List.mem_filter.1 ht).2) stack).isOf_of_innermost ho
  rw [hb] at kind
  rw [ScanState.breakCounts, open_]
  cases opener : b.opener <;> simp_all

section KeepsSigns

variable {before after : String} {u v : Token} {pre : List Token} {s : ScanState}
  (kept : KeepsSigns before after pre u v)
include kept

lemma KeepsSigns.afterOperand (hyphen : after.toList.head? = some '-') {done rest : List Char}
    {ts : List Token} {p w : Token} (split : before.toList = done ++ '+' :: Lexeme.infinityChars)
    (made : pre ++ [u] = ts ++ [p, w]) (scans : Scans .start done rest ts s) :
    s.afterOperand = true := by
  obtain ⟨rfl, -⟩ : pre = ts ++ [p] ∧ [u] = [w] := by
    refine List.append_inj' ?_ rfl
    rw [made, List.append_assoc]
    rfl
  have ended := kept.previous ⟨done, split.symm⟩ hyphen
  rw [List.dropLast_concat] at ended
  have start : ScanState.start.afterOperand = TokenKind.newline.endsOperand := rfl
  rw [scans.afterOperand start, ended]

lemma KeepsSigns.unsigned (scans : Scans .start before.toList after.toList (pre ++ [u]) s)
    (counts : s.breakCounts = true) (kind : v.kind = .mark .plus) {done more : List Char}
    (split : after.toList = done ++ '+' :: more) (place : s.position.after done = v.position) :
    Lexeme.signedNumberAt false '+' more = false := by
  rcases kept.next kind with ⟨o, ho, among⟩ | unsigned
  · rw [breakCounts_of_innermost scans.through ho among] at counts
    cases counts
  · rw [scans.position] at place
    exact unsigned done more split place

end KeepsSigns

/-- The tokens of a text in which a line is broken next to an operator. -/
lemma tokenize_break {before after : String} {u v : Token} {pre post tokens : List Token}
    (scanned : scan (before ++ after) = .ok (pre ++ u :: v :: post))
    (tokenized : tokenize (before ++ after) = .ok tokens)
    (operator : u.IsOperator ∨ v.IsOperator) (cut : CutBetween before after u v)
    (kept : KeepsSigns before after pre u v) :
    ∃ f, tokenize (before ++ "\n" ++ after) = .ok (tokens.map (.relocate f)) := by
  obtain ⟨all, hall, rfl⟩ := tokenize_eq_ok.1 tokenized
  obtain rfl := Except.ok.inj (hall.symm.trans scanned)
  have inside : ¬ (u.kind = .newline ∧ v.kind = .finish) := fun h => by
    rcases operator with operator | operator
    · exact operator.continues.2.2.1 h.1
    · exact operator.continues.2.2.2 h.2
  obtain ⟨m, us, e, first, last, empty, hus⟩ := exists_scans_of_cut scanned inside cut
  have head : ∀ t ∈ us.head?, v = t := by
    cases us with
    | nil => simp
    | cons t us => simpa using (List.cons.inj hus).1
  obtain ⟨between, newline, broken⟩ := scanFrom_break first last empty
    (fun hyphen _ _ _ _ _ split made scans => kept.afterOperand hyphen split made scans)
    (fun counts t ht kind _ _ split place => by
      obtain rfl := head t ht
      exact kept.unsigned first counts kind split place)
  generalize Position.broken m.position = f at broken
  have joined : (before ++ "\n" ++ after).toList = before.toList ++ '\n' :: after.toList := by
    simp
  rw [← joined, ← hus] at broken
  refine ⟨f, tokenize_eq_ok.2 ⟨_, broken, ?_⟩⟩
  rw [← dropContinuations_relocate]
  cases between with
  | none => simp
  | some b =>
    have dropped : dropContinuations .newline (pre.map (.relocate f) ++
        u.relocate f :: b :: v.relocate f :: post.map (.relocate f)) = _ :=
      dropContinuations_break (newline b rfl) (operator.imp (·.relocate f) (·.relocate f))
    simpa using dropped

/-- A line break between two tokens of which one is a binary operator leaves the declarations of a
text equal, where plus signs stay what they are. -/
theorem parse_break {before after : String} {ds : List Declaration} {u v : Token}
    {pre post : List Token} (parsed : parse (before ++ after) = .ok ds)
    (scanned : scan (before ++ after) = .ok (pre ++ u :: v :: post))
    (operator : u.IsOperator ∨ v.IsOperator) (cut : CutBetween before after u v)
    (kept : KeepsSigns before after pre u v) :
    ∃ ds', parse (before ++ "\n" ++ after) = .ok ds' ∧
      List.Forall₂ (fun d e => d.same e) ds' ds := by
  obtain ⟨tokens, r, tokenized, hds⟩ := parse_eq_ok.1 parsed
  obtain ⟨f, broken⟩ := tokenize_break scanned tokenized operator cut kept
  obtain ⟨ts, fin, rfl, hfin, unfinished, -⟩ := tokenize_finish tokenized
  obtain ⟨r', read⟩ := Parser.declarationsFrom_relocate f hfin unfinished hds
    (Nat.le_refl _) [] (ts ++ [fin]).length (by simp)
  refine ⟨ds.map (.relocate f), parse_eq_ok.2 ⟨_, r', broken, ?_⟩, ?_⟩
  · rw [Parser.answer_declarations, List.length_map]
    exact read
  · rw [List.forall₂_map_left_iff, List.forall₂_same]
    exact fun d _ => d.same_relocate f

theorem parse_break_sum : ∃ ds ds', parse ("a: b " ++ "+ 1") = .ok ds ∧
    parse ("a: b " ++ "\n" ++ "+ 1") = .ok ds' ∧ List.Forall₂ (fun d e => d.same e) ds' ds := by
  have parsed : parse ("a: b " ++ "+ 1") = .ok [⟨"a", [], .union (.written (some ⟨1, 4⟩))
      (.reference (.written (some ⟨1, 4⟩)) "b" []) (.number (.literal (some ⟨1, 8⟩) (.int 1))),
      some ⟨1, 1⟩⟩] := by
    cbv
  have scanned : scan ("a: b " ++ "+ 1") = .ok
      ([⟨.name, "a", ⟨1, 1⟩⟩, ⟨.mark .colon, ":", ⟨1, 2⟩⟩] ++
      ⟨.name, "b", ⟨1, 4⟩⟩ :: ⟨.mark .plus, "+", ⟨1, 6⟩⟩ ::
        ⟨.number (.int 1), "1", ⟨1, 8⟩⟩ :: closing ⟨1, 9⟩) := by
    cbv
  have place : endOf "a: b " = ⟨1, 6⟩ := by cbv
  have chars : "+ 1".toList = ['+', ' ', '1'] := by cbv
  have line : lastLine "a: b " = ['a', ':', ' ', 'b', ' '] := by cbv
  obtain ⟨ds', broken, same⟩ := parse_break parsed scanned
    (.inr ⟨.plus, by decide, rfl⟩)
    ⟨by rw [place]; exact ⟨rfl, rfl⟩, by rw [place]; decide, by rw [place],
      by rw [line]; decide⟩
    ⟨fun _ => .inr fun done more split _ => by
      rw [chars] at split
      obtain rfl : done = [] := by
        cases done with
        | nil => rfl
        | cons c done =>
          have later : '+' ∈ [' ', '1'] := by
            rw [(List.cons.inj split).2]
            simp
          exact absurd later (by decide)
      rw [← (List.cons.inj split).2]
      decide, fun _ hyphen => by rw [chars] at hyphen; cases hyphen⟩
  exact ⟨_, ds', parsed, broken, same⟩

/-- A plus sign right before a number is taken for its sign where a line break comes before it. -/
theorem not_parse_break_sum : ∃ ds pre post u v, parse ("a: b " ++ "+1") = .ok ds ∧
    scan ("a: b " ++ "+1") = .ok (pre ++ u :: v :: post) ∧ v.IsOperator ∧
    CutBetween "a: b " "+1" u v ∧ ∀ ds', parse ("a: b " ++ "\n" ++ "+1") ≠ .ok ds' := by
  have parsed : parse ("a: b " ++ "+1") = .ok [⟨"a", [], .union (.written (some ⟨1, 4⟩))
      (.reference (.written (some ⟨1, 4⟩)) "b" []) (.number (.literal (some ⟨1, 7⟩) (.int 1))),
      some ⟨1, 1⟩⟩] := by
    cbv
  have scanned : scan ("a: b " ++ "+1") = .ok
      ([⟨.name, "a", ⟨1, 1⟩⟩, ⟨.mark .colon, ":", ⟨1, 2⟩⟩] ++
      ⟨.name, "b", ⟨1, 4⟩⟩ :: ⟨.mark .plus, "+", ⟨1, 6⟩⟩ ::
        ⟨.number (.int 1), "1", ⟨1, 7⟩⟩ :: closing ⟨1, 8⟩) := by
    cbv
  have place : endOf "a: b " = ⟨1, 6⟩ := by cbv
  have line : lastLine "a: b " = ['a', ':', ' ', 'b', ' '] := by cbv
  have refused : parse ("a: b " ++ "\n" ++ "+1") =
      .error (.unexpected ⟨2, 1⟩ "a type name" "'+1'") := by
    cbv
  refine ⟨_, _, _, _, _, parsed, scanned, ⟨.plus, by decide, rfl⟩,
    ⟨by rw [place]; exact ⟨rfl, rfl⟩, by rw [place]; decide, by rw [place],
      by rw [line]; decide⟩, fun ds' h => ?_⟩
  cases refused.symm.trans h

end TypeNotation
