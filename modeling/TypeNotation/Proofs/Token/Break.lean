import TypeNotation.Proofs.Token.Cut

/-!
# A line break between two tokens

A line break that is put between two tokens of a text leaves all of them as they are, but for their
positions.  It may make one more token, and the state behind it then forgets that an operand has
ended.  That matters for what comes next only if it is a plus sign with a number behind it.
-/

namespace TypeNotation

open Text

/-! ## The order of positions -/

namespace Position

/-- A position comes before another. -/
def Before (p q : Position) : Prop :=
  p.line < q.line ∨ p.line = q.line ∧ p.column < q.column

lemma after_append (p : Position) (as bs : List Char) :
    p.after (as ++ bs) = (p.after as).after bs :=
  List.foldl_append

lemma after_singleton (p : Position) (c : Char) :
    p.after [c] = if c = '\n' then ⟨p.line + 1, 1⟩ else ⟨p.line, p.column + 1⟩ := rfl

lemma after_of_unbroken {cs : List Char} (h : '\n' ∉ cs) (p : Position) :
    p.after cs = ⟨p.line, p.column + cs.length⟩ := by
  induction cs generalizing p with
  | nil => rfl
  | cons c cs ih =>
    rw [List.mem_cons, not_or] at h
    rw [after, List.foldl_cons, if_neg (Ne.symm h.1)]
    refine (ih h.2 _).trans ?_
    rw [List.length_cons, Nat.add_right_comm, Nat.add_assoc]

lemma before_after (p : Position) {cs : List Char} (h : cs ≠ []) : p.Before (p.after cs) := by
  by_cases broken : '\n' ∈ cs
  · refine .inl ?_
    rw [line_after]
    have := List.count_pos_iff.2 broken
    omega
  · rw [after_of_unbroken broken]
    exact .inr ⟨rfl, Nat.lt_add_of_pos_right (List.length_pos_iff.2 h)⟩

lemma Before.trans {p q r : Position} (h : p.Before q) (h' : q.Before r) : p.Before r := by
  unfold Before at *
  omega

lemma Before.irrefl (p : Position) : ¬ p.Before p := by
  unfold Before
  omega

lemma not_after_before (p : Position) (cs : List Char) : ¬ (p.after cs).Before p := by
  cases cs with
  | nil => exact Before.irrefl p
  | cons c cs => exact fun h => Before.irrefl p ((p.before_after (List.cons_ne_nil c cs)).trans h)

/-- Where a position comes to if the line is broken at another one. -/
def broken (at_ p : Position) : Position :=
  if p.line < at_.line ∨ p.line = at_.line ∧ p.column < at_.column then p
  else if p.line = at_.line then ⟨p.line + 1, p.column + 1 - at_.column⟩
  else ⟨p.line + 1, p.column⟩

lemma broken_of_before {at_ p : Position} (h : p.Before at_) : broken at_ p = p :=
  if_pos h

lemma broken_after (p : Position) (cs : List Char) :
    broken p (p.after cs) = Position.after ⟨p.line + 1, 1⟩ cs := by
  induction cs using List.reverseRecOn with
  | nil =>
    rw [after, List.foldl_nil, broken, if_neg (by omega), if_pos rfl, Nat.add_sub_cancel_left]
    rfl
  | append_singleton cs c ih =>
    have here := not_after_before p cs
    rw [after_append, after_append, ← ih, after_singleton, after_singleton]
    generalize p.after cs = q at here
    unfold Before at here
    unfold broken
    by_cases hc : c = '\n'
    · rw [if_pos hc, if_pos hc, if_neg here]
      have below : ¬ (q.line + 1 < p.line ∨ q.line + 1 = p.line ∧ 1 < p.column) := by omega
      rw [if_neg below, if_neg (by dsimp only; omega)]
      split <;> rfl
    · rw [if_neg hc, if_neg hc, if_neg here]
      have right : ¬ (q.line < p.line ∨ q.line = p.line ∧ q.column + 1 < p.column) := by omega
      rw [if_neg right]
      dsimp only
      split
      · simp only [mk.injEq, true_and]
        omega
      · rfl

end Position

/-! ## Parts of what is scanned -/

namespace Scans

variable {s s' s'' : ScanState} {cs as bs ds rest : List Char} {ts us : List Token} {t : Token}

lemma cons_silent {l : Lexeme} (h : Step s cs (ds ++ rest) l s') (silent : s.token? l = none)
    (later : Scans s' ds rest ts s'') : Scans s (cs ++ ds) rest ts s'' := by
  have all := cons h later
  rwa [silent] at all

lemma cons_token {l : Lexeme} (h : Step s cs (ds ++ rest) l s') (made : s.token? l = some t)
    (later : Scans s' ds rest ts s'') : Scans s (cs ++ ds) rest (t :: ts) s'' := by
  have all := cons h later
  rwa [made] at all

lemma eq_nil (h : Scans s [] rest ts s') : ts = [] := by
  generalize hcs : ([] : List Char) = cs at h
  cases h with
  | nil => rfl
  | cons step _ => exact absurd (List.append_eq_nil_iff.1 hcs.symm).1 step.nonempty

/-- What is scanned ends with the first tokens, as they are made. -/
lemma split (h : Scans s cs rest (ts ++ us) s'') : ∃ as bs s', cs = as ++ bs ∧
    Scans s as (bs ++ rest) ts s' ∧ Scans s' bs rest us s'' := by
  generalize hall : ts ++ us = all at h
  induction h generalizing ts with
  | nil =>
    obtain ⟨rfl, rfl⟩ := List.append_eq_nil_iff.1 hall
    exact ⟨[], [], _, rfl, .nil, .nil⟩
  | @cons s s₁ s'' cs ds rest l more step later ih =>
    cases ts with
    | nil =>
      rw [List.nil_append] at hall
      subst hall
      exact ⟨[], _, s, rfl, .nil, .cons step later⟩
    | cons t ts =>
      cases made : s.token? l with
      | none =>
        rw [made, Option.toList_none, List.nil_append] at hall
        obtain ⟨as, bs, s', rfl, first, last⟩ := ih hall
        rw [List.append_assoc] at step
        exact ⟨cs ++ as, bs, s', (List.append_assoc ..).symm, .cons_silent step made first, last⟩
      | some t' =>
        rw [made, Option.toList_some, List.singleton_append, List.cons_append] at hall
        obtain ⟨rfl, htail⟩ := List.cons.inj hall
        obtain ⟨as, bs, s', rfl, first, last⟩ := ih htail
        rw [List.append_assoc] at step
        exact ⟨cs ++ as, bs, s', (List.append_assoc ..).symm, .cons_token step made first, last⟩

/-- Before the first token there are lexemes that make none. -/
lemma next (h : Scans s cs rest (t :: us) s'') : ∃ gap chars more l s₁ s₂,
    cs = gap ++ (chars ++ more) ∧ Scans s gap (chars ++ (more ++ rest)) [] s₁ ∧
      Step s₁ chars (more ++ rest) l s₂ ∧ s₁.token? l = some t ∧ Scans s₂ more rest us s'' := by
  generalize hall : t :: us = all at h
  induction h with
  | nil => cases hall
  | @cons s s₁ s'' cs ds rest l more step later ih =>
    cases made : s.token? l with
    | none =>
      rw [made, Option.toList_none, List.nil_append] at hall
      obtain ⟨gap, chars, more, l', s₂, s₃, rfl, silent, next, ht, last⟩ := ih hall
      rw [List.append_assoc, List.append_assoc] at step
      exact ⟨cs ++ gap, chars, more, l', s₂, s₃, (List.append_assoc ..).symm,
        .cons_silent step made silent, next, ht, last⟩
    | some t' =>
      rw [made, Option.toList_some, List.singleton_append] at hall
      obtain ⟨rfl, rfl⟩ := List.cons.inj hall
      exact ⟨[], cs, ds, l, s, s₁, rfl, .nil, step, made, later⟩

end Scans

/-- The characters of a lexeme that makes no token and is not just one character are a comment. -/
lemma Step.comment_of_silent {s s' : ScanState} {c d : Char} {cs ds rest : List Char} {l : Lexeme}
    (h : Step s (c :: (cs ++ d :: ds)) rest l s') (silent : s.token? l = none) :
    c = '/' ∧ '\n' ∉ cs ++ d :: ds := by
  have length := h.length
  have read := h.readFrom
  cases l with
  | comment n =>
    obtain ⟨slashes, size⟩ := read
    obtain ⟨rfl, -⟩ := List.cons_prefix_cons.1 slashes
    refine ⟨rfl, fun broken => ?_⟩
    have all : ('/' :: (cs ++ d :: ds) ++ rest).takeWhile (· ≠ '\n') = '/' :: (cs ++ d :: ds) :=
      (List.prefix_of_prefix_length_le (List.takeWhile_prefix _) (List.prefix_append _ _)
        (Nat.le_of_eq (size.symm.trans length))).eq_of_length (size.symm.trans length)
    have here := List.all_eq_true.1 List.all_takeWhile _ (all ▸ List.mem_cons_of_mem _ broken)
    exact absurd here (by decide)
  | lineBreak | blank => simp [Lexeme.length] at length
  | word | number | mark => simp [ScanState.token?, Lexeme.token?] at silent

namespace Scans

variable {s s' s'' : ScanState} {cs as bs ds rest : List Char} {ts us : List Token} {t : Token}

/-- Between tokens, a text can be cut anywhere but inside a comment. -/
lemma cut_silent (h : Scans s cs rest ts s'') (none : ts = []) (split : as ++ bs = cs)
    (clear : (∀ xs ys, as = xs ++ '/' :: ys → '\n' ∈ ys) ∨ ∀ c ∈ (bs ++ rest).head?, c = '\n') :
    ∃ s', Scans s as (bs ++ rest) [] s' ∧ Scans s' bs rest [] s'' := by
  induction h generalizing as with
  | nil =>
    obtain ⟨rfl, rfl⟩ := List.append_eq_nil_iff.1 split
    exact ⟨_, .nil, .nil⟩
  | @cons s s₁ s'' cs ds rest l more step later ih =>
    obtain ⟨made, rfl⟩ := List.append_eq_nil_iff.1 none
    have silent : s.token? l = Option.none := by simpa using made
    cases as with
    | nil =>
      subst split
      exact ⟨s, .nil, .cons_silent step silent later⟩
    | cons a as =>
      rcases List.append_eq_append_iff.1 split with ⟨es, rfl, rfl⟩ | ⟨es, front, rfl⟩
      · -- the cut is in the first lexeme or at its end
        cases es with
        | nil =>
          rw [List.append_nil] at step
          refine ⟨s₁, ?_, later⟩
          have one : Scans s (a :: as ++ []) (ds ++ rest) [] s₁ := cons_silent step silent .nil
          rwa [List.append_nil] at one
        | cons e es =>
          obtain ⟨rfl, line⟩ := step.comment_of_silent silent
          rcases clear with clear | clear
          · exact absurd (List.mem_append_left _ (clear [] as rfl)) line
          · obtain rfl := clear e rfl
            exact absurd (List.mem_append_right _ List.mem_cons_self) line
      · rw [List.append_assoc] at step
        rw [front] at clear ⊢
        obtain ⟨s', first, last⟩ := ih rfl rfl (clear.imp_left fun clear xs ys h => by
          refine clear (cs ++ xs) ys ?_
          rw [h, List.append_assoc])
        exact ⟨s', .cons_silent step silent first, last⟩

end Scans

/-! ## Up to the line break -/

namespace Lexeme

variable {p : Position} {afterOperand : Bool} {cs : List Char} {l : Lexeme}

lemma at_dot (h : at_ p afterOperand '.' cs = .ok l) : l = .mark .ellipsis := by
  have sign : signedNumberAt afterOperand '.' cs = false := by simp [signedNumberAt]
  rw [at_, if_neg (by decide), if_neg (by decide), if_neg (by simp), if_neg (by decide),
    if_neg (by decide), sign, if_neg Bool.false_ne_true] at h
  split at h
  · rename_i q found
    cases h
    have fits := List.find?_some found
    cases q <;> first | rfl | simp [Punctuation.chars] at fits
  · split at h <;> cases h

lemma at_plus (sign : signedNumberAt afterOperand '+' cs = false) :
    at_ p afterOperand '+' cs = .ok (.mark .plus) := by
  have mark : Punctuation.all.find? (·.chars.isPrefixOf ('+' :: cs)) = some .plus := by
    simp [Punctuation.all, Punctuation.chars, List.find?, List.isPrefixOf]
  rw [at_, if_neg (by decide), if_neg (by decide), if_neg (by simp), if_neg (by decide),
    if_neg (by decide), sign, mark]
  rfl

lemma begins_letter_i : Begins 'i' := by
  constructor <;> decide

end Lexeme

lemma Scans.whole {s s' : ScanState} {cs rest : List Char} {ts : List Token}
    (h : Scans s cs rest ts s') : Lexeme.Whole cs := by
  cases h with
  | nil => exact fun dot => nomatch dot
  | @cons s s₁ s' cs ds rest l ts step later =>
    obtain ⟨c, taken, rfl, at_⟩ := step.lexeme
    intro dot
    obtain rfl : c = '.' := Option.some.inj dot
    obtain rfl := Lexeme.at_dot at_
    have read : Punctuation.ellipsis.chars <+: '.' :: taken ++ (ds ++ rest) := step.readFrom
    have dots : Punctuation.ellipsis.chars = '.' :: taken :=
      (List.prefix_of_prefix_length_le read (List.prefix_append _ _)
        (Nat.le_of_eq step.length)).eq_of_length step.length
    rw [← dots]
    exact Lexeme.isPrefixOf_append (List.isPrefixOf_iff_prefix.2 (List.prefix_refl _)) ds

/-- The word for infinity makes one token, and no name goes on behind it. -/
lemma Scans.infinity {s s' : ScanState} {rest : List Char} {ts : List Token}
    (h : Scans s Lexeme.infinityChars rest ts s') :
    rest.head?.any Lexeme.continuesName = false ∧ ∃ w, ts = [w] := by
  generalize hall : Lexeme.infinityChars = all at h
  cases h with
  | nil => cases hall
  | @cons s s₁ s' cs ds rest l ts step later =>
    obtain ⟨c, taken, rfl, at_⟩ := step.lexeme
    obtain ⟨rfl, htaken⟩ : c = 'i' ∧ taken ++ ds = ['n', 'f', 'i', 'n', 'i', 't', 'y'] := by
      injection hall with hc ht
      exact ⟨hc.symm, ht.symm⟩
    rw [Lexeme.at_word Lexeme.begins_letter_i, ← List.append_assoc, htaken] at at_
    have name : Lexeme.nameRest (['n', 'f', 'i', 'n', 'i', 't', 'y'] ++ rest) =
        ['n', 'f', 'i', 'n', 'i', 't', 'y'] ++ Lexeme.nameRest rest := by
      have goesOn : ['n', 'f', 'i', 't', 'y'].all Lexeme.continuesName = true := by decide
      simp only [List.all_cons, List.all_nil, Bool.and_true, Bool.and_eq_true] at goesOn
      simp [Lexeme.nameRest, goesOn]
    cases at_
    have length := step.length
    have total := congrArg List.length htaken
    simp only [name, Lexeme.length, List.length_cons, List.length_append,
      List.length_nil] at length total
    have none : ds = [] := List.length_eq_zero_iff.1 (by omega)
    subst none
    refine ⟨?_, ?_⟩
    · cases rest with
      | nil => rfl
      | cons d rest =>
        by_contra goesOn
        rw [Bool.not_eq_false] at goesOn
        have goesOn : Lexeme.continuesName d = true := goesOn
        rw [Lexeme.nameRest, if_pos goesOn, List.length_cons] at length
        omega
    · rw [later.eq_nil]
      exact ⟨_, rfl⟩

/-- A lexeme is the same if what comes behind what is scanned is a line break. -/
lemma Step.cut {s s' : ScanState} {cs ds bs : List Char} {l : Lexeme}
    (h : Step s cs (ds ++ bs) l s') (whole : Lexeme.Whole ds)
    (infinite : l = .mark .plus → s.afterOperand = false → ds = Lexeme.infinityChars →
      bs.head?.any (fun c => Lexeme.continuesName c || c = '-') = false) (es : List Char) :
    Step s cs (ds ++ '\n' :: es) l s' := by
  obtain ⟨c, taken, rfl, at_⟩ := h.lexeme
  have length := h.length
  rw [List.length_cons] at length
  refine ⟨⟨c, taken, rfl, ?_⟩, h.length, h.noted⟩
  rw [← List.append_assoc] at at_ ⊢
  refine Lexeme.at_append (.inl rfl) (fun _ => .inl rfl) (Lexeme.at_of_fits at_ ?_ ?_ ?_)
  · rw [List.length_append]
    omega
  · rw [length, Nat.add_sub_cancel, List.drop_left]
    exact whole
  · rintro sign rfl fresh word
    rw [Lexeme.at_plus sign] at at_
    cases at_
    have one : 1 = taken.length + 1 := length
    obtain rfl : taken = [] := List.length_eq_zero_iff.1 (by omega)
    exact infinite rfl fresh word

/-- What is scanned is the same if a line break comes behind it, unless that is right behind a word
for infinity with a plus sign that does not come after an operand. -/
lemma Scans.cut {s s' : ScanState} {as bs : List Char} {ts : List Token}
    (h : Scans s as bs ts s')
    (infinite : bs.head? = some '-' → ∀ done before m p w,
      as = done ++ '+' :: Lexeme.infinityChars →
      ts = before ++ [p, w] → Scans s done ('+' :: Lexeme.infinityChars ++ bs) before m →
      m.afterOperand = true) (es : List Char) : Scans s as ('\n' :: es) ts s' := by
  induction h with
  | nil => exact .nil
  | @cons s s₁ s' cs ds rest l ts step later ih =>
    refine .cons (step.cut later.whole ?_ es)
      (ih fun hyphen done before m p w split made scans => ?_)
    · rintro rfl fresh rfl
      obtain ⟨ends, w, rfl⟩ := later.infinity
      have chars := step.text_of_token rfl
      obtain rfl : cs = ['+'] := chars.symm.trans (by decide : Punctuation.plus.text.toList = ['+'])
      cases rest with
      | nil => rfl
      | cons d rest =>
        have stops : Lexeme.continuesName d = false := ends
        by_cases hyphen : d = '-'
        · have after := infinite (congrArg some hyphen) [] [] s _ w rfl rfl .nil
          rw [fresh] at after
          cases after
        · simp [stops, hyphen]
    · refine infinite hyphen (cs ++ done) ((s.token? l).toList ++ before) m p w ?_ ?_ ?_
      · rw [split, List.append_assoc]
      · rw [made, List.append_assoc]
      · refine .cons ?_ scans
        rw [split, List.append_assoc] at step
        exact step

/-! ## Behind the line break -/

section Relocate

variable {f : Position → Position} {s s' : ScanState} {cs rest : List Char} {ts : List Token}
  {l : Lexeme}

lemma ScanState.token?_relocate (f : Position → Position) (s : ScanState) (l : Lexeme) :
    (s.relocate f).token? l = (s.token? l).map (.relocate f) := by
  rw [token?, breakCounts_relocate]
  exact Lexeme.token?_relocate ..

lemma Step.relocate (h : Step s cs rest l s')
    (moves : f (s.position.after cs) = (f s.position).after cs) :
    Step (s.relocate f) cs rest l (s'.relocate f) := by
  obtain ⟨c, taken, rfl, at_⟩ := h.lexeme
  obtain ⟨s₁, noted, rfl⟩ := h.noted
  refine ⟨⟨c, taken, rfl, Lexeme.at_elsewhere _ at_⟩, h.length, s₁.relocate f, ?_, ?_⟩
  · rw [ScanState.token?_relocate]
    exact ScanState.note_relocate noted
  · rw [ScanState.foldl_past, ScanState.foldl_past, ScanState.note_position noted,
      ScanState.relocate, moves]
    rw [ScanState.relocate, ← ScanState.note_position noted]

/-- The same is scanned at other positions, if these count lines and columns in the same way. -/
lemma Scans.relocate (h : Scans s cs rest ts s')
    (moves : ∀ as bs, cs = as ++ bs → f (s.position.after as) = (f s.position).after as) :
    Scans (s.relocate f) cs rest (ts.map (.relocate f)) (s'.relocate f) := by
  induction h with
  | nil => exact .nil
  | @cons s s₁ s' cs ds rest l ts step later ih =>
    have here := moves cs ds rfl
    have tokens : ((s.token? l).toList ++ ts).map (Token.relocate f) =
        ((s.relocate f).token? l).toList ++ ts.map (.relocate f) := by
      rw [ScanState.token?_relocate, List.map_append]
      cases s.token? l <;> rfl
    rw [tokens]
    refine .cons (step.relocate here) (ih fun as bs split => ?_)
    have all := moves (cs ++ as) bs (by rw [split, List.append_assoc])
    rwa [Position.after_append, Position.after_append, ← here, ← step.position] at all

end Relocate

/-- A state that does not know whether an operand has ended. -/
def ScanState.forget (s : ScanState) : ScanState :=
  { s with afterOperand := false }

section Forget

variable {s s' : ScanState} {cs rest : List Char} {ts : List Token} {l : Lexeme}

lemma Lexeme.at_forget {p : Position} {afterOperand : Bool} {c : Char}
    (h : at_ p afterOperand c cs = .ok l)
    (plus : l = .mark .plus → c = '+' → signedNumberAt false '+' cs = false) :
    at_ p false c cs = .ok l := by
  cases afterOperand with
  | false => exact h
  | true =>
    by_cases hc : c = '+'
    · subst hc
      rw [at_plus (by simp [signedNumberAt])] at h
      cases h
      exact at_plus (plus rfl rfl)
    · have same : signedNumberAt true c cs = signedNumberAt false c cs := by
        simp [signedNumberAt, hc]
      rw [at_, same, ← at_] at h
      exact h

/-- The next lexeme is the same where it is not known that an operand has ended; if it makes a
token, then the state behind it is the same as well. -/
lemma Step.forget (h : Step s cs rest l s')
    (plus : l = .mark .plus → cs = ['+'] → Lexeme.signedNumberAt false '+' rest = false) :
    Step s.forget cs rest l (if (s.token? l).isSome then s' else s'.forget) := by
  have length := h.length
  obtain ⟨c, taken, rfl, at_⟩ := h.lexeme
  obtain ⟨s₁, noted, rfl⟩ := h.noted
  refine ⟨⟨c, taken, rfl, Lexeme.at_forget at_ ?_⟩, h.length,
    if (s.token? l).isSome then s₁ else s₁.forget, ?_, ?_⟩
  · rintro rfl rfl
    have one : 1 = taken.length + 1 := length
    obtain rfl : taken = [] := List.length_eq_zero_iff.1 (by omega)
    exact plus rfl rfl
  · have token : s.forget.token? l = s.token? l := rfl
    rw [token]
    cases l with
    | mark p =>
      obtain ⟨brackets, stepped, noted⟩ := bind_eq_ok.1 noted
      cases noted
      exact bind_eq_ok.2 ⟨brackets, stepped, rfl⟩
    | _ =>
      cases noted
      cases s.token? _ <;> rfl
  · split <;> simp only [ScanState.foldl_past, ScanState.forget]

/-- The same is scanned where it is not known that an operand has ended, unless a plus sign comes
first that would start a number. -/
lemma Scans.forget (h : Scans s cs rest ts s')
    (plus : ∀ t ∈ ts.head?, t.kind = .mark .plus → ∀ done more, cs ++ rest = done ++ '+' :: more →
      s.position.after done = t.position → Lexeme.signedNumberAt false '+' more = false) :
    ∃ s'', Scans s.forget cs rest ts s'' ∧ s''.position = s'.position ∧
      s''.brackets = s'.brackets := by
  induction h with
  | nil => exact ⟨_, .nil, rfl, rfl⟩
  | @cons s s₁ s' cs ds rest l ts step later ih =>
    have token : s.forget.token? l = s.token? l := rfl
    have first := step.forget (fun mark chars => by
      subst mark chars
      refine plus _ rfl rfl [] (ds ++ rest) ?_ rfl
      rw [List.append_assoc]
      rfl)
    cases made : s.token? l with
    | some t =>
      rw [made, Option.isSome_some, if_pos rfl] at first
      exact ⟨s', .cons_token first (token.trans made) later, rfl, rfl⟩
    | none =>
      rw [made, Option.isSome_none, if_neg Bool.false_ne_true] at first
      rw [made, Option.toList_none, List.nil_append] at plus
      obtain ⟨s'', scans, position, brackets⟩ := ih fun t ht kind done more split here => by
        refine plus t ht kind (cs ++ done) more ?_ ?_
        · rw [List.append_assoc, split, List.append_assoc]
        · rw [Position.after_append, ← step.position, here]
      exact ⟨s'', .cons_silent first (token.trans made) scans, position, brackets⟩

end Forget

/-! ## The whole text -/

section Before

variable {s s' : ScanState} {cs rest : List Char} {ts : List Token} {l : Lexeme}

lemma Step.before (h : Step s cs rest l s') : s.position.Before s'.position :=
  h.position ▸ Position.before_after _ h.nonempty

lemma Step.brackets_before (h : Step s cs rest l s')
    (opened : ∀ b ∈ s.brackets, b.position.Before s.position) :
    ∀ b ∈ s'.brackets, b.position.Before s'.position := by
  intro b hb
  obtain ⟨s₁, noted, hs⟩ := h.noted
  have same : s'.brackets = s₁.brackets := by rw [hs, ScanState.foldl_past]
  rcases ScanState.mem_note noted b (same ▸ hb) with here | hb
  · exact here ▸ h.before
  · exact (opened b hb).trans h.before

/-- Open brackets are behind where scanning has come to, and so are the tokens. -/
lemma Scans.before (h : Scans s cs rest ts s')
    (opened : ∀ b ∈ s.brackets, b.position.Before s.position) :
    (∀ b ∈ s'.brackets, b.position.Before s'.position) ∧
      ∀ t ∈ ts, t.position.Before s'.position := by
  induction h with
  | nil => exact ⟨opened, by simp⟩
  | @cons s s₁ s' cs ds rest l ts step later ih =>
    obtain ⟨brackets, tokens⟩ := ih (step.brackets_before opened)
    refine ⟨brackets, List.forall_mem_append.2 ⟨fun t ht => ?_, tokens⟩⟩
    rw [Lexeme.position_of_token? (Option.mem_toList.1 ht), later.position,
      step.position, ← Position.after_append]
    exact Position.before_after _ (by simp [step.nonempty])

end Before

lemma step_lineBreak (s : ScanState) (rest : List Char) : Step s ['\n'] rest .lineBreak
    ⟨⟨s.position.line + 1, 1⟩, s.brackets, !s.breakCounts && s.afterOperand⟩ := by
  refine ⟨⟨'\n', [], rfl, rfl⟩, rfl, ⟨s.position, s.brackets, !s.breakCounts && s.afterOperand⟩, ?_,
    rfl⟩
  cases counts : s.breakCounts <;> simp [ScanState.token?, Lexeme.token?, counts] <;> rfl

/-- A line break between the lexemes of a text makes at most a token for itself, and moves what
comes behind it. -/
lemma scanFrom_break {as bs : List Char} {m e : ScanState} {ts us : List Token}
    (first : Scans .start as bs ts m) (last : Scans m bs [] us e) (closed : e.brackets = [])
    (infinite : bs.head? = some '-' → ∀ done before s p w,
      as = done ++ '+' :: Lexeme.infinityChars →
      ts = before ++ [p, w] → Scans .start done ('+' :: Lexeme.infinityChars ++ bs) before s →
      s.afterOperand = true)
    (plus : m.breakCounts = true → ∀ t ∈ us.head?, t.kind = .mark .plus →
      ∀ done more, bs = done ++ '+' :: more → m.position.after done = t.position →
      Lexeme.signedNumberAt false '+' more = false) :
    ∃ between : Option Token, (∀ b ∈ between, b.kind = .newline) ∧
      scanFrom (as ++ '\n' :: bs) 0 .start = .ok ((ts.map (.relocate (.broken m.position))) ++
        (between.toList ++ (us ++ closing e.position).map (.relocate (.broken m.position)))) := by
  let f := Position.broken m.position
  obtain ⟨opened, placed⟩ := first.before (by simp [ScanState.start])
  -- behind the break it may be forgotten that an operand has ended
  obtain ⟨e', later, position, brackets⟩ : ∃ e',
      Scans { m with afterOperand := !m.breakCounts && m.afterOperand } bs [] us e' ∧
        e'.position = e.position ∧ e'.brackets = e.brackets := by
    cases counts : m.breakCounts with
    | true => exact last.forget (by simpa using plus counts)
    | false => exact ⟨e, last, rfl, rfl⟩
  have moves (xs : List Char) : f (m.position.after xs) = (f m.position).after xs := by
    have here := Position.broken_after m.position []
    rw [Position.after, Position.after, List.foldl_nil, List.foldl_nil] at here
    exact (Position.broken_after m.position xs).trans (congrArg (Position.after · xs) here.symm)
  have moved := later.relocate (f := f) fun xs _ _ => moves xs
  have state :
      ({ m with afterOperand := !m.breakCounts && m.afterOperand } : ScanState).relocate f =
      ⟨⟨m.position.line + 1, 1⟩, m.brackets, !m.breakCounts && m.afterOperand⟩ := by
    have still : m.brackets.map (OpenBracket.relocate f) = m.brackets :=
      (List.map_congr_left fun b hb =>
        congrArg (fun p => { b with position := p })
          (Position.broken_of_before (opened b hb))).trans
          (List.map_id' _)
    have start : f m.position = ⟨m.position.line + 1, 1⟩ := Position.broken_after m.position []
    rw [ScanState.relocate, still, start]
  rw [state] at moved
  have head : Scans .start as (['\n'] ++ bs ++ []) ts m := by simpa using first.cut infinite bs
  have scans := head.append (.cons (step_lineBreak m (bs ++ [])) moved)
  have still : ts.map (.relocate f) = ts :=
    (List.map_congr_left fun t ht =>
      congrArg (fun p => { t with position := p }) (Position.broken_of_before (placed t ht))).trans
        (List.map_id' _)
  refine ⟨m.token? .lineBreak, fun b hb => ?_,
    scanFrom_eq_ok_iff.2 ⟨_, _, scans, ?_, ?_⟩⟩
  · rw [ScanState.token?, Lexeme.token?] at hb
    split at hb <;> cases hb
    rfl
  · rw [ScanState.relocate, brackets, closed, List.map_nil]
  · rw [still, ScanState.relocate, position, List.map_append, List.append_assoc, List.append_assoc]
    rfl

end TypeNotation
