import TypeNotation.Token.Scan
import TypeNotation.Proofs.Answer

/-!
# Scanning a text up to a boundary

A line break or a comma ends every lexeme before it, except that a comma may stand in a comment.  So
what is scanned before it does not depend on what comes after it.
-/

namespace TypeNotation

open Text

/-- A character that goes on no lexeme but a comment. -/
def IsBoundary (x : Char) : Prop :=
  x = '\n' ∨ x = ','

namespace IsBoundary

variable {x : Char} (h : IsBoundary x)
include h

lemma not_startsName : Lexeme.startsName x = false := by
  rcases h with rfl | rfl <;> decide

lemma not_continuesName : Lexeme.continuesName x = false := by
  rcases h with rfl | rfl <;> decide

lemma not_isDigit : isDigit x = false := by
  rcases h with rfl | rfl <;> decide

lemma ne {c : Char} (hc : c ≠ '\n' ∧ c ≠ ',') : x ≠ c := by
  rcases h with rfl | rfl
  · exact hc.1.symm
  · exact hc.2.symm

end IsBoundary

/-! ## Lists of characters -/

section Lists

variable {α : Type} {x : α} {xs ys : List α} {P : α → Bool}

lemma takeWhile_append_cons (hx : P x = false) (xs ys : List α) :
    (xs ++ x :: ys).takeWhile P = xs.takeWhile P := by
  induction xs with
  | nil => simp [hx]
  | cons a xs ih =>
    rw [List.cons_append, List.takeWhile_cons, List.takeWhile_cons, ih]

lemma dropWhile_append_cons (hx : P x = false) (xs ys : List α) :
    (xs ++ x :: ys).dropWhile P = xs.dropWhile P ++ x :: ys := by
  induction xs with
  | nil => simp [hx]
  | cons a xs ih =>
    rw [List.cons_append, List.dropWhile_cons, List.dropWhile_cons, ih]
    split <;> rfl

lemma any_head?_append_cons (hx : P x = false) (xs ys : List α) :
    (xs ++ x :: ys).head?.any P = xs.head?.any P := by
  cases xs <;> simp [hx]

lemma isPrefixOf_append_cons [BEq α] [LawfulBEq α] {ps : List α} (hx : x ∉ ps) (xs ys : List α) :
    ps.isPrefixOf (xs ++ x :: ys) = ps.isPrefixOf xs := by
  induction ps generalizing xs with
  | nil => simp
  | cons p ps ih =>
    rw [List.mem_cons, not_or] at hx
    cases xs with
    | nil => simp [List.isPrefixOf, Ne.symm hx.1]
    | cons a xs => simp [List.isPrefixOf, ih hx.2]

end Lists

/-! ## Lexemes before a boundary -/

namespace Lexeme

variable {x : Char} (hx : IsBoundary x) {position : Position} {afterOperand : Bool}
include hx

lemma nameRest_append (cs ts : List Char) : nameRest (cs ++ x :: ts) = nameRest cs := by
  induction cs with
  | nil => simp [nameRest, hx.not_continuesName, hx.ne (c := '-') (by decide)]
  | cons c cs ih =>
    rw [List.cons_append, nameRest, nameRest, ih, any_head?_append_cons hx.not_startsName]

omit hx in
lemma length_nameRest_le (cs : List Char) : (nameRest cs).length ≤ cs.length := by
  induction cs with
  | nil => exact Nat.le_refl _
  | cons c cs ih =>
    rw [nameRest]
    split
    · exact Nat.succ_le_succ ih
    · split
      · exact Nat.succ_le_succ ih
      · exact Nat.zero_le _

lemma infinityAt_append (cs ts : List Char) : infinityAt (cs ++ x :: ts) = infinityAt cs := by
  have none : x ∉ infinityChars := by
    rcases hx with rfl | rfl <;> decide
  rw [infinityAt, infinityAt, isPrefixOf_append_cons none]
  cases infinite : infinityChars.isPrefixOf cs with
  | false => rfl
  | true =>
    have long : 8 ≤ cs.length := (List.isPrefixOf_iff_prefix.1 infinite).length_le
    rw [List.drop_append_of_le_length long, any_head?_append_cons]
    simp [hx.not_continuesName, hx.ne (c := '-') (by decide)]

lemma ellipsisAt_append (cs ts : List Char) : ellipsisAt (cs ++ x :: ts) = ellipsisAt cs := by
  refine isPrefixOf_append_cons ?_ cs ts
  rcases hx with rfl | rfl <;> decide

lemma signedNumberAt_append (c : Char) (cs ts : List Char) :
    signedNumberAt afterOperand c (cs ++ x :: ts) = signedNumberAt afterOperand c cs := by
  rw [signedNumberAt, signedNumberAt, infinityAt_append hx, any_head?_append_cons hx.not_isDigit]

lemma head?_append_eq {c : Char} (hc : c ≠ '\n' ∧ c ≠ ',') (cs ts : List Char) :
    (cs ++ x :: ts).head? = some c ↔ cs.head? = some c := by
  cases cs <;> simp [hx.ne hc]

/-! ### Numbers -/

/-- The digits after the point, for a number that has one. -/
def decimals? (cs : List Char) : Option (List Char) :=
  let after := cs.dropWhile isDigit
  if after.head? = some '.' && !ellipsisAt after then some (after.tail.takeWhile isDigit) else none

/-- The characters of a number without its sign. -/
def literalAt (cs : List Char) : List Char :=
  cs.takeWhile isDigit ++ ((decimals? cs).map ('.' :: ·)).getD []

/-- Whether a number runs into something else. -/
def runsOnAt (cs : List Char) : Bool :=
  cs.head?.any fun c => startsName c || (c = '.' && !ellipsisAt cs)

omit hx in
/-- What makes a number out of digits. -/
lemma numberAt_eq_ok {sign : Option Char} {cs : List Char} {l : Lexeme} :
    numberAt position sign cs = .ok l ↔
      if sign.isSome && infinityAt cs then
        .number (sign.toList ++ infinityChars)
          (.double (if decide (sign = some '-') then -Double.infinity else Double.infinity)) = l
      else decimals? cs ≠ some [] ∧ runsOnAt (cs.drop (literalAt cs).length) = false ∧
        ∃ y, numberValue? (decide (sign = some '-')) (cs.takeWhile isDigit)
          (decimals? cs) = some y ∧
          .number (sign.toList ++ literalAt cs) y = l := by
  unfold numberAt
  split
  · simp
  · have settled {runsOn : Bool} {e : SyntaxError} {x : Except SyntaxError Lexeme} {P : Prop}
        (h : x = .ok l ↔ P) :
        (if runsOn = true then (.error e : Except SyntaxError Lexeme) else x) = .ok l ↔
          runsOn = false ∧ P := by
      cases runsOn <;> simp [h]
    by_cases pointed :
        ((cs.dropWhile isDigit).head? = some '.' && !ellipsisAt (cs.dropWhile isDigit)) = true
    · simp only [pointed, if_true, Bool.true_and, decimals?, literalAt, Option.map_some,
        Option.getD_some, ne_eq, Option.some.injEq]
      by_cases empty : (cs.dropWhile isDigit).tail.takeWhile isDigit = []
      · simp [empty]
      · simp only [List.isEmpty_iff, empty, if_false, not_false_eq_true, true_and]
        refine settled ?_
        cases numberValue? (decide (sign = some '-')) (cs.takeWhile isDigit) _ <;> simp
    · simp only [pointed, Bool.false_eq_true, if_false, Bool.false_and, decimals?, literalAt,
        Option.map_none, Option.getD_none, ne_eq, reduceCtorEq, not_false_eq_true, true_and]
      refine settled ?_
      cases numberValue? (decide (sign = some '-')) (cs.takeWhile isDigit) none <;> simp

lemma decimals?_append (cs ts : List Char) : decimals? (cs ++ x :: ts) = decimals? cs := by
  have pointed (as : List Char) : ((as ++ x :: ts).head? = some '.') ↔ as.head? = some '.' :=
    head?_append_eq hx (by decide) as ts
  simp only [decimals?, dropWhile_append_cons hx.not_isDigit, pointed, ellipsisAt_append hx]
  split
  · rename_i h
    cases as : cs.dropWhile isDigit with
    | nil => simp [as] at h
    | cons a as =>
      simp only [List.cons_append, List.tail_cons, takeWhile_append_cons hx.not_isDigit]
  · rfl

lemma literalAt_append (cs ts : List Char) : literalAt (cs ++ x :: ts) = literalAt cs := by
  simp only [literalAt, takeWhile_append_cons hx.not_isDigit, decimals?_append hx]

omit hx in
lemma length_literalAt_le (cs : List Char) : (literalAt cs).length ≤ cs.length := by
  have whole := List.takeWhile_append_dropWhile (p := isDigit) (l := cs)
  have total := congrArg List.length whole
  rw [List.length_append] at total
  rw [literalAt, List.length_append]
  unfold decimals?
  dsimp only
  split
  · rename_i h
    cases as : cs.dropWhile isDigit with
    | nil => simp [as] at h
    | cons a as' =>
      have := (List.takeWhile_prefix (p := isDigit) (l := as')).length_le
      simp [as] at total ⊢
      omega
  · simp
    omega

lemma runsOnAt_append (cs ts : List Char) : runsOnAt (cs ++ x :: ts) = runsOnAt cs := by
  simp only [runsOnAt, ellipsisAt_append hx]
  refine any_head?_append_cons ?_ cs ts
  simp [hx.not_startsName, hx.ne (c := '.') (by decide)]

lemma numberAt_append {sign : Option Char} {cs ts : List Char} {l : Lexeme}
    (h : numberAt position sign cs = .ok l) : numberAt position sign (cs ++ x :: ts) = .ok l := by
  rw [numberAt_eq_ok] at h ⊢
  rw [infinityAt_append hx, decimals?_append hx, literalAt_append hx,
    List.drop_append_of_le_length (length_literalAt_le cs), runsOnAt_append hx,
    takeWhile_append_cons hx.not_isDigit]
  exact h

omit hx in
lemma length_numberAt_le {sign : Option Char} {cs : List Char} {l : Lexeme}
    (h : numberAt position sign cs = .ok l) : l.length ≤ sign.toList.length + cs.length := by
  rw [numberAt_eq_ok] at h
  split at h
  · rename_i infinite
    rw [Bool.and_eq_true, infinityAt, Bool.and_eq_true] at infinite
    have := (List.isPrefixOf_iff_prefix.1 infinite.2.1).length_le
    subst h
    simpa [length] using this
  · obtain ⟨-, -, y, -, rfl⟩ := h
    simpa [length] using length_literalAt_le cs

/-! ### Any lexeme -/

lemma isPrefixOf_mark_append (p : Punctuation) (c : Char) (cs ts : List Char) :
    p.chars.isPrefixOf (c :: (cs ++ x :: ts)) = p.chars.isPrefixOf (c :: cs) := by
  obtain ⟨first, rest, chars, outside⟩ : ∃ first rest, p.chars = first :: rest ∧ x ∉ rest := by
    rcases hx with rfl | rfl <;> cases p <;> exact ⟨_, _, rfl, by decide⟩
  rw [chars, List.isPrefixOf_cons_cons, List.isPrefixOf_cons_cons, isPrefixOf_append_cons outside]

/-- A lexeme before a boundary is the same, whatever comes after it; only a comment must be ended by
a line break. -/
lemma at_append {c : Char} {cs ts : List Char} {l : Lexeme}
    (closed : c = '/' ∧ cs.head? = some '/' → x = '\n' ∨ '\n' ∈ cs)
    (h : at_ position afterOperand c cs = .ok l) :
    at_ position afterOperand c (cs ++ x :: ts) = .ok l := by
  have slash : (cs ++ x :: ts).head? = some '/' ↔ cs.head? = some '/' :=
    head?_append_eq hx (by decide) cs ts
  simp only [at_, slash, nameRest_append hx, signedNumberAt_append hx,
    isPrefixOf_mark_append hx] at h ⊢
  by_cases break_ : c = '\n'
  · rw [if_pos break_] at h ⊢
    exact h
  rw [if_neg break_] at h ⊢
  by_cases blank : isBlank c = true
  · rw [if_pos blank] at h ⊢
    exact h
  rw [if_neg blank] at h ⊢
  by_cases comment : c = '/' ∧ cs.head? = some '/'
  · have line : (cs ++ x :: ts).takeWhile (· ≠ '\n') = cs.takeWhile (· ≠ '\n') := by
      rcases closed comment with rfl | ends
      · exact takeWhile_append_cons (by decide) cs ts
      · obtain ⟨as, bs, rfl⟩ := List.append_of_mem ends
        rw [List.append_assoc, List.cons_append, takeWhile_append_cons (by decide),
          takeWhile_append_cons (by decide)]
    rw [if_pos comment] at h ⊢
    rw [line]
    exact h
  rw [if_neg comment] at h ⊢
  by_cases name : startsName c = true
  · rw [if_pos name] at h ⊢
    exact h
  rw [if_neg name] at h ⊢
  by_cases digit : isDigit c = true
  · rw [if_pos digit] at h ⊢
    exact numberAt_append hx h
  rw [if_neg digit] at h ⊢
  by_cases sign : signedNumberAt afterOperand c cs = true
  · rw [if_pos sign] at h ⊢
    exact numberAt_append hx h
  rw [if_neg sign] at h ⊢
  exact h

omit hx in
lemma length_at_le {c : Char} {cs : List Char} {l : Lexeme}
    (h : at_ position afterOperand c cs = .ok l) : l.length ≤ cs.length + 1 := by
  unfold at_ at h
  split at h
  · cases h
    exact Nat.le_add_left _ _
  split at h
  · cases h
    exact Nat.le_add_left _ _
  split at h
  · cases h
    have := (List.takeWhile_prefix (p := fun x => decide (x ≠ '\n')) (l := cs)).length_le
    simp only [length]
    omega
  split at h
  · cases h
    exact Nat.succ_le_succ (length_nameRest_le cs)
  split at h
  · simpa [Nat.add_comm] using length_numberAt_le h
  split at h
  · simpa [Nat.add_comm] using length_numberAt_le h
  split at h
  · rename_i p found
    cases h
    have fits : p.chars <+: c :: cs := by simpa using List.find?_some found
    exact fits.length_le
  · split at h <;> cases h

omit hx in
lemma kind_ne_finish {l : Lexeme} {breakCounts : Bool} {t : Token}
    (h : t ∈ l.token? position breakCounts) : t.kind ≠ .finish := by
  cases l with
  | lineBreak =>
    cases breakCounts with
    | false => cases h
    | true =>
      cases h
      simp
  | blank | comment => cases h
  | word cs =>
    cases h
    dsimp only [wordKind]
    split
    · simp
    split <;> simp
  | number | mark =>
    cases h
    simp

end Lexeme

/-! ## Scanning -/

/-- The tokens that close every text. -/
def closing (p : Position) : List Token :=
  [⟨.newline, "", p⟩, ⟨.finish, "", p⟩]

namespace ScanState

lemma note_position {s s' : ScanState} {lexeme : Lexeme} {token : Option Token}
    (h : s.note lexeme token = .ok s') : s'.position = s.position := by
  cases lexeme with
  | mark p =>
    obtain ⟨brackets, -, h⟩ := bind_eq_ok.1 h
    cases h
    rfl
  | _ =>
    cases h
    rfl

lemma close_eq_ok {s : ScanState} {tokens : List Token} (h : s.close = .ok tokens) :
    s.brackets = [] ∧ tokens = closing s.position := by
  unfold close at h
  split at h
  · rename_i empty
    cases h
    exact ⟨empty, rfl⟩
  · cases h

end ScanState

lemma scanFrom_cons_eq_ok {c : Char} {cs : List Char} {s : ScanState} {tokens : List Token} :
    scanFrom (c :: cs) 0 s = .ok tokens ↔ ∃ lexeme s' rest,
      Lexeme.at_ s.position s.afterOperand c cs = .ok lexeme ∧
      s.note lexeme (lexeme.token? s.position s.breakCounts) = .ok s' ∧
      scanFrom cs (lexeme.length - 1) (s'.past c) = .ok rest ∧
      tokens = (lexeme.token? s.position s.breakCounts).toList ++ rest := by
  rw [scanFrom]
  constructor
  · intro h
    obtain ⟨lexeme, at_, h⟩ := bind_eq_ok.1 h
    obtain ⟨s', noted, h⟩ := bind_eq_ok.1 h
    obtain ⟨rest, scanned, h⟩ := bind_eq_ok.1 h
    cases h
    exact ⟨lexeme, s', rest, at_, noted, scanned, rfl⟩
  · rintro ⟨lexeme, s', rest, at_, noted, scanned, rfl⟩
    exact bind_eq_ok.2 ⟨lexeme, at_, bind_eq_ok.2 ⟨s', noted, bind_eq_ok.2 ⟨rest, scanned, rfl⟩⟩⟩

/-- Where a position comes to by passing over characters. -/
def Position.after (p : Position) (cs : List Char) : Position :=
  cs.foldl (fun p c => if c = '\n' then ⟨p.line + 1, 1⟩ else ⟨p.line, p.column + 1⟩) p

lemma Position.line_after (p : Position) (cs : List Char) :
    (p.after cs).line = p.line + cs.count '\n' := by
  induction cs generalizing p with
  | nil => rfl
  | cons c cs ih =>
    rw [after, List.foldl_cons]
    refine (ih _).trans ?_
    by_cases h : c = '\n'
    · subst h
      simp
      omega
    · simp [h]

/-- The tokens of a text are scanned up to a boundary after it whatever comes then, unless the
boundary would stand in a comment. -/
lemma scanFrom_append {x : Char} (hx : IsBoundary x) {cs : List Char} {skip : Nat}
    {s : ScanState} {tokens : List Token} (fits : skip ≤ cs.length)
    (closed : ∀ as bs, cs = as ++ '/' :: '/' :: bs → x = '\n' ∨ '\n' ∈ bs)
    (h : scanFrom cs skip s = .ok tokens) :
    ∃ before e, tokens = before ++ closing e.position ∧ (∀ t ∈ before, t.kind ≠ .finish) ∧
      e.brackets = [] ∧ e.position = s.position.after cs ∧
      ∀ ts rest, scanFrom (x :: ts) 0 e = .ok rest →
        scanFrom (cs ++ x :: ts) skip s = .ok (before ++ rest) := by
  induction cs generalizing skip s tokens with
  | nil =>
    obtain rfl : skip = 0 := Nat.le_zero.1 fits
    obtain ⟨empty, rfl⟩ := ScanState.close_eq_ok h
    exact ⟨[], s, rfl, by simp, empty, rfl, fun ts rest hrest => hrest⟩
  | cons c cs ih =>
    have closed' : ∀ as bs, cs = as ++ '/' :: '/' :: bs → x = '\n' ∨ '\n' ∈ bs := fun as bs e =>
      closed (c :: as) bs (by rw [e, List.cons_append])
    cases skip with
    | succ skip =>
      rw [scanFrom] at h
      obtain ⟨before, e, rfl, unfinished, empty, position, onward⟩ :=
        ih (Nat.le_of_succ_le_succ fits) closed' h
      exact ⟨before, e, rfl, unfinished, empty, position, fun ts rest hrest => onward ts rest hrest⟩
    | zero =>
      obtain ⟨lexeme, s', rest, at_, noted, scanned, rfl⟩ := scanFrom_cons_eq_ok.1 h
      have length := Lexeme.length_at_le at_
      obtain ⟨before, e, rfl, unfinished, empty, position, onward⟩ := ih (by omega) closed' scanned
      refine ⟨_ ++ before, e, (List.append_assoc ..).symm, ?_, empty, ?_, fun ts rest hrest => ?_⟩
      · rw [List.forall_mem_append]
        exact ⟨fun t ht => Lexeme.kind_ne_finish (Option.mem_toList.1 ht), unfinished⟩
      · rw [position, ScanState.past, ScanState.note_position noted]
        rfl
      · have comment : c = '/' ∧ cs.head? = some '/' → x = '\n' ∨ '\n' ∈ cs := by
          rintro ⟨rfl, slash⟩
          obtain ⟨bs, rfl⟩ := List.head?_eq_some_iff.1 slash
          exact (closed [] bs rfl).imp_right (List.mem_cons_of_mem _)
        exact scanFrom_cons_eq_ok.2 ⟨lexeme, s', _, Lexeme.at_append hx comment at_, noted,
          onward ts rest hrest, List.append_assoc ..⟩

end TypeNotation
