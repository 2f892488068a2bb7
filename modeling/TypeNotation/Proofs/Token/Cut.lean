import TypeNotation.Proofs.Token.Trace

/-!
# Lexemes of a text that is cut

What a lexeme is depends on a few characters behind it: those that could have gone on with it.  So a
text that is cut between two lexemes has the same lexemes up to there.  There is one exception: the
word for infinity behind a plus sign is a number with this sign if the text ends there, and a name
behind an operator if an arrow follows.
-/

namespace TypeNotation

open Text

/-! ## Lists of characters -/

section Lists

variable {α : Type} {P : α → Bool} {xs ys : List α}

lemma takeWhile_of_fits (h : ((xs ++ ys).takeWhile P).length ≤ xs.length) :
    (xs ++ ys).takeWhile P = xs.takeWhile P := by
  induction xs with
  | nil => simpa using h
  | cons x xs ih =>
    rw [List.cons_append, List.takeWhile_cons] at h ⊢
    rw [List.takeWhile_cons]
    split
    · rename_i hx
      rw [if_pos hx] at h
      rw [ih (Nat.le_of_succ_le_succ h)]
    · rfl

lemma dropWhile_of_fits (h : ((xs ++ ys).takeWhile P).length ≤ xs.length) :
    (xs ++ ys).dropWhile P = xs.dropWhile P ++ ys := by
  have whole := List.takeWhile_append_dropWhile (p := P) (l := xs ++ ys)
  rw [takeWhile_of_fits h] at whole
  conv at whole =>
    rhs
    rw [← List.takeWhile_append_dropWhile (p := P) (l := xs), List.append_assoc]
  exact List.append_cancel_left whole

lemma head?_append_of_ne_nil (h : xs ≠ []) (ys : List α) : (xs ++ ys).head? = xs.head? := by
  cases xs with
  | nil => exact absurd rfl h
  | cons x xs => rfl

end Lists

namespace Lexeme

variable {position : Position} {afterOperand : Bool} {cs bs : List Char}

/-! ## Words -/

lemma continuesName_of_startsName {c : Char} (h : startsName c = true) :
    continuesName c = true := by
  rw [startsName, Bool.or_eq_true, Bool.or_eq_true] at h
  rw [continuesName, Bool.or_eq_true, Bool.or_eq_true]
  exact h.imp_left (Or.imp_left fun letter => by simp [isAlphanumeric, letter])

lemma nameRest_ne_nil (h : bs.head?.any startsName = true) : nameRest bs ≠ [] := by
  cases bs with
  | nil => cases h
  | cons b bs =>
    rw [nameRest, if_pos (continuesName_of_startsName h)]
    exact List.cons_ne_nil _ _

lemma nameRest_of_fits (h : (nameRest (cs ++ bs)).length ≤ cs.length) :
    nameRest (cs ++ bs) = nameRest cs := by
  induction cs with
  | nil => exact List.length_eq_zero_iff.1 (Nat.le_zero.1 h)
  | cons c cs ih =>
    rw [List.cons_append, nameRest] at h ⊢
    rw [nameRest]
    by_cases goesOn : continuesName c = true
    · rw [if_pos goesOn] at h ⊢
      rw [if_pos goesOn, ih (Nat.le_of_succ_le_succ h)]
    rw [if_neg goesOn] at h ⊢
    rw [if_neg goesOn]
    cases cs with
    | nil =>
      -- a hyphen at the cut belongs to a name that goes on behind it
      have alone : ¬ (c = '-' ∧ ([] : List Char).head?.any startsName = true) := fun h =>
        Bool.false_ne_true h.2
      rw [if_neg alone]
      refine if_neg fun hyphen => ?_
      rw [if_pos hyphen] at h
      exact nameRest_ne_nil hyphen.2
        (List.length_eq_zero_iff.1 (Nat.le_zero.1 (Nat.le_of_succ_le_succ h)))
    | cons d ds =>
      rw [head?_append_of_ne_nil (List.cons_ne_nil d ds)] at h ⊢
      split
      · rename_i hyphen
        rw [if_pos hyphen] at h
        rw [ih (Nat.le_of_succ_le_succ h)]
      · rfl

/-! ## Numbers -/

lemma isPrefixOf_append {ps : List Char} (h : ps.isPrefixOf cs = true) (bs : List Char) :
    ps.isPrefixOf (cs ++ bs) = true :=
  List.isPrefixOf_iff_prefix.2 ((List.isPrefixOf_iff_prefix.1 h).trans (List.prefix_append _ _))

lemma isPrefixOf_of_fits {ps : List Char} (h : ps.isPrefixOf (cs ++ bs) = true)
    (fits : ps.length ≤ cs.length) : ps.isPrefixOf cs = true :=
  List.isPrefixOf_iff_prefix.2
    (List.prefix_of_prefix_length_le (List.isPrefixOf_iff_prefix.1 h) (List.prefix_append _ _) fits)

lemma infinityAt_of_fits (h : infinityAt (cs ++ bs) = true) (fits : 8 ≤ cs.length) :
    infinityAt cs = true := by
  rw [infinityAt, Bool.and_eq_true, List.drop_append_of_le_length fits] at h
  rw [infinityAt, Bool.and_eq_true]
  refine ⟨isPrefixOf_of_fits h.1 fits, ?_⟩
  cases rest : cs.drop 8 with
  | nil => rfl
  | cons d ds =>
    rw [rest] at h
    exact h.2

/-- Where the cut makes a word for infinity out of none, it is right behind the word. -/
lemma infinityAt_of_cut (h : infinityAt (cs ++ bs) = false) (cut : infinityAt cs = true) :
    cs = infinityChars ∧ bs.head?.any (fun c => continuesName c || c = '-') = true := by
  rw [infinityAt, Bool.and_eq_true] at cut
  have fits := (List.isPrefixOf_iff_prefix.1 cut.1).length_le
  have fits : 8 ≤ cs.length := fits
  rw [infinityAt, isPrefixOf_append cut.1, Bool.true_and, List.drop_append_of_le_length fits] at h
  cases rest : cs.drop 8 with
  | nil =>
    rw [rest, List.nil_append, Bool.not_eq_false'] at h
    obtain ⟨ds, rfl⟩ := List.isPrefixOf_iff_prefix.1 cut.1
    have none : ds = [] := rest
    rw [none, List.append_nil]
    exact ⟨rfl, h⟩
  | cons d ds =>
    rw [rest] at h cut
    exact absurd cut.2 (by simpa using h)

/-- Three dots that stand behind a cut are not torn by it. -/
def Whole (cs : List Char) : Prop :=
  cs.head? = some '.' → ellipsisAt cs = true

lemma runsOnAt_of_whole (whole : Whole cs) (h : runsOnAt (cs ++ bs) = false) :
    runsOnAt cs = false := by
  cases cs with
  | nil => rfl
  | cons c cs =>
    rw [runsOnAt, List.cons_append, List.head?_cons, Option.any_some, Bool.or_eq_false_iff] at h
    rw [runsOnAt, List.head?_cons, Option.any_some, Bool.or_eq_false_iff]
    refine ⟨h.1, ?_⟩
    by_cases dot : c = '.'
    · simp [whole (congrArg some dot)]
    · simp [dot]

/-- The digits behind a point, for characters that start with one. -/
def fractionAt (cs : List Char) : Option (List Char) :=
  if cs.head? = some '.' && !ellipsisAt cs then some (cs.tail.takeWhile isDigit) else none

lemma fractionAt_of_ne {c : Char} (h : c ≠ '.') (cs : List Char) :
    fractionAt (c :: cs) = none := by
  simp [fractionAt, h]

lemma fractionAt_of_ellipsisAt (h : ellipsisAt cs = true) : fractionAt cs = none := by
  simp [fractionAt, h]

lemma fractionAt_point (h : ellipsisAt ('.' :: cs) = false) :
    fractionAt ('.' :: cs) = some (cs.takeWhile isDigit) := by
  simp [fractionAt, h]

lemma fractionAt_of_fits
    (fits : ((fractionAt (cs ++ bs)).elim 0 (·.length + 1)) ≤ cs.length)
    (whole : fractionAt (cs ++ bs) = none → Whole cs) : fractionAt (cs ++ bs) = fractionAt cs := by
  cases cs with
  | nil =>
    cases point : fractionAt ([] ++ bs) with
    | none => rfl
    | some ds =>
      rw [point] at fits
      exact absurd fits (Nat.not_succ_le_zero _)
  | cons d rest =>
    by_cases dot : d = '.'
    · subst dot
      cases dots : ellipsisAt ('.' :: rest ++ bs) with
      | true =>
        have none := fractionAt_of_ellipsisAt dots
        rw [none, fractionAt_of_ellipsisAt (whole none rfl)]
      | false =>
        have short : ellipsisAt ('.' :: rest) = false := by
          cases h : ellipsisAt ('.' :: rest) with
          | false => rfl
          | true => exact (isPrefixOf_append h bs).symm.trans dots
        rw [List.cons_append] at dots fits ⊢
        rw [fractionAt_point dots] at fits ⊢
        rw [fractionAt_point short, takeWhile_of_fits (Nat.le_of_succ_le_succ fits)]
    · rw [List.cons_append, fractionAt_of_ne dot, fractionAt_of_ne dot]

lemma literalAt_eq (cs : List Char) : literalAt cs = cs.takeWhile isDigit ++
    ((fractionAt (cs.dropWhile isDigit)).map ('.' :: ·)).getD [] := rfl

/-- The decimals of a number that ends before the cut. -/
lemma decimals?_of_fits (fits : (literalAt (cs ++ bs)).length ≤ cs.length)
    (whole : Whole (cs.drop (literalAt (cs ++ bs)).length)) :
    decimals? (cs ++ bs) = decimals? cs := by
  have digits : ((cs ++ bs).takeWhile isDigit).length ≤ cs.length :=
    Nat.le_trans (List.length_append ▸ Nat.le_add_right _ _) fits
  have split : cs.takeWhile isDigit ++ cs.dropWhile isDigit = cs := List.takeWhile_append_dropWhile
  have size := congrArg List.length split
  change fractionAt _ = fractionAt _
  rw [literalAt_eq, dropWhile_of_fits digits, takeWhile_of_fits digits] at fits whole
  rw [dropWhile_of_fits digits]
  rw [List.length_append] at fits size
  refine fractionAt_of_fits ?_ fun none => ?_
  · cases point : fractionAt (cs.dropWhile isDigit ++ bs) with
    | none => exact Nat.zero_le _
    | some ds =>
      simp only [point, Option.map_some, Option.getD_some, List.length_cons] at fits
      simp only [Option.elim]
      omega
  · rw [none] at whole
    simp only [Option.map_none, Option.getD_none, List.append_nil] at whole
    conv at whole =>
      arg 1
      arg 2
      rw [← split]
    rwa [List.drop_left] at whole

lemma numberAt_of_fits {sign : Option Char} {l : Lexeme}
    (h : numberAt position sign (cs ++ bs) = .ok l)
    (infinite : sign.isSome = true → infinityAt cs = infinityAt (cs ++ bs))
    (fits : l.length ≤ sign.toList.length + cs.length)
    (whole : Whole (cs.drop (l.length - sign.toList.length))) :
    numberAt position sign cs = .ok l := by
  have same : (sign.isSome && infinityAt cs) = (sign.isSome && infinityAt (cs ++ bs)) := by
    cases signed : sign.isSome with
    | false => rfl
    | true => rw [infinite signed]
  rw [numberAt_eq_ok] at h ⊢
  rw [same]
  split
  · rename_i hinf
    rwa [if_pos hinf] at h
  · rename_i hinf
    rw [if_neg hinf] at h
    obtain ⟨filled, ends, y, value, rfl⟩ := h
    simp only [length, List.length_append, Nat.add_le_add_iff_left,
      Nat.add_sub_cancel_left] at fits whole
    have digits : ((cs ++ bs).takeWhile isDigit).length ≤ cs.length :=
      Nat.le_trans (List.length_append ▸ Nat.le_add_right _ _) fits
    have decimals := decimals?_of_fits fits whole
    have literal : literalAt (cs ++ bs) = literalAt cs := by
      rw [literalAt, takeWhile_of_fits digits, decimals, ← literalAt]
    rw [List.drop_append_of_le_length fits] at ends
    rw [takeWhile_of_fits digits, decimals] at value
    rw [decimals] at filled
    rw [literal] at ends whole ⊢
    exact ⟨filled, runsOnAt_of_whole whole ends, y, value, rfl⟩

/-! ### Signs -/

/-- A sign starts a number before the cut, if it starts one that ends there. -/
lemma signedNumberAt_of_fits {c : Char} {l : Lexeme}
    (sign : signedNumberAt afterOperand c (cs ++ bs) = true)
    (h : numberAt position (some c) (cs ++ bs) = .ok l) (fits : l.length ≤ cs.length + 1) :
    signedNumberAt afterOperand c cs = true ∧ infinityAt cs = infinityAt (cs ++ bs) := by
  rw [signedNumberAt, Bool.and_eq_true] at sign ⊢
  rw [sign.1]
  cases infinite : infinityAt (cs ++ bs) with
  | true =>
    rw [numberAt_eq_ok, infinite, Option.isSome_some, Bool.and_self, if_pos rfl] at h
    subst h
    have cut := infinityAt_of_fits infinite (Nat.le_of_succ_le_succ fits)
    exact ⟨⟨rfl, by rw [cut, Bool.or_true]⟩, cut⟩
  | false =>
    rw [infinite, Bool.or_false] at sign
    rw [numberAt_eq_ok, infinite, Bool.and_false, if_neg Bool.false_ne_true] at h
    obtain ⟨-, -, y, -, rfl⟩ := h
    cases cs with
    | nil =>
      cases bs with
      | nil => cases sign.2
      | cons b bs =>
        have digit : isDigit b = true := sign.2
        simp [length, literalAt, List.takeWhile_cons_of_pos digit] at fits
    | cons d ds =>
      have digit : isDigit d = true := sign.2
      have finite : infinityAt (d :: ds) = false := infinityAt_of_front fun front => by
        rw [Option.some.inj front] at digit
        exact absurd digit (by decide)
      exact ⟨⟨rfl, by simp [digit]⟩, finite⟩

/-- Where the cut makes a sign start a number, it is right behind a word for infinity. -/
lemma signedNumberAt_of_cut {c : Char} (h : signedNumberAt afterOperand c (cs ++ bs) = false)
    (cut : signedNumberAt afterOperand c cs = true) :
    (c = '-' ∨ c = '+' ∧ afterOperand = false) ∧ cs = infinityChars ∧
      bs.head?.any (fun c => continuesName c || c = '-') = true := by
  rw [signedNumberAt, Bool.and_eq_true] at cut
  rw [signedNumberAt, cut.1, Bool.true_and, Bool.or_eq_false_iff] at h
  have digit : cs.head?.any isDigit = false := by
    cases cs with
    | nil => rfl
    | cons d ds => exact h.1
  rw [digit, Bool.false_or] at cut
  exact ⟨by simpa using cut.1, infinityAt_of_cut h.2 cut.2⟩

/-! ## Any lexeme -/

lemma find?_mark_of_fits {c : Char} {p : Punctuation}
    (h : Punctuation.all.find? (·.chars.isPrefixOf (c :: (cs ++ bs))) = some p)
    (fits : p.chars.length ≤ cs.length + 1) :
    Punctuation.all.find? (·.chars.isPrefixOf (c :: cs)) = some p := by
  obtain ⟨found, before, after, all, earlier⟩ := List.find?_eq_some_iff_append.1 h
  refine List.find?_eq_some_iff_append.2 ⟨?_, before, after, all, fun q hq => ?_⟩
  · rw [← List.cons_append] at found
    exact isPrefixOf_of_fits found fits
  · have other := earlier q hq
    rw [Bool.not_eq_true', ← Bool.not_eq_true] at other ⊢
    intro short
    rw [← List.cons_append] at other
    exact other (isPrefixOf_append short bs)

lemma find?_mark_minus_infinity (bs : List Char) :
    Punctuation.all.find? (·.chars.isPrefixOf ('-' :: (infinityChars ++ bs))) = none := by
  simp [Punctuation.all, Punctuation.chars, infinityChars, List.find?, List.isPrefixOf]

/-- A comment that ends before a cut has both of its slashes before it. -/
lemma comment_of_fits (slash : (cs ++ bs).head? = some '/')
    (fits : (comment (1 + ((cs ++ bs).takeWhile (· ≠ '\n')).length)).length ≤ cs.length + 1) :
    cs.head? = some '/' ∧
      (cs ++ bs).takeWhile (· ≠ '\n') = cs.takeWhile (· ≠ '\n') := by
  rw [length] at fits
  have begun : cs ≠ [] := by
    rintro rfl
    obtain ⟨ds, hds⟩ := List.head?_eq_some_iff.1 slash
    rw [hds, List.takeWhile_cons_of_pos (by decide), List.length_cons, List.length_nil] at fits
    omega
  rw [head?_append_of_ne_nil begun] at slash
  exact ⟨slash, takeWhile_of_fits (by omega)⟩

/-- A lexeme that ends before a cut is the same without what comes behind the cut. -/
lemma at_of_fits {c : Char} {l : Lexeme} (h : at_ position afterOperand c (cs ++ bs) = .ok l)
    (fits : l.length ≤ cs.length + 1) (whole : Whole (cs.drop (l.length - 1)))
    (infinite : signedNumberAt afterOperand c (cs ++ bs) = false → c = '+' →
      afterOperand = false → cs = infinityChars →
      bs.head?.any (fun c => continuesName c || c = '-') = false) :
    at_ position afterOperand c cs = .ok l := by
  unfold at_ at h ⊢
  by_cases break_ : c = '\n'
  · rwa [if_pos break_] at h ⊢
  rw [if_neg break_] at h ⊢
  by_cases blank : isBlank c = true
  · rwa [if_pos blank] at h ⊢
  rw [if_neg blank] at h ⊢
  by_cases comment : c = '/' ∧ (cs ++ bs).head? = some '/'
  · rw [if_pos comment] at h
    cases h
    obtain ⟨slash, line⟩ := comment_of_fits comment.2 fits
    rw [if_pos ⟨comment.1, slash⟩, line]
  have plain : ¬ (c = '/' ∧ cs.head? = some '/') := fun h => by
    refine comment ⟨h.1, ?_⟩
    rw [head?_append_of_ne_nil (by rintro rfl; cases h.2)]
    exact h.2
  rw [if_neg comment] at h
  rw [if_neg plain]
  by_cases name : startsName c = true
  · rw [if_pos name] at h ⊢
    cases h
    rw [nameRest_of_fits (Nat.le_of_succ_le_succ fits)]
  rw [if_neg name] at h ⊢
  by_cases digit : isDigit c = true
  · rw [if_pos digit] at h ⊢
    rw [← List.cons_append] at h
    refine numberAt_of_fits h (by simp) (by simpa using fits) ?_
    have pos := length_numberAt_pos h digit
    obtain ⟨n, hn⟩ : ∃ n, l.length = n + 1 := ⟨l.length - 1, by omega⟩
    rw [hn] at whole ⊢
    exact whole
  rw [if_neg digit] at h ⊢
  by_cases sign : signedNumberAt afterOperand c (cs ++ bs) = true
  · rw [if_pos sign] at h
    obtain ⟨signed, same⟩ := signedNumberAt_of_fits sign h fits
    rw [if_pos signed]
    refine numberAt_of_fits h (fun _ => same) ?_ whole
    rw [Option.toList_some, List.length_singleton]
    omega
  rw [if_neg sign] at h
  have unsigned : ¬ signedNumberAt afterOperand c cs = true := fun signed => by
    obtain ⟨hc, hcs, next⟩ := signedNumberAt_of_cut (Bool.eq_false_iff.2 sign) signed
    rcases hc with rfl | ⟨rfl, fresh⟩
    · -- no mark starts with a hyphen before the word
      rw [hcs, find?_mark_minus_infinity] at h
      cases h
    · rw [infinite (Bool.eq_false_iff.2 sign) rfl fresh hcs] at next
      cases next
  rw [if_neg unsigned]
  split at h
  · rename_i p found
    cases h
    rw [find?_mark_of_fits found fits]
  · split at h <;> cases h

end Lexeme

end TypeNotation
