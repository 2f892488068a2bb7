import TypeNotation.Parser.Declarations
import TypeNotation.Proofs.Answer
import TypeNotation.Proofs.Token.Join
import TypeNotation.Proofs.TypeExpr.Relocate

/-!
# Reading up to a seam

A *seam* is a place in a sequence of tokens where what comes after can be exchanged.  Before, almost
nothing came after it: commas and the end of the text.  Now there comes something before which every
declaration ends.  A production that has read what stands before the seam reads the same there when
what comes after is exchanged; `Seam.Carries` says so, and the rules below put productions together.

What stands before the seam may be moved to other positions at the same time.
-/

namespace TypeNotation

/-! ## What comes after a seam -/

/-- Tokens that no production makes anything of: commas and the end of the text. -/
def Barren (ts : List Token) : Prop :=
  ∀ t ∈ ts, t.kind = .mark .comma ∨ t.kind = .finish

/-- Tokens before which a declaration ends: a line break, the end of the text, or a comma with
something after it that is no next item of a list. -/
def Stops (ts : List Token) : Prop :=
  (tokenAt ts 0).kind = .newline ∨ (tokenAt ts 0).kind = .finish ∨
    ((tokenAt ts 0).kind = .mark .comma ∧
      ((tokenAt ts 1).kind ∈ [.newline, .mark .comma, .finish] ∨ declarationAhead (ts.drop 1)))

namespace Barren

variable {ts : List Token} (h : Barren ts)
include h

lemma tail : Barren ts.tail :=
  fun t ht => h t (List.mem_of_mem_tail ht)

lemma dropWhile (P : Token → Bool) : Barren (ts.dropWhile P) :=
  fun t ht => h t ((List.dropWhile_sublist P).subset ht)

lemma kind_tokenAt (i : Nat) :
    (tokenAt ts i).kind = .mark .comma ∨ (tokenAt ts i).kind = .finish := by
  rw [tokenAt]
  cases hi : ts[i]? with
  | none => exact .inr rfl
  | some t => exact h t (List.mem_of_getElem? hi)

lemma frontIs {kind : TokenKind} (hkind : kind ≠ .mark .comma ∧ kind ≠ .finish) :
    TypeNotation.frontIs kind ts = false := by
  rcases h.kind_tokenAt 0 with front | front <;> simp [TypeNotation.frontIs, front, hkind.1.symm,
    hkind.2.symm]

end Barren

lemma dropWhile_name_of_other {ts : List Token} (h : ¬ frontIs .name ts) :
    ts.dropWhile (·.kind = .name) = ts := by
  cases ts with
  | nil => rfl
  | cons t ts =>
    have front : t.kind ≠ .name := fun e => h (decide_eq_true e)
    simp [front]

namespace Stops

variable {ts : List Token} (h : Stops ts)
include h

lemma kind_front : (tokenAt ts 0).kind ∈ [.newline, .mark .comma, .finish] := by
  rcases h with h | h | ⟨h, -⟩ <;> simp [h]

lemma frontIs {kind : TokenKind} (hkind : kind ∉ [.newline, .mark .comma, .finish]) :
    TypeNotation.frontIs kind ts = false :=
  decide_eq_false fun front => hkind (front ▸ h.kind_front)

lemma dropWhile_name : ts.dropWhile (·.kind = .name) = ts :=
  dropWhile_name_of_other (by simp [h.frontIs])

end Stops

/-- Whether the last token ends an operand. -/
def Ends (ts : List Token) : Prop :=
  ts.getLast?.any (·.kind.endsOperand)

namespace Ends

variable {ts us : List Token}

lemma ne_nil (h : Ends ts) : ts ≠ [] := by
  rintro rfl
  cases h

lemma append_right (ts : List Token) (h : Ends us) : Ends (ts ++ us) := by
  rw [Ends, List.getLast?_append_of_ne_nil _ h.ne_nil]
  exact h

lemma append (h : Ends ts) (h' : us = [] ∨ Ends us) : Ends (ts ++ us) := by
  rcases h' with rfl | h'
  · rwa [List.append_nil]
  · exact h'.append_right ts

lemma singleton {t : Token} (h : t.kind.endsOperand) : Ends [t] :=
  h

end Ends

@[simp] lemma Token.isVariable_relocate (f : Position → Position) (t : Token) :
    (t.relocate f).isVariable = t.isVariable := rfl

@[simp] lemma Token.value?_relocate (f : Position → Position) (t : Token) :
    (t.relocate f).value? = t.value? := rfl

/-- A place where what comes after can be exchanged: how the positions before it are moved, and what
comes after it before and after the exchange. -/
structure Seam where
  move : Position → Position
  rest : List Token
  rest' : List Token
  barren : Barren rest
  stops : Stops rest'

namespace Seam

variable (J : Seam)

/-- Tokens up to the seam, with what comes after it at first. -/
def near (d : List Token) : List Token :=
  d ++ J.rest

/-- Tokens up to the seam, with what comes after it in the end. -/
def far (d : List Token) : List Token :=
  d.map (.relocate J.move) ++ J.rest'

@[simp] lemma near_nil : J.near [] = J.rest := rfl

@[simp] lemma near_cons (t : Token) (d : List Token) : J.near (t :: d) = t :: J.near d := rfl

@[simp] lemma far_nil : J.far [] = J.rest' := rfl

@[simp] lemma far_cons (t : Token) (d : List Token) :
    J.far (t :: d) = t.relocate J.move :: J.far d := rfl

/-! ## Questions about the tokens -/

/-- A question has the same answer on both sides. -/
def Agrees (question : List Token → Bool) : Prop :=
  ∀ d, question (J.near d) = question (J.far d)

variable {J}

/-- A question about the token at the front that is about none of those at the seam. -/
lemma agrees_front {P : Token → Bool} (moved : ∀ t, P (t.relocate J.move) = P t)
    (h : ∀ t, t.kind ∈ [.newline, .mark .comma, .finish] → P t = false) :
    J.Agrees fun tokens => P (tokenAt tokens 0) := by
  intro d
  cases d with
  | nil =>
    have near : (tokenAt J.rest 0).kind ∈ [.newline, .mark .comma, .finish] := by
      rcases J.barren.kind_tokenAt 0 with e | e <;> simp [e]
    exact (h _ near).trans (h _ J.stops.kind_front).symm
  | cons t d => exact (moved t).symm

lemma agrees_frontIs {kind : TokenKind} (h : kind ∉ [.newline, .mark .comma, .finish]) :
    J.Agrees (frontIs kind) :=
  agrees_front (P := fun t => decide (t.kind = kind)) (fun _ => rfl) fun _ ht =>
    decide_eq_false fun e => h (e ▸ ht)

lemma agrees_frontIsMark {p : Punctuation} (h : p ≠ .comma) : J.Agrees (frontIsMark p) :=
  agrees_frontIs (by simp [h])

lemma startsType_eq_false {kind : TokenKind} (h : kind ∈ [.newline, .mark .comma, .finish]) :
    kind.startsType = false := by
  simp only [List.mem_cons, List.not_mem_nil, or_false] at h
  rcases h with rfl | rfl | rfl <;> rfl

lemma agrees_startsType : J.Agrees fun tokens => (tokenAt tokens 0).kind.startsType :=
  agrees_front (P := fun t => t.kind.startsType) (fun _ => rfl) fun _ ht => startsType_eq_false ht

lemma agrees_value : J.Agrees fun tokens => (tokenAt tokens 0).value?.isSome := by
  refine agrees_front (P := fun t => t.value?.isSome) (fun _ => rfl) fun t ht => ?_
  simp only [List.mem_cons, List.not_mem_nil, or_false] at ht
  rcases ht with ht | ht | ht <;> simp [Token.value?, ht]

/-- Behind names, a colon stands either on both sides or on none. -/
lemma agrees_colon : J.Agrees fun tokens =>
    frontIsMark .colon (tokens.dropWhile (·.kind = .name)) := by
  intro d
  induction d with
  | nil =>
    dsimp only [near_nil, far_nil]
    rw [J.stops.dropWhile_name]
    exact ((J.barren.dropWhile _).frontIs (by decide)).trans (J.stops.frontIs (by decide)).symm
  | cons t d ih =>
    dsimp only [near_cons, far_cons]
    rw [List.dropWhile_cons, List.dropWhile_cons, Token.kind_relocate]
    split
    · exact ih
    · rfl

lemma agrees_declarationAhead : J.Agrees declarationAhead := by
  intro d
  have colon := agrees_colon (J := J) d
  cases d with
  | nil =>
    have near : (tokenAt J.rest 0).kind ≠ .name := fun e => by
      rcases J.barren.kind_tokenAt 0 with h | h <;> rw [e] at h <;> cases h
    have far : (tokenAt J.rest' 0).kind ≠ .name := fun e => by
      have := J.stops.kind_front
      simp [e] at this
    simp [declarationAhead, near, far]
  | cons t d =>
    simp only [declarationAhead, colon]
    rfl

lemma commaContinues_rest : commaContinues true J.rest = false := by
  have next : (tokenAt J.rest 1).kind.startsType = false := by
    rcases J.barren.kind_tokenAt 1 with h | h <;> rw [h] <;> rfl
  simp [commaContinues, next]

lemma commaContinues_rest' : commaContinues true J.rest' = false := by
  rcases J.stops with h | h | ⟨-, h | h⟩
  · simp [commaContinues, frontIsMark, frontIs, h]
  · simp [commaContinues, frontIsMark, frontIs, h]
  · simp [commaContinues, startsType_eq_false h]
  · rw [commaContinues, h]
    simp

lemma tokenAt_cons_one (t : Token) (ts : List Token) : tokenAt (t :: ts) 1 = tokenAt ts 0 := by
  simp [tokenAt]

lemma agrees_commaContinues (commas : Bool) : J.Agrees (commaContinues commas) := by
  intro d
  cases commas with
  | false => rfl
  | true =>
    cases d with
    | nil => exact commaContinues_rest.trans commaContinues_rest'.symm
    | cons t d =>
      have next : (tokenAt (J.near d) 0).kind.startsType = (tokenAt (J.far d) 0).kind.startsType :=
        agrees_startsType d
      have ahead : declarationAhead (J.near d) = declarationAhead (J.far d) :=
        agrees_declarationAhead d
      simp only [commaContinues, near_cons, far_cons, tokenAt_cons_one, List.drop_one,
        List.tail_cons, next, ahead]
      rfl

lemma agrees_intervalAhead : J.Agrees Parser.intervalAhead := by
  intro d
  rw [Parser.intervalAhead, Parser.intervalAhead,
    agrees_frontIsMark (J := J) (p := .ellipsis) (by decide) d]
  cases d with
  | nil => rw [far_nil, frontIsMark, J.stops.frontIs (by decide), Bool.false_and, Bool.false_and]
  | cons t d =>
    rw [near_cons, far_cons, tokenAt_cons_one, tokenAt_cons_one]
    exact congrArg _ (agrees_value d)

lemma agrees_endsAlternatives (commas : Bool) : J.Agrees (Parser.endsAlternatives commas) := by
  intro d
  simp only [Parser.endsAlternatives, agrees_frontIsMark (J := J) (p := .arrow) (by decide) d,
    agrees_frontIsMark (J := J) (p := .question) (by decide) d,
    agrees_frontIsMark (J := J) (p := .ellipsis) (by decide) d, agrees_commaContinues commas d]

end Seam

end TypeNotation
