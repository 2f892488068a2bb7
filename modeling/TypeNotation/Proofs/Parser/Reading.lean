import TypeNotation.Parser.Declarations
import TypeNotation.Proofs.Answer

/-!
# Running productions

What a production answers is a function of the tokens that are left.  The equations below take a run
apart along the way in which the production is put together.
-/

namespace TypeNotation

lemma frontIsMark_cons (p : Punctuation) (k : Token) (ts : List Token) :
    frontIsMark p (k :: ts) = decide (k.kind = .mark p) := rfl

namespace Parser

variable {α β σ : Type}

/-- What a production answers, told the number of tokens, and the tokens that it leaves. -/
def answer (p : Parser α) (n : Nat) (ts : List Token) : Except Stop (α × List Token) :=
  (p.run n).run ts

lemma answer_bind (p : Parser α) (f : α → Parser β) (n : Nat) (ts : List Token) :
    answer (p >>= f) n ts = answer p n ts >>= fun x => answer (f x.1) n x.2 := rfl

lemma answer_bind_eq_ok {p : Parser α} {f : α → Parser β} {n : Nat} {ts rest : List Token}
    {b : β} : answer (p >>= f) n ts = .ok (b, rest) ↔
      ∃ a us, answer p n ts = .ok (a, us) ∧ answer (f a) n us = .ok (b, rest) := by
  rw [answer_bind, bind_eq_ok]
  simp only [Prod.exists]

lemma answer_peek_bind (f : Token → Parser α) (n : Nat) (ts : List Token) :
    answer (peek >>= f) n ts = answer (f (tokenAt ts 0)) n ts := rfl

lemma next_bind (f : Token → Parser α) :
    (next >>= f) = peek >>= fun t => modify List.tail >>= fun _ => f t := rfl

lemma answer_modify_bind (g : List Token → List Token) (f : Unit → Parser α) (n : Nat)
    (ts : List Token) : answer (modify g >>= f) n ts = answer (f ()) n (g ts) := rfl

lemma answer_asks_bind (question : List Token → Bool) (f : Bool → Parser α) (n : Nat)
    (ts : List Token) : answer (asks question >>= f) n ts = answer (f (question ts)) n ts := rfl

lemma answer_takeMark_eq_ok {p : Punctuation} {n : Nat} {ts rest : List Token} {u : Unit} :
    answer (takeMark p) n ts = .ok (u, rest) ↔ frontIsMark p ts = true ∧ rest = ts.tail := by
  have run : answer (takeMark p) n ts = answer (if frontIsMark p ts then modify List.tail
      else refuse (SyntaxError.quoted p.text)) n ts := rfl
  rw [run]
  constructor
  · intro h
    split at h
    · rename_i front
      cases h
      exact ⟨front, rfl⟩
    · cases h
  · rintro ⟨front, rfl⟩
    rw [if_pos front]
    rfl

lemma answer_repeatUpTo_zero {more : List Token → Bool} {step : σ → Parser σ} (s : σ) (n : Nat)
    (ts : List Token) : answer (repeatUpTo more step 0 s) n ts =
      if more ts then .error .exhausted else .ok (s, ts) := by
  have run : answer (repeatUpTo more step 0 s) n ts =
    answer (if more ts then throw .exhausted else pure s) n ts := rfl
  rw [run]
  split <;> rfl

lemma answer_repeatUpTo {more : List Token → Bool} {step : σ → Parser σ} (k : Nat) (s : σ)
    (n : Nat) (ts : List Token) : answer (repeatUpTo more step (k + 1) s) n ts =
      if more ts then answer (step s >>= repeatUpTo more step k) n ts else .ok (s, ts) := by
  have run : answer (repeatUpTo more step (k + 1) s) n ts =
    answer (if more ts then step s >>= repeatUpTo more step k else pure s) n ts := rfl
  rw [run]
  split <;> rfl

lemma answer_repeatUpTo_bind {more : List Token → Bool} {step : σ → Parser σ} (k : Nat) (s : σ)
    (f : σ → Parser α) (n : Nat) (ts : List Token) :
    answer (repeatUpTo more step (k + 1) s >>= f) n ts =
      if more ts then answer (step s >>= fun s => repeatUpTo more step k s >>= f) n ts
      else answer (f s) n ts := by
  rw [answer_bind, answer_repeatUpTo]
  split
  · rw [answer_bind, answer_bind]
    cases answer (step s) n ts <;> rfl
  · rfl

/-! ## Steps that answer -/

lemma answer_bind_of_ok {p : Parser α} {f : α → Parser β} {n : Nat} {ts us : List Token} {a : α}
    (h : answer p n ts = .ok (a, us)) : answer (p >>= f) n ts = answer (f a) n us := by
  rw [answer_bind, h]
  rfl

lemma answer_read_bind (f : Nat → Parser α) (n : Nat) (ts : List Token) :
    answer (read >>= f) n ts = answer (f n) n ts := rfl

lemma answer_takeMark_bind {p : Punctuation} {k : Token} (hk : k.kind = .mark p)
    (f : Unit → Parser α) (n : Nat) (ts : List Token) :
    answer (takeMark p >>= f) n (k :: ts) = answer (f ()) n ts :=
  answer_bind_of_ok (answer_takeMark_eq_ok.2 ⟨by simp [frontIsMark_cons, hk], rfl⟩)

lemma answer_repeatWhile_bind {more : List Token → Bool} {step : σ → Parser σ} {s s' : σ} {n : Nat}
    {ts us : List Token} (h : answer (repeatUpTo more step n s) n ts = .ok (s', us))
    (f : σ → Parser α) : answer (repeatWhile more step s >>= f) n ts = answer (f s') n us :=
  answer_bind_of_ok h

lemma answer_repeatUpTo_stop {more : List Token → Bool} {step : σ → Parser σ} {ts : List Token}
    (h : more ts = false) (k : Nat) (s : σ) (n : Nat) :
    answer (repeatUpTo more step k s) n ts = .ok (s, ts) := by
  cases k with
  | zero => rw [answer_repeatUpTo_zero, if_neg (by simp [h])]
  | succ k => rw [answer_repeatUpTo, if_neg (by simp [h])]

lemma answer_repeatUpTo_step {more : List Token → Bool} {step : σ → Parser σ} {ts us : List Token}
    {s s' : σ} {n : Nat} (h : more ts = true) (hs : answer (step s) n ts = .ok (s', us)) (k : Nat) :
    answer (repeatUpTo more step (k + 1) s) n ts = answer (repeatUpTo more step k s') n us := by
  rw [answer_repeatUpTo, if_pos h, answer_bind_of_ok hs]

lemma answer_repeatWhile_stop {more : List Token → Bool} {step : σ → Parser σ} {ts : List Token}
    (h : more ts = false) (s : σ) (f : σ → Parser α) (n : Nat) :
    answer (repeatWhile more step s >>= f) n ts = answer (f s) n ts :=
  answer_bind_of_ok (answer_repeatUpTo_stop h n s n)

lemma answer_skipBreaks_bind {k : Token} (hk : k.kind ≠ .newline) (f : Unit → Parser α) (n : Nat)
    (ts : List Token) : answer (skipBreaks >>= f) n (k :: ts) = answer (f ()) n (k :: ts) := by
  refine (answer_modify_bind _ _ n _).trans ?_
  rw [List.dropWhile_cons_of_neg (by simp [hk])]

/-! ## The variables of a predicate -/

section Binders

variable {commas : Bool} {t u : Token} {ts : List Token}

lemma isVariable_eq_false (h : t.kind ≠ .name) : t.isVariable = false := by
  simp [Token.isVariable, h]

lemma binders?_eq_none (h : (tokenAt ts 0).isVariable = false) : binders? commas ts = none := by
  cases ts with
  | nil => rfl
  | cons t ts =>
    have front : t.isVariable = false := h
    rw [binders?.eq_def]
    simp [front]

lemma binders?_variable (h : t.isVariable) :
    binders? commas (t :: u :: ts) =
      if u.kind = .mark .colon then some ([⟨t.position, ⟨t.text, none⟩⟩], ts)
      else if u.kind = .mark .comma ∧ commas then
        (binders? commas ts).map fun (bs, left) => (⟨t.position, ⟨t.text, none⟩⟩ :: bs, left)
      else none := by
  rw [binders?.eq_def]
  obtain ⟨kind, text, position⟩ := u
  cases kind with
  | mark p => cases p <;> cases commas <;> simp [h]
  | _ => simp [h]

lemma answer_binders_bind (commas : Bool) (f : List Binder → Parser α) (n : Nat)
    (ts : List Token) :
    answer (binders commas >>= f) n ts =
      match binders? commas ts with
      | some (bs, left) => answer (f bs) n left
      | none => answer (f []) n ts := by
  have run : answer (binders commas >>= f) n ts = answer ((match binders? commas ts with
      | some (bs, left) => (do set left; return bs)
      | none => return [] : Parser (List Binder)) >>= f) n ts := rfl
  rw [run]
  cases binders? commas ts <;> rfl

end Binders

end Parser

lemma reading_eq_ok {α : Type} {p : Parser α} {text : String} {a : α} :
    reading p text = .ok a ↔ ∃ tokens r, tokenize text = .ok tokens ∧
      Parser.answer p tokens.length tokens = .ok (a, r) := by
  rw [reading]
  cases tokenize text with
  | error e => simp
  | ok tokens =>
    change (Parser.answer p tokens.length tokens).map Prod.fst = .ok a ↔ _
    cases h : Parser.answer p tokens.length tokens <;> simp [Except.map, h, Prod.ext_iff]

lemma runParser_eq_ok {α : Type} {p : Parser α} {text : String} {a : α} :
    runParser p text = .ok a ↔ ∃ tokens r, tokenize text = .ok tokens ∧
      Parser.answer p tokens.length tokens = .ok (a, r) := by
  rw [← reading_eq_ok, runParser]
  rcases reading p text with (e | _ | _) | a <;> simp

end TypeNotation
