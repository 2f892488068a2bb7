import TypeNotation.Proofs.Parser.Grammar

/-!
# Productions by level

Every binding level has a production.  A production *finds* a type if it answers the type on tokens
that start with a phrase and leaves all others, whatever they are, so long as the first of them has
no grip on the phrase.

The production of an operator reads a chain from left to right.  So a type that it has found is also
on the way to a longer chain: after the tokens of the type, the production has *arrived* at another
round of its repetition.  From there the induction over a chain goes on.  What one production finds
is found by those of all looser levels as well.
-/

namespace TypeNotation

open TypeExpr

namespace Parser

/-! ## Productions by level -/

/-- The production of a level.  The bound is on how deeply types stand inside brackets. -/
def production (bound : Nat) (commas : Bool) : Level → Parser TypeExpr
  | .predicate => Parser.type (bound + 1) ⟨commas, false⟩
  | .function => Parser.function (Parser.type bound) ⟨commas, false⟩
  | .bar => alternatives (Parser.type bound) ⟨commas, false⟩
  | .union => Parser.union (Parser.type bound) commas
  | .complement => Parser.complement (Parser.type bound) commas
  | .delegation => Parser.delegation (Parser.type bound) commas
  | .application => Parser.application (Parser.type bound)
  | .atom => Parser.atom (Parser.type bound)

/-- The production of a level finds a type at the front of any tokens which start with the given
ones, and leaves the others, unless these have a grip on the type. -/
def Finds (ℓ : Level) (ts : List Token) (t : TypeExpr) : Prop :=
  ∀ bound n commas rest, ts.length ≤ bound → ts.length ≤ n →
    frontGrip commas rest ≤ ℓ.strength →
    ∃ u, answer (production bound commas ℓ) n (ts ++ rest) = .ok (u, rest) ∧ u.same t = true

/-! ### Chains of operators -/

/-- An operator with what stands on its right, after what stands on its left. -/
def operation (type : TypeParser) (commas : Bool) (start : Position) (left : TypeExpr) :
    Operator → Parser TypeExpr
  | .union => do
    takeMark .plus
    return .union (.written start) left (← complement type commas)
  | .complement => do
    takeMark .backslash
    return .complement (.written start) left (← delegation type commas)
  | .delegation => do
    takeMark .delegates
    let first ← application type
    let targets ← repeatWhile (commaContinues commas) (fun targets => do
      takeMark .comma
      return targets ++ [← application type]) [first]
    return .delegation (.written start) left targets

lemma production_operator (bound : Nat) (commas : Bool) (o : Operator) :
    production bound commas o.level = (do
      let start ← peek
      let first ← production bound commas o.tighter
      repeatWhile (frontIsMark o.mark)
        (operation (Parser.type bound) commas start.position · o) first) := by
  cases o <;> rfl

lemma answer_operation {bound n : Nat} {commas : Bool} {o : Operator} {start : Position}
    {k : Token} {us rest : List Token} {l r : TypeExpr} (hk : k.kind = .mark o.mark)
    (hrest : frontGrip commas rest ≤ o.tighter.strength)
    (hr : answer (production bound commas o.tighter) n us = .ok (r, rest)) :
    answer (operation (Parser.type bound) commas start l o) n (k :: us) =
      .ok (o.node (.written start) l r, rest) := by
  cases o with
  | union =>
    refine (answer_takeMark_bind hk _ n us).trans ?_
    exact answer_bind_of_ok (f := fun r => pure _) hr
  | complement =>
    refine (answer_takeMark_bind hk _ n us).trans ?_
    exact answer_bind_of_ok (f := fun r => pure _) hr
  | delegation =>
    refine (answer_takeMark_bind hk _ n us).trans ?_
    refine (answer_bind_of_ok (p := application (Parser.type bound)) hr).trans ?_
    rw [answer_repeatWhile_stop (commaContinues_of_grip (Nat.le_trans hrest (by decide)))]
    rfl

/-- Within the production of an operator, the given tokens are read before any others that have no
grip on operands: a type has been found on the left and there are rounds left for the rest. -/
def Arrives (o : Operator) (ts : List Token) (t : TypeExpr) : Prop :=
  ∀ bound n commas rest, ts.length ≤ bound → ts.length ≤ n →
    frontGrip commas rest ≤ o.tighter.strength →
    ∃ u k start, u.same t = true ∧ n ≤ k + ts.length ∧
      answer (production bound commas o.level) n (ts ++ rest) =
        answer (repeatUpTo (frontIsMark o.mark)
          (operation (Parser.type bound) commas start · o) k u) n rest

lemma arrives_of_finds {o : Operator} {ts : List Token} {t : TypeExpr}
    (h : Finds o.tighter ts t) : Arrives o ts t := by
  intro bound n commas rest hbound hn hrest
  obtain ⟨u, hu, same⟩ := h bound n commas rest hbound hn hrest
  refine ⟨u, n, (tokenAt (ts ++ rest) 0).position, same, Nat.le_add_right _ _, ?_⟩
  rw [production_operator, answer_peek_bind, answer_bind_of_ok hu]
  rfl

lemma Arrives.operation {o : Operator} {ts us : List Token} {k : Token} {l r : TypeExpr}
    (hl : Arrives o ts l) (hk : k.kind = .mark o.mark) (hr : Finds o.tighter us r) (m : Mark) :
    Arrives o (ts ++ k :: us) (o.node m l r) := by
  intro bound n commas rest hbound hn hrest
  rw [List.length_append, List.length_cons] at hbound hn
  have grip : frontGrip commas (k :: us ++ rest) ≤ o.tighter.strength := by
    refine Nat.le_of_eq ?_
    rw [List.cons_append, frontGrip_cons, hk, grip_operator]
  obtain ⟨u, rounds, start, left, enough, arrives⟩ :=
    hl bound n commas (k :: us ++ rest) (by omega) (by omega) grip
  obtain ⟨v, hv, right⟩ := hr bound n commas rest (by omega) (by omega) hrest
  obtain ⟨rounds, rfl⟩ : ∃ j, rounds = j + 1 := ⟨rounds - 1, by omega⟩
  refine ⟨o.node (.written start) u v, rounds, start, Operator.node_same left right, ?_, ?_⟩
  · rw [List.length_append, List.length_cons]
    omega
  · rw [List.append_assoc, arrives]
    exact answer_repeatUpTo_step (by simp [frontIsMark, frontIs, tokenAt, hk])
      (answer_operation hk hrest hv) rounds

lemma Arrives.finds {o : Operator} {ts : List Token} {t : TypeExpr} (h : Arrives o ts t) :
    Finds o.level ts t := by
  intro bound n commas rest hbound hn hrest
  have looser : o.level.strength < o.tighter.strength := by cases o <;> decide
  obtain ⟨u, k, start, same, -, arrives⟩ :=
    h bound n commas rest hbound hn (Nat.le_trans hrest (Nat.le_of_lt looser))
  refine ⟨u, ?_, same⟩
  rw [arrives]
  refine answer_repeatUpTo_stop (frontIsMark_of_grip hrest fun commas => ?_) k u n
  rwa [grip_operator]

/-! ### Looser levels -/

lemma Finds.alternatives {ts : List Token} {t : TypeExpr} (h : Finds .union ts t) :
    Finds .bar ts t := by
  intro bound n commas rest hbound hn hrest
  obtain ⟨u, hu, same⟩ := h bound n commas rest hbound hn (Nat.le_trans hrest (by decide))
  have bar : frontIsMark .bar rest = false := frontIsMark_of_grip hrest (by decide)
  refine ⟨u, ?_, same⟩
  rw [production, Parser.alternatives, answer_peek_bind]
  refine (answer_bind_of_ok hu).trans ?_
  rw [answer_repeatWhile_stop bar]
  rfl

lemma Finds.function {ts : List Token} {t : TypeExpr} (starts : ∃ k us, ts = k :: us ∧
    k.kind.startsType = true) (h : Finds .bar ts t) : Finds .function ts t := by
  intro bound n commas rest hbound hn hrest
  obtain ⟨u, hu, same⟩ := h bound n commas rest hbound hn (Nat.le_trans hrest (by decide))
  obtain ⟨k, us, rfl, starts⟩ := starts
  have question : frontIsMark .question rest = false := frontIsMark_of_grip hrest (by decide)
  have ellipsis : frontIsMark .ellipsis rest = false := frontIsMark_of_grip hrest (by decide)
  have arrow : frontIsMark .arrow (k :: us ++ rest) = false := by
    rw [frontIsMark, frontIs, decide_eq_false_iff_not]
    intro hk
    rw [show k.kind = _ from hk] at starts
    cases starts
  have one : answer (parameters (Parser.type bound) ⟨commas, false⟩) n (k :: us ++ rest) =
      .ok ([⟨u, .none, some k.position⟩], rest) := by
    have param : answer (parameter (Parser.type bound) ⟨commas, false⟩) n (k :: us ++ rest) =
        .ok (⟨u, .none, some k.position⟩, rest) := by
      rw [parameter, answer_peek_bind]
      refine (answer_bind_of_ok hu).trans ?_
      rw [answer_asks_bind, question]
      simp only [Bool.false_eq_true, if_false]
      rw [answer_asks_bind, ellipsis]
      rfl
    rw [parameters, answer_bind_of_ok param]
    exact answer_repeatUpTo_stop (commaContinues_of_grip (Nat.le_trans hrest (by decide))) _ _ _
  refine ⟨u, ?_, same⟩
  rw [production, Parser.function, answer_peek_bind, answer_asks_bind, arrow]
  refine (answer_bind_of_ok one).trans ?_
  rw [answer_repeatWhile_stop (frontIsMark_of_grip hrest (by decide))]
  rfl

lemma Finds.type {ts : List Token} {t : TypeExpr}
    (free : ∀ commas rest, frontGrip commas rest ≤ Level.predicate.strength →
      binders? commas (ts ++ rest) = none) (h : Finds .function ts t) : Finds .predicate ts t := by
  intro bound n commas rest hbound hn hrest
  obtain ⟨u, hu, same⟩ := h bound n commas rest hbound hn (Nat.le_trans hrest (by decide))
  have implies : frontIsMark .implies rest = false := frontIsMark_of_grip hrest (by decide)
  refine ⟨u, ?_, same⟩
  rw [production, Parser.type, answer_peek_bind, answer_binders_bind, free commas rest hrest]
  refine (answer_bind_of_ok hu).trans ?_
  rw [answer_asks_bind, implies]
  rfl

/-! ### All levels -/

/-- The productions of all levels up to a given one find a type, also where it is on the left of an
operator. -/
structure Found (ℓ : Level) (ts : List Token) (t : TypeExpr) : Prop where
  finds : ∀ ℓ' : Level, ℓ'.strength ≤ ℓ.strength → Finds ℓ' ts t
  arrives : ∀ o : Operator, o.level.strength ≤ ℓ.strength → Arrives o ts t

namespace Found

variable {ℓ ℓ' : Level} {ts : List Token} {t : TypeExpr}

lemma mono (h : Found ℓ ts t) (hℓ : ℓ'.strength ≤ ℓ.strength) : Found ℓ' ts t :=
  ⟨fun _ le => h.finds _ (Nat.le_trans le hℓ), fun _ le => h.arrives _ (Nat.le_trans le hℓ)⟩

lemma tighten (h : Found ℓ ts t) (next : ℓ'.strength = ℓ.strength + 1) (finds : Finds ℓ' ts t)
    (arrives : ∀ o : Operator, o.level = ℓ' → Arrives o ts t) : Found ℓ' ts t := by
  have split (k : Level) (hk : k.strength ≤ ℓ'.strength) : k.strength ≤ ℓ.strength ∨ k = ℓ' := by
    rcases Nat.lt_or_eq_of_le hk with lt | eq
    · exact .inl (by omega)
    · exact .inr (by cases k <;> cases ℓ' <;> first | rfl | cases eq)
  refine ⟨fun k hk => ?_, fun o ho => ?_⟩
  · rcases split k hk with le | rfl
    · exact h.finds k le
    · exact finds
  · rcases split o.level ho with le | eq
    · exact h.arrives o le
    · exact arrives o eq

end Found

lemma binders?_cons_of_grip {commas : Bool} {rest : List Token} (k : Token)
    (h : frontGrip commas rest ≤ Level.atom.strength) : binders? commas (k :: rest) = none := by
  cases hk : k.isVariable with
  | false => exact binders?_eq_none hk
  | true =>
    cases rest with
    | nil => simp [binders?.eq_def, hk]
    | cons u us =>
      rw [binders?_variable hk, if_neg, if_neg]
      · rintro ⟨comma, rfl⟩
        rw [frontGrip, show (tokenAt (u :: us) 0).kind = .mark .comma from comma] at h
        exact absurd h (by decide)
      · intro colon
        rw [frontGrip, show (tokenAt (u :: us) 0).kind = .mark .colon from colon] at h
        exact absurd h (by simp [TokenKind.grip, Level.strength])

/-- A phrase does not start with the variables of a predicate. -/
lemma binders?_phrase {commas : Bool} {ℓ : Level} {ts rest : List Token} {t : TypeExpr}
    (hrest : frontGrip commas rest ≤ Level.atom.strength) :
    Phrase ℓ ts t → binders? commas (ts ++ rest) = none
  | .looser _ ht => binders?_phrase hrest ht
  | .unit _ _ | .typeVariable _ _ | .name _ _ _ => binders?_cons_of_grip _ hrest
  | .number hx => by
    obtain ⟨k, us, y, rfl, hk⟩ := hx.exists_cons
    exact binders?_eq_none (isVariable_eq_false (by simp [tokenAt, hk]))
  | .interval hx _ _ _ => by
    obtain ⟨k, us, y, rfl, hk⟩ := hx.exists_cons
    exact binders?_eq_none (isVariable_eq_false (by simp [tokenAt, hk]))
  | .parentheses hk _ _ | .list hk _ _ _ | .tuple hk _ _ _ =>
    binders?_eq_none (isVariable_eq_false (by simp [tokenAt, hk]))
  | .application _ other _ _ => binders?_eq_none other
  | .operation o hl hk _ _ => by
    rw [List.append_assoc]
    refine binders?_phrase ?_ hl
    rw [List.cons_append, frontGrip_cons, hk, grip_operator]
    cases o <;> decide

section Phrases

variable {ℓ : Level} {ts : List Token} {t : TypeExpr}

lemma found_union (h : Phrase ℓ ts t) (arrives : Arrives .union ts t) : Found .union ts t := by
  have bar := arrives.finds.alternatives
  have function := bar.function h.exists_cons
  have type := function.type fun commas rest hrest =>
    binders?_phrase (Nat.le_trans hrest (by decide)) h
  refine ⟨fun ℓ' hℓ' => ?_, fun o ho => ?_⟩
  · cases ℓ' with
    | predicate => exact type
    | function => exact function
    | bar => exact bar
    | union => exact arrives.finds
    | complement | delegation | application | atom => exact absurd hℓ' (by decide)
  · cases o with
    | union => exact arrives
    | complement | delegation => exact absurd ho (by decide)

lemma found_operator (h : Phrase ℓ ts t) (o : Operator) (arrives : Arrives o ts t) :
    Found o.level ts t := by
  have complement (arrives : Arrives .complement ts t) : Found .complement ts t :=
    (found_union h (arrives_of_finds (o := .union) arrives.finds)).tighten rfl arrives.finds
      fun o ho => by
        cases o with
        | complement => exact arrives
        | union | delegation => cases ho
  cases o with
  | union => exact found_union h arrives
  | complement => exact complement arrives
  | delegation =>
    exact (complement (arrives_of_finds (o := .complement) arrives.finds)).tighten rfl arrives.finds
      fun o ho => by
        cases o with
        | delegation => exact arrives
        | union | complement => cases ho

lemma found_application (h : Phrase ℓ ts t) (finds : Finds .application ts t) :
    Found .application ts t :=
  (found_operator h .delegation (arrives_of_finds finds)).tighten rfl finds
    fun o ho => by cases o <;> cases ho

end Phrases

end Parser

end TypeNotation
