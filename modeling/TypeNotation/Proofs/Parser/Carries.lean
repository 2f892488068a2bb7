import TypeNotation.Proofs.Parser.Reading
import TypeNotation.Proofs.Parser.Seam

/-!
# Productions and seams

A production *carries* over an exchange at a seam if, whenever it answers on what came after the
seam before, it takes only tokens before the seam, and does so with the same answer, at the moved
positions, on what comes after the seam now.  The rules below say how productions carry that are put
together from others.

Inside brackets a comma may be taken that stands behind the seam.  What goes on there fails in the
end, so that such a production has *strayed*.
-/

namespace TypeNotation

namespace Parser

variable {α β σ : Type}

/-! ## Productions behind the seam -/

/-- On nothing but commas and the end a production fails or, if it may stray, leaves nothing else.
-/
def Strays (stray : Prop) (p : Parser α) : Prop :=
  ∀ n ts a rest, Barren ts → answer p n ts = .ok (a, rest) → stray ∧ Barren rest

/-- On nothing but commas and the end a production fails. -/
abbrev Refuses (p : Parser α) : Prop :=
  Strays False p

section Strays

variable {stray : Prop}

lemma Refuses.strays {p : Parser α} (h : Refuses p) : Strays stray p :=
  fun n ts a rest barren ha => (h n ts a rest barren ha).1.elim

lemma strays_pure (a : α) : Strays True (pure a) := by
  intro n ts b rest barren ha
  cases ha
  exact ⟨trivial, barren⟩

lemma strays_throw (e : Stop) : Strays stray (throw e : Parser α) := by
  intro n ts a rest _ h
  cases h

lemma strays_refuse (expected : String) : Strays stray (refuse expected : Parser α) := by
  intro n ts a rest _ h
  cases h

lemma Refuses.bind {p : Parser α} (h : Refuses p) (f : α → Parser β) :
    Strays stray (p >>= f) := by
  intro n ts b rest barren hb
  obtain ⟨a, us, ha, -⟩ := answer_bind_eq_ok.1 hb
  exact (h n ts a us barren ha).1.elim

lemma strays_asks {question : List Token → Bool} {f : Bool → Parser α}
    (h : ∀ b, Strays stray (f b)) : Strays stray (asks question >>= f) :=
  fun n ts a rest barren ha => h _ n ts a rest barren ha

lemma strays_asksMark {p : Punctuation} (hp : p ≠ .comma) {f : Bool → Parser α}
    (h : Strays stray (f false)) : Strays stray (asks (frontIsMark p) >>= f) := by
  intro n ts a rest barren ha
  have absent : frontIsMark p ts = false := barren.frontIs (by simp [hp])
  change answer (f (frontIsMark p ts)) n ts = _ at ha
  rw [absent] at ha
  exact h n ts a rest barren ha

lemma strays_peek {f : Token → Parser α}
    (h : ∀ t : Token, t.kind = .mark .comma ∨ t.kind = .finish → Strays stray (f t)) :
    Strays stray (peek >>= f) :=
  fun n ts a rest barren ha => h _ (barren.kind_tokenAt 0) n ts a rest barren ha

lemma strays_modify {g : List Token → List Token} {f : Unit → Parser α}
    (hg : ∀ ts, Barren ts → Barren (g ts)) (h : Strays stray (f ())) :
    Strays stray (modify g >>= f) :=
  fun n ts a rest barren ha => h n _ a rest (hg ts barren) ha

lemma strays_dropWhile (P : Token → Bool) {f : Unit → Parser α} (h : Strays stray (f ())) :
    Strays stray (modify (List.dropWhile P) >>= f) :=
  strays_modify (fun _ barren => barren.dropWhile P) h

lemma strays_takeMark {p : Punctuation} (hp : p ≠ .comma) (f : Unit → Parser α) :
    Strays stray (takeMark p >>= f) :=
  Refuses.bind (strays_asksMark hp (strays_refuse _)) f

lemma strays_after_takeMark (p : Punctuation) {f : Unit → Parser α} (h : Strays stray (f ())) :
    Strays stray (takeMark p >>= f) := by
  intro n ts a rest barren ha
  obtain ⟨_, us, ht, ha⟩ := answer_bind_eq_ok.1 ha
  obtain ⟨-, rfl⟩ := answer_takeMark_eq_ok.1 ht
  exact h n _ a rest barren.tail ha

end Strays

/-! ## Carrying over -/

variable {J : Seam}

/-- What a production answers before the seam at first, it answers there in the end, and it leaves
the same.  Or it has strayed beyond the seam, if it may. -/
def Carried (J : Seam) (stray : Prop) (move : α → α) (Post : α → List Token → Prop)
    (p p' : Parser α) (n n' : Nat) (d : List Token) : Prop :=
  ∀ a r, answer p n (J.near d) = .ok (a, r) → (stray ∧ Barren r) ∨
    ∃ c e, d = c ++ e ∧ r = J.near e ∧ Post a c ∧ answer p' n' (J.far d) = .ok (move a, J.far e)

/-- A production carries over an exchange at a seam to another production, which answers the same
after a move.  The postcondition speaks of the answer and the tokens that are taken. -/
def Carries (J : Seam) (stray : Prop) (move : α → α) (Post : α → List Token → Prop)
    (p p' : Parser α) : Prop :=
  ∀ n n' d, d.length < n → n ≤ n' → Carried J stray move Post p p' n n' d

/-- A production carries over an exchange at a seam where a given token is at the front. -/
def CarriesAt (J : Seam) (t : Token) (stray : Prop) (move : α → α) (Post : α → List Token → Prop)
    (p p' : Parser α) : Prop :=
  ∀ n n' d, (t :: d).length < n → n ≤ n' → Carried J stray move Post p p' n n' (t :: d)

section Rules

variable {stray : Prop} {g : α → α} {g' : β → β} {Mid Post' : α → List Token → Prop}
  {Post : β → List Token → Prop}

lemma Carries.at_ {p p' : Parser β} (h : Carries J stray g' Post p p') (t : Token) :
    CarriesAt J t stray g' Post p p' :=
  fun n n' d => h n n' (t :: d)

lemma carries_pure {b : β} (h : Post b []) :
    Carries J stray g' Post (pure b) (pure (g' b)) := by
  intro n n' d _ _ a r ha
  cases ha
  exact .inr ⟨[], d, rfl, rfl, h, rfl⟩

lemma carries_return {b b' : β} (hb : b' = g' b) (h : Post b []) :
    Carries J stray g' Post (pure b) (pure b') :=
  hb ▸ carries_pure h

lemma carries_throw (e : Stop) (p' : Parser β) : Carries J stray g' Post (throw e) p' := by
  intro n n' d _ _ a r ha
  cases ha

lemma carries_refuse (expected expected' : String) :
    Carries J stray g' Post (refuse expected) (refuse expected') := by
  intro n n' d _ _ a r ha
  cases ha

lemma carries_refuse_bind (expected expected' : String) (f f' : α → Parser β) :
    Carries J stray g' Post (refuse expected >>= f) (refuse expected' >>= f') := by
  intro n n' d _ _ a r ha
  cases ha

lemma carries_throw_bind (e e' : Stop) (f f' : α → Parser β) :
    Carries J stray g' Post (throw e >>= f) (throw e' >>= f') := by
  intro n n' d _ _ a r ha
  cases ha

lemma Carries.mono {p p' : Parser α} (h : Carries J stray g Mid p p')
    (hpost : ∀ a c, Mid a c → Post' a c) : Carries J stray g Post' p p' := by
  intro n n' d hn hn' a r ha
  rcases h n n' d hn hn' a r ha with strayed | ⟨c, e, hd, hr, post, ha'⟩
  · exact .inl strayed
  · exact .inr ⟨c, e, hd, hr, hpost a c post, ha'⟩

/-- A choice that is made the same way on both sides. -/
lemma Carries.ite {p p' q q' : Parser β} {c c' : Prop} [Decidable c] [Decidable c']
    (hc : c' ↔ c) (hp : c → Carries J stray g' Post p p')
    (hq : ¬ c → Carries J stray g' Post q q') :
    Carries J stray g' Post (if c then p else q) (if c' then p' else q') := by
  by_cases h : c
  · rw [if_pos h, if_pos (hc.2 h)]
    exact hp h
  · rw [if_neg h, if_neg (mt hc.1 h)]
    exact hq h

lemma CarriesAt.ite {t : Token} {p p' q q' : Parser β} {c c' : Prop} [Decidable c] [Decidable c']
    (hc : c' ↔ c) (hp : c → CarriesAt J t stray g' Post p p')
    (hq : ¬ c → CarriesAt J t stray g' Post q q') :
    CarriesAt J t stray g' Post (if c then p else q) (if c' then p' else q') := by
  by_cases h : c
  · rw [if_pos h, if_pos (hc.2 h)]
    exact hp h
  · rw [if_neg h, if_neg (mt hc.1 h)]
    exact hq h

/-- One production after another. -/
lemma Carried.bind {p p' : Parser α} {f f' : α → Parser β} {n n' : Nat} {d : List Token}
    (hd : d.length < n) (hn : n ≤ n') (hp : Carried J False g Mid p p' n n' d)
    (hf : ∀ a c, Mid a c →
      Carries J stray g' (fun b e => Post b (c ++ e)) (f a) (f' (g a))) :
    Carried J stray g' Post (p >>= f) (p' >>= f') n n' d := by
  intro b r hb
  obtain ⟨a, us, ha, hb⟩ := answer_bind_eq_ok.1 hb
  rcases hp a us ha with ⟨⟨⟩, -⟩ | ⟨c, e, rfl, rfl, post, ha'⟩
  rw [List.length_append] at hd
  rcases hf a c post n n' e (by omega) hn b r hb with strayed | ⟨c', e', rfl, hr, post', hb'⟩
  · exact .inl strayed
  · refine .inr ⟨c ++ c', e', (List.append_assoc ..).symm, hr, post', ?_⟩
    exact answer_bind_eq_ok.2 ⟨_, _, ha', hb'⟩

lemma Carries.bind {p p' : Parser α} {f f' : α → Parser β} (hp : Carries J False g Mid p p')
    (hf : ∀ a c, Mid a c →
      Carries J stray g' (fun b e => Post b (c ++ e)) (f a) (f' (g a))) :
    Carries J stray g' Post (p >>= f) (p' >>= f') :=
  fun n n' d hd hn => .bind hd hn (hp n n' d hd hn) hf

/-- One of two productions, chosen the same way on both sides, before another one. -/
lemma Carries.ite_bind {b : Bool} {p p' q q' : Parser α} {f f' : α → Parser β}
    (hp : Carries J False g Mid p p') (hq : Carries J False g Mid q q')
    (hf : ∀ a c, Mid a c →
      Carries J stray g' (fun b e => Post b (c ++ e)) (f a) (f' (g a))) :
    Carries J stray g' Post (if b then p >>= f else q >>= f)
      (if b then p' >>= f' else q' >>= f') :=
  .ite .rfl (fun _ => hp.bind hf) fun _ => hq.bind hf

/-- A question that has the same answer on both sides. -/
lemma carries_asks {question : List Token → Bool} {f f' : Bool → Parser β}
    (h : J.Agrees question) (hf : ∀ b, Carries J stray g' Post (f b) (f' b)) :
    Carries J stray g' Post (asks question >>= f) (asks question >>= f') := by
  intro n n' d hd hn b r hb
  rcases hf _ n n' d hd hn b r hb with strayed | ⟨c, e, hd, hr, post, hb'⟩
  · exact .inl strayed
  · refine .inr ⟨c, e, hd, hr, post, ?_⟩
    rw [h d] at hb'
    exact hb'

/-- A question about the token at the front, which is none of those that came after the seam unless
the production strays. -/
lemma carries_asksFront {question : List Token → Bool} {f f' : Bool → Parser β}
    (strays : Strays stray (asks question >>= f))
    (h : ∀ t d, question (J.near (t :: d)) = question (J.far (t :: d)))
    (hf : ∀ b, Carries J stray g' Post (f b) (f' b)) :
    Carries J stray g' Post (asks question >>= f) (asks question >>= f') := by
  intro n n' d hd hn b r hb
  cases d with
  | nil => exact .inl (strays n _ b r J.barren hb)
  | cons t d =>
    rcases hf _ n n' (t :: d) hd hn b r hb with strayed | ⟨c, e, hd, hr, post, hb'⟩
    · exact .inl strayed
    · refine .inr ⟨c, e, hd, hr, post, ?_⟩
      rw [h t d] at hb'
      exact hb'

/-- A look at the token at the front. -/
lemma carries_peek {f f' : Token → Parser β} (strays : Strays stray (peek >>= f))
    (hf : ∀ t, CarriesAt J t stray g' Post (f t) (f' (t.relocate J.move))) :
    Carries J stray g' Post (peek >>= f) (peek >>= f') := by
  intro n n' d hd hn b r hb
  cases d with
  | nil => exact .inl (strays n _ b r J.barren hb)
  | cons t d => exact hf t n n' d hd hn b r hb

/-- The token at the front is taken. -/
lemma CarriesAt.tail {t : Token} {f f' : Unit → Parser β}
    (hf : Carries J stray g' (fun b e => Post b (t :: e)) (f ()) (f' ())) :
    CarriesAt J t stray g' Post (modify List.tail >>= f) (modify List.tail >>= f') := by
  intro n n' d hd hn b r hb
  rw [List.length_cons] at hd
  rcases hf n n' d (by omega) hn b r hb with strayed | ⟨c, e, rfl, hr, post, hb'⟩
  · exact .inl strayed
  · exact .inr ⟨t :: c, e, rfl, hr, post, hb'⟩

/-- A mark is taken. -/
lemma carries_takeMark {p : Punctuation} {f f' : Unit → Parser β}
    (strays : Strays stray (takeMark p >>= f))
    (hf : ∀ t : Token, t.kind = .mark p →
      Carries J stray g' (fun b e => Post b (t :: e)) (f ()) (f' ())) :
    Carries J stray g' Post (takeMark p >>= f) (takeMark p >>= f') := by
  intro n n' d hd hn b r hb
  cases d with
  | nil => exact .inl (strays n _ b r J.barren hb)
  | cons t d =>
    obtain ⟨a, us, ha, hb⟩ := answer_bind_eq_ok.1 hb
    obtain ⟨front, rfl⟩ := answer_takeMark_eq_ok.1 ha
    rw [List.length_cons] at hd
    rcases hf t (of_decide_eq_true front) n n' d (by omega) hn b r hb with
      strayed | ⟨c, e, rfl, hr, post, hb'⟩
    · exact .inl strayed
    · exact .inr ⟨t :: c, e, rfl, hr, post,
        answer_bind_eq_ok.2 ⟨(), _, answer_takeMark_eq_ok.2 ⟨front, rfl⟩, hb'⟩⟩

/-- Tokens are passed over. -/
lemma carries_dropWhile {P : Token → Bool} (moved : ∀ t, P (t.relocate J.move) = P t)
    {f f' : Unit → Parser β} (strays : Strays stray (f ()))
    (hf : ∀ passed, Carries J stray g' (fun b e => Post b (passed ++ e)) (f ()) (f' ())) :
    Carries J stray g' Post (modify (List.dropWhile P) >>= f)
      (modify (List.dropWhile P) >>= f') := by
  intro n n' d hd hn b r hb
  induction d generalizing Post with
  | nil => exact .inl (strays n _ b r (J.barren.dropWhile P) hb)
  | cons t d ih =>
    rw [List.length_cons] at hd
    change answer (f ()) n (List.dropWhile P (t :: J.near d)) = .ok (b, r) at hb
    by_cases ht : P t = true
    · have far : answer (modify (List.dropWhile P) >>= f') n' (J.far (t :: d)) =
          answer (modify (List.dropWhile P) >>= f') n' (J.far d) := by
        change answer (f' ()) n' (List.dropWhile P (t.relocate J.move :: J.far d)) =
          answer (f' ()) n' (List.dropWhile P (J.far d))
        rw [List.dropWhile_cons, moved, if_pos ht]
      rw [List.dropWhile_cons, if_pos ht] at hb
      have rest := @ih (fun b e => Post b (t :: e)) (fun passed => hf (t :: passed)) (by omega) hb
      rcases rest with strayed | ⟨c, e, rfl, hr, post, hb'⟩
      · exact .inl strayed
      · exact .inr ⟨t :: c, e, rfl, hr, post, far.trans hb'⟩
    · have far : answer (modify (List.dropWhile P) >>= f') n' (J.far (t :: d)) =
          answer (f' ()) n' (J.far (t :: d)) := by
        change answer (f' ()) n' (List.dropWhile P (t.relocate J.move :: J.far d)) = _
        rw [List.dropWhile_cons, moved, if_neg ht]
        rfl
      rw [List.dropWhile_cons, if_neg ht] at hb
      rw [far]
      exact hf [] n n' (t :: d) (by rwa [List.length_cons]) hn b r hb

/-- The number of tokens is asked for. -/
lemma carries_read {f f' : Nat → Parser β}
    (hf : ∀ n n', n ≤ n' → Carries J stray g' Post (f n) (f' n')) :
    Carries J stray g' Post (read >>= f) (read >>= f') :=
  fun n n' d hd hn => hf n n' hn n n' d hd hn

/-- An answer that does not depend on the tokens. -/
lemma carries_lift {x x' : Except Stop β}
    (h : ∀ b, x = .ok b → x' = .ok (g' b) ∧ Post b []) :
    Carries J stray g' Post (ofResult x) (ofResult x') := by
  intro n n' d _ _ b r hb
  cases x with
  | error e => cases hb
  | ok b =>
    cases hb
    obtain ⟨rfl, post⟩ := h b rfl
    exact .inr ⟨[], d, rfl, rfl, post, rfl⟩

/-! ### Repetition -/

/-- What each round of a repetition keeps holds of its result. -/
lemma carries_repeatWhile {more : List Token → Bool} (agrees : J.Agrees more)
    {step step' : α → Parser α} {Inv : α → List Token → Prop} {s : α} (start : Inv s [])
    (hstep : ∀ s c, Inv s c → Carries J False g (fun s' e => e ≠ [] ∧ Inv s' (c ++ e)) (step s)
      (step' (g s))) :
    Carries J False g Inv (repeatWhile more step s) (repeatWhile more step' (g s)) := by
  -- The rounds do not run out, since each of them takes a token before the seam.
  have rounds (k k' : Nat) (s : α) (c : List Token) (inv : Inv s c) (n n' : Nat) (d : List Token)
      (hk : d.length < k) (hk' : d.length < k') (hd : d.length < n) (hn : n ≤ n') :
      Carried J False g (fun s e => Inv s (c ++ e)) (repeatUpTo more step k s)
        (repeatUpTo more step' k' (g s)) n n' d := by
    induction k generalizing k' s c d with
    | zero => exact absurd hk (Nat.not_lt_zero _)
    | succ k ih =>
      obtain ⟨k', rfl⟩ := Nat.exists_eq_succ_of_ne_zero (Nat.ne_zero_of_lt hk')
      intro b r hb
      rw [answer_repeatUpTo] at hb
      rw [answer_repeatUpTo, ← agrees d]
      by_cases goesOn : more (J.near d) = true
      · rw [if_pos goesOn] at hb ⊢
        obtain ⟨s', us, hs, hb⟩ := answer_bind_eq_ok.1 hb
        rcases hstep s c inv n n' d hd hn s' us hs with ⟨⟨⟩, -⟩ | ⟨c', e, rfl, rfl, post, hs'⟩
        have progress := List.length_pos_iff.2 post.1
        rw [List.length_append] at hk hk' hd
        rcases ih k' s' (c ++ c') post.2 e (by omega) (by omega) (by omega) b r hb with
          ⟨⟨⟩, -⟩ | ⟨c'', e', rfl, hr, post', hb'⟩
        exact .inr ⟨c' ++ c'', e', (List.append_assoc ..).symm, hr,
          by simpa only [List.append_assoc] using post', answer_bind_eq_ok.2 ⟨_, _, hs', hb'⟩⟩
      · rw [if_neg goesOn] at hb ⊢
        cases hb
        exact .inr ⟨[], d, rfl, rfl, by simpa only [List.append_nil] using inv, rfl⟩
  exact fun n n' d hd hn => rounds n n' s [] start n n' d hd (by omega) hd hn

/-- A repetition of productions that end with an operand. -/
lemma carries_repeatEnds {more : List Token → Bool} (agrees : J.Agrees more)
    {step step' : α → Parser α}
    (hstep : ∀ s, Carries J False g (fun _ => Ends) (step s) (step' (g s))) (s : α) :
    Carries J False g (fun _ c => c = [] ∨ Ends c) (repeatWhile more step s)
      (repeatWhile more step' (g s)) :=
  carries_repeatWhile agrees (.inl rfl) fun s c _ => (hstep s).mono fun _ _ ends =>
    ⟨ends.ne_nil, .inr (ends.append_right c)⟩

/-- A list that grows by one element. -/
lemma carries_snoc {p p' : Parser α} (hp : Carries J False g Mid p p') (xs : List α)
    {Post : List α → List Token → Prop} (h : ∀ a c, Mid a c → Post (xs ++ [a]) c) :
    Carries J stray (List.map g) Post (do return xs ++ [← p])
      (do return xs.map g ++ [← p']) :=
  hp.bind fun a c ha => carries_return (by simp) (by simpa using h a c ha)

lemma strays_enclosed {closer : Punctuation} (hcloser : closer ≠ .comma)
    {step : α → Parser α} (hstep : ∀ s, Refuses (step s)) (s : α) (f : α → Parser β) (k : Nat) :
    Strays stray (repeatUpTo (fun tokens => !frontIsMark closer tokens) step k s >>= fun s =>
      takeMark closer >>= fun _ => f s) := by
  intro n ts b rest barren hb
  have opened : frontIsMark closer ts = false := barren.frontIs (by simp [hcloser])
  cases k with
  | zero =>
    obtain ⟨s', us, hs, -⟩ := answer_bind_eq_ok.1 hb
    rw [answer_repeatUpTo_zero, opened] at hs
    cases hs
  | succ k =>
    obtain ⟨s', us, hs, -⟩ := answer_bind_eq_ok.1 hb
    rw [answer_repeatUpTo, opened] at hs
    exact (((hstep s).bind _ : Refuses _) n ts s' us barren hs).1.elim

lemma strays_upTo {closer : Punctuation} (hcloser : closer ≠ .comma)
    {step : α → Parser α} (hstep : ∀ s, Refuses (step s)) (s : α) (f : α → Parser β) :
    Strays stray (repeatWhile (fun tokens => !frontIsMark closer tokens) step s >>= fun s =>
      takeMark closer >>= fun _ => f s) :=
  fun n => strays_enclosed hcloser hstep s f n n

/-- What is repeated up to a closing bracket.  In a round more may be taken than stands before the
seam, but there is no closing bracket then. -/
lemma carries_enclosed {closer : Punctuation} (hcloser : closer.isCloser)
    {step step' : α → Parser α} (refuses : ∀ s, Refuses (step s))
    (hstep : ∀ s, Carries J True g (fun _ e => e ≠ []) (step s) (step' (g s))) (s : α) :
    Carries J False g (fun _ c => Ends c)
      (repeatWhile (fun tokens => !frontIsMark closer tokens) step s >>= fun s =>
        takeMark closer >>= fun _ => pure s)
      (repeatWhile (fun tokens => !frontIsMark closer tokens) step' (g s) >>= fun s =>
        takeMark closer >>= fun _ => pure s) := by
  have hcomma : closer ≠ .comma := by
    rintro rfl
    cases hcloser
  have agrees : J.Agrees (frontIsMark closer) := Seam.agrees_frontIsMark hcomma
  have rounds (k k' : Nat) (s : α) (n n' : Nat) (d : List Token)
      (hk : d.length < k) (hk' : d.length < k') (hd : d.length < n) (hn : n ≤ n') :
      Carried J False g (fun _ c => Ends c)
        (repeatUpTo (fun tokens => !frontIsMark closer tokens) step k s >>= fun s =>
          takeMark closer >>= fun _ => pure s)
        (repeatUpTo (fun tokens => !frontIsMark closer tokens) step' k' (g s) >>= fun s =>
          takeMark closer >>= fun _ => pure s) n n' d := by
    induction k generalizing k' s d with
    | zero => exact absurd hk (Nat.not_lt_zero _)
    | succ k ih =>
      obtain ⟨k', rfl⟩ := Nat.exists_eq_succ_of_ne_zero (Nat.ne_zero_of_lt hk')
      intro b r hb
      rw [answer_repeatUpTo_bind] at hb
      rw [answer_repeatUpTo_bind, ← agrees d]
      by_cases closes : frontIsMark closer (J.near d) = true
      · rw [closes] at hb ⊢
        have taken : Carries J False g (fun _ c => Ends c) (takeMark closer >>= fun _ => pure s)
            (takeMark closer >>= fun _ => pure (g s)) :=
          carries_takeMark (strays_takeMark hcomma _) fun t ht =>
            carries_pure (.singleton (by rw [ht]; simp [TokenKind.endsOperand, hcloser]))
        exact taken n n' d hd hn b r hb
      · rw [Bool.not_eq_true] at closes
        rw [closes] at hb ⊢
        obtain ⟨s', us, hs, hb⟩ := answer_bind_eq_ok.1 hb
        rcases hstep s n n' d hd hn s' us hs with ⟨-, barren⟩ | ⟨c, e, rfl, rfl, post, hs'⟩
        · exact .inl (strays_enclosed hcomma refuses s' pure k n us b r barren hb)
        · have progress := List.length_pos_iff.2 post
          rw [List.length_append] at hk hk' hd
          rcases ih k' s' e (by omega) (by omega) (by omega) b r hb with
            ⟨⟨⟩, -⟩ | ⟨c', e', rfl, hr, ends, hb'⟩
          exact .inr ⟨c ++ c', e', (List.append_assoc ..).symm, hr, ends.append_right c,
            answer_bind_eq_ok.2 ⟨_, _, hs', hb'⟩⟩
  exact fun n n' d hd hn => rounds n n' s n n' d hd (by omega) hd hn

end Rules

end Parser

end TypeNotation
