import Mathlib
import TypeNotation.Proofs.Parser.Locality

/-!
# Declarations of joined texts

A declaration ends where a line break, a comma or the end of the text comes after it, and what comes
after that does not change it.  So the declarations of two texts, joined by a line break or by a
comma, are those of the first and those of the second.
-/

namespace TypeNotation

namespace Parser

open TypeExpr

variable {J : Seam}

/-! ## One declaration -/

lemma refuses_declaredName : Refuses declaredName := by
  refine strays_peek fun token h => ?_
  have other : ¬ (token.kind = .name ∧ !token.isVariable) := by
    rintro ⟨name, -⟩
    rcases h with h | h <;> rw [h] at name <;> cases name
  dsimp only
  rw [if_neg other]
  split
  · exact Refuses.bind (strays_throw _) _
  · exact strays_refuse _

lemma carries_declaredName :
    Carries J False (Token.relocate J.move) (fun _ c => c ≠ []) declaredName declaredName := by
  refine carries_peek refuses_declaredName fun token => ?_
  dsimp only
  refine .ite .rfl (fun _ => (carries_throw_bind _ _ _ _).at_ token) fun _ => ?_
  refine .ite .rfl (fun _ => ?_) fun _ => (carries_refuse _ _).at_ token
  intro n n' d _ _ a r ha
  cases ha
  exact .inr ⟨[token], d, rfl, rfl, List.cons_ne_nil _ _, rfl⟩

lemma refuses_declaredParameter (earlier : List Binder) : Refuses (declaredParameter earlier) := by
  rw [declaredParameter, next_bind]
  refine strays_peek fun token h => strays_modify (fun _ barren => barren.tail) ?_
  have constant : token.isVariable = false := by
    refine isVariable_eq_false fun name => ?_
    rcases h with h | h <;> rw [h] at name <;> cases name
  dsimp only
  rw [if_pos (by simp [constant])]
  exact Refuses.bind (strays_throw _) _

lemma any_letter_relocate (f : Position → Position) (bs : List Binder) (letter : String) :
    (bs.map (Binder.relocate f)).any (·.var.letter = letter) =
      bs.any (·.var.letter = letter) := by
  rw [List.any_map]
  rfl

lemma carries_declaredParameter (earlier : List Binder) :
    Carries J False (Binder.relocate J.move) (fun _ c => c ≠ []) (declaredParameter earlier)
      (declaredParameter (earlier.map (Binder.relocate J.move))) := by
  have refuses := refuses_declaredParameter earlier
  rw [declaredParameter, next_bind] at refuses ⊢
  rw [declaredParameter, next_bind]
  refine carries_peek refuses fun token => .tail ?_
  dsimp only
  refine .ite .rfl (fun _ => carries_throw_bind _ _ _ _) fun _ => ?_
  refine .ite (by rw [any_letter_relocate]; rfl) (fun _ => carries_throw_bind _ _ _ _) fun _ => ?_
  exact carries_pure (List.cons_ne_nil _ _)

lemma carries_declaration :
    Carries J False (Declaration.relocate J.move) (fun _ => Ends) declaration declaration := by
  refine carries_declaredName.bind fun name c _ => ?_
  have parameters : Carries J False (List.map (Binder.relocate J.move)) (fun _ _ => True)
      (repeatWhile (frontIs .name)
        (fun parameters => return parameters ++ [← declaredParameter parameters]) [])
      (repeatWhile (frontIs .name)
        (fun parameters => return parameters ++ [← declaredParameter parameters]) []) :=
    carries_repeatWhile (Seam.agrees_frontIs (by simp)) trivial fun earlier c _ =>
      carries_snoc (carries_declaredParameter earlier) earlier fun _ _ taken => ⟨taken, trivial⟩
  refine parameters.bind fun bs c' _ => ?_
  refine carries_takeMark (strays_takeMark (by decide) _) fun colon _ => ?_
  refine carries_read fun n n' hn => ?_
  refine (carries_type hn ⟨true, true⟩).bind fun body c'' ends => carries_return rfl ?_
  simpa using ends.append_right (c ++ (c' ++ [colon]))

/-! ## A sequence of declarations -/

/-- Whether a token stands between declarations. -/
def separates (t : Token) : Bool :=
  t.kind = .newline || t.kind = .mark .comma

/-- At most so many more declarations, up to the end of the text. -/
def declarationsFrom (k : Nat) (ds : List Declaration) : Parser (List Declaration) :=
  repeatUpTo (fun tokens => !frontIs .finish tokens) anotherDeclaration k ds

lemma answer_declarations (n : Nat) (ts : List Token) :
    answer declarations n ts = answer (declarationsFrom n []) n (ts.dropWhile separates) := rfl

section Rounds

variable {k n : Nat} {s : List Declaration} {ts : List Token}

lemma answer_declarationsFrom_finish (h : frontIs .finish ts) :
    answer (declarationsFrom k s) n ts = .ok (s, ts) := by
  cases k with
  | zero => rw [declarationsFrom, answer_repeatUpTo_zero, h]; rfl
  | succ k => rw [declarationsFrom, answer_repeatUpTo, h]; rfl

lemma answer_declarationsFrom_zero (h : frontIs .finish ts = false) :
    answer (declarationsFrom 0 s) n ts = .error .exhausted := by
  rw [declarationsFrom, answer_repeatUpTo_zero, h]
  rfl

lemma answer_anotherDeclaration (s : List Declaration) (n : Nat) (ts : List Token) :
    answer (anotherDeclaration s) n ts = answer declaration n ts >>= fun x =>
      if endsDeclaration x.2 then .ok (s ++ [x.1], x.2.dropWhile separates)
      else answer (refuse "a line break or ','") n x.2 := by
  rw [anotherDeclaration, answer_bind]
  refine congrArg _ (funext fun x => ?_)
  rw [answer_asks_bind]
  cases endsDeclaration x.2 <;> rfl

lemma answer_declarationsFrom_succ_eq_ok (h : frontIs .finish ts = false)
    {x : List Declaration × List Token} :
    answer (declarationsFrom (k + 1) s) n ts = .ok x ↔
      ∃ d us, answer declaration n ts = .ok (d, us) ∧ endsDeclaration us = true ∧
        answer (declarationsFrom k (s ++ [d])) n (us.dropWhile separates) = .ok x := by
  rw [declarationsFrom, answer_repeatUpTo, h, Bool.not_false, if_pos rfl, answer_bind_eq_ok]
  simp only [answer_anotherDeclaration, bind_eq_ok, Prod.exists]
  constructor
  · rintro ⟨s', vs, ⟨d, us, hd, hs⟩, rest⟩
    split at hs
    · rename_i ends
      cases hs
      exact ⟨d, us, hd, ends, rest⟩
    · cases hs
  · rintro ⟨d, us, hd, ends, rest⟩
    exact ⟨_, _, ⟨d, us, hd, if_pos ends⟩, rest⟩

end Rounds

lemma dropWhile_near (P : Token → Bool) (d : List Token) :
    (J.near d).dropWhile P =
      if d.dropWhile P = [] then J.rest.dropWhile P else J.near (d.dropWhile P) := by
  simp [Seam.near, List.dropWhile_append]

lemma dropWhile_far {P : Token → Bool} (moved : ∀ t, P (t.relocate J.move) = P t)
    (d : List Token) :
    (J.far d).dropWhile P =
      if d.dropWhile P = [] then J.rest'.dropWhile P else J.far (d.dropWhile P) := by
  simp [Seam.far, List.dropWhile_append, List.dropWhile_map, Function.comp_def, moved]

lemma endsDeclaration_far {d : List Token} (h : endsDeclaration (J.near d) = true) :
    endsDeclaration (J.far d) = true := by
  cases d with
  | nil =>
    rcases J.stops with front | front | ⟨front, -⟩ <;>
      simp [endsDeclaration, frontIsMark, frontIs, front]
  | cons t d => exact h

lemma frontIs_finish_rest (J : Seam) : frontIs .finish (J.rest.dropWhile separates) = true := by
  have barren := J.barren.dropWhile separates
  rcases h : J.rest.dropWhile separates with _ | ⟨t, ts⟩
  · rfl
  · have kept := List.head?_dropWhile_not separates J.rest
    rw [h] at barren kept
    rcases barren t List.mem_cons_self with front | front
    · simp [separates, front] at kept
    · exact decide_eq_true front

/-- Declarations before a seam are read in the end as they were read at first.  What comes after the
seam in the end is then read on. -/
lemma declarationsFrom_seam {n n' : Nat} (hn : n ≤ n') (k : Nat) (s : List Declaration)
    (d : List Token) (hd : d.length < n) (unfinished : ∀ t ∈ d, t.kind ≠ .finish)
    {ds : List Declaration} {r : List Token}
    (h : answer (declarationsFrom k s) n ((J.near d).dropWhile separates) = .ok (ds, r)) :
    (∀ t ∈ d.getLast?, separates t ∨ t.kind.endsOperand) ∧
      ∃ new, ds = s ++ new ∧ ∀ s' k', d.length ≤ k' → ∃ k'', k' ≤ k'' + d.length ∧
        ∀ x, answer (declarationsFrom k'' (s' ++ new.map (.relocate J.move))) n'
            (J.rest'.dropWhile separates) = .ok x →
          answer (declarationsFrom k' s') n' ((J.far d).dropWhile separates) = .ok x := by
  induction hlength : d.length using Nat.strongRecOn generalizing k s d with
  | ind length ih =>
  subst hlength
  rw [dropWhile_near] at h
  by_cases passed : d.dropWhile separates = []
  · rw [if_pos passed, answer_declarationsFrom_finish (frontIs_finish_rest J)] at h
    cases h
    refine ⟨fun t ht => .inl ?_, [], by simp, fun s' k' _ => ⟨k', by omega, fun x hx => ?_⟩⟩
    · exact List.dropWhile_eq_nil_iff.1 passed t (List.mem_of_getLast? ht)
    · rw [dropWhile_far (fun _ => rfl), if_pos passed]
      simpa using hx
  -- What is left starts with a declaration, which carries over.
  rw [if_neg passed] at h
  have among : ∀ t ∈ d.dropWhile separates, t ∈ d :=
    fun t ht => (List.dropWhile_sublist separates).subset ht
  have shorter : (d.dropWhile separates).length ≤ d.length :=
    (List.dropWhile_sublist separates).length_le
  have started : frontIs .finish (J.near (d.dropWhile separates)) = false := by
    obtain ⟨t, e, he⟩ := List.exists_cons_of_ne_nil passed
    rw [he]
    exact decide_eq_false (unfinished t (among t (by simp [he])))
  have started' : frontIs .finish (J.far (d.dropWhile separates)) = false := by
    obtain ⟨t, e, he⟩ := List.exists_cons_of_ne_nil passed
    rw [he] at started ⊢
    exact started
  cases k with
  | zero =>
    rw [answer_declarationsFrom_zero started] at h
    cases h
  | succ k =>
    obtain ⟨first, us, hfirst, ends, h⟩ := (answer_declarationsFrom_succ_eq_ok started).1 h
    rcases carries_declaration n n' _ (by omega) hn first us hfirst with
      ⟨⟨⟩, -⟩ | ⟨c, e, split, rfl, operand, far⟩
    have progress := List.length_pos_iff.2 operand.ne_nil
    rw [split, List.length_append] at shorter
    have inside : ∀ t ∈ e, t.kind ≠ .finish := fun t ht =>
      unfinished t (among t (by rw [split]; exact List.mem_append_right c ht))
    obtain ⟨last, new, rfl, onward⟩ :=
      ih e.length (by omega) k (s ++ [first]) e (by omega) inside h rfl
    refine ⟨fun t ht => ?_, first :: new, by simp, fun s' k' hk' => ?_⟩
    · have whole : d = d.takeWhile separates ++ (c ++ e) := by
        rw [← split, List.takeWhile_append_dropWhile]
      rw [whole, ← List.append_assoc] at ht
      by_cases done : e = []
      · subst done
        rw [List.append_nil, List.getLast?_append_of_ne_nil _ operand.ne_nil] at ht
        exact .inr (by simpa [Ends, Option.mem_def.1 ht] using operand)
      · rw [List.getLast?_append_of_ne_nil _ done] at ht
        exact last t ht
    · obtain ⟨k', rfl⟩ : ∃ k₀, k' = k₀ + 1 := Nat.exists_eq_add_one.2 (by omega)
      obtain ⟨k'', hk'', read⟩ := onward (s' ++ [first.relocate J.move]) k' (by omega)
      refine ⟨k'', by omega, fun x hx => ?_⟩
      rw [dropWhile_far (fun _ => rfl), if_neg passed]
      refine (answer_declarationsFrom_succ_eq_ok started').2
        ⟨_, _, far, endsDeclaration_far ends, read x ?_⟩
      simpa using hx

/-! ## Where a declaration begins -/

/-- Tokens at which a declaration begins, or something that stands between declarations or behind
them. -/
def Begins (ts : List Token) : Prop :=
  (tokenAt ts 0).kind ∈ [.newline, .mark .comma, .finish] ∨ declarationAhead ts

section Begins

variable {k n : Nat} {ts us : List Token}

lemma rest_of_declaredName {name : Token} (h : answer declaredName n ts = .ok (name, us)) :
    (tokenAt ts 0).kind = .name ∧ (tokenAt ts 0).isVariable = false ∧ us = ts.tail := by
  rw [declaredName, answer_peek_bind] at h
  dsimp only at h
  split at h
  · cases h
  · split at h
    · rename_i front
      cases h
      exact ⟨front.1, by simpa using front.2, rfl⟩
    · cases h

lemma rest_of_declaredParameter {earlier : List Binder} {b : Binder}
    (h : answer (declaredParameter earlier) n ts = .ok (b, us)) : us = ts.tail := by
  rw [declaredParameter, next_bind, answer_peek_bind, answer_modify_bind] at h
  dsimp only at h
  split at h
  · cases h
  · split at h
    · cases h
    · cases h
      rfl

lemma dropWhile_name_of_name (h : frontIs .name ts = true) :
    ts.dropWhile (·.kind = .name) = ts.tail.dropWhile (·.kind = .name) := by
  cases ts with
  | nil => rfl
  | cons t ts =>
    have front : t.kind = .name := of_decide_eq_true h
    simp [front]

lemma rest_of_parameters {bs bs' : List Binder}
    (h : answer (repeatUpTo (frontIs .name)
      (fun bs => return bs ++ [← declaredParameter bs]) k bs) n ts = .ok (bs', us)) :
    us = ts.dropWhile (·.kind = .name) := by
  induction k generalizing bs ts with
  | zero =>
    rw [answer_repeatUpTo_zero] at h
    split at h
    · cases h
    · rename_i other
      cases h
      exact (dropWhile_name_of_other other).symm
  | succ k ih =>
    rw [answer_repeatUpTo] at h
    split at h
    · rename_i named
      obtain ⟨bs, vs, hbs, h⟩ := answer_bind_eq_ok.1 h
      obtain ⟨b, vs, hb, hbs⟩ := answer_bind_eq_ok.1 hbs
      obtain rfl := rest_of_declaredParameter hb
      cases hbs
      rw [ih h, dropWhile_name_of_name named]
    · rename_i other
      cases h
      exact (dropWhile_name_of_other other).symm

lemma declarationAhead_of_declaration {d : Declaration}
    (h : answer declaration n ts = .ok (d, us)) : declarationAhead ts = true := by
  obtain ⟨name, rest, hname, h⟩ := answer_bind_eq_ok.1 h
  obtain ⟨front, constant, rfl⟩ := rest_of_declaredName hname
  obtain ⟨bs, rest, hbs, h⟩ := answer_bind_eq_ok.1 h
  obtain ⟨⟨⟩, rest', hcolon, h⟩ := answer_bind_eq_ok.1 h
  obtain ⟨colon, rfl⟩ := answer_takeMark_eq_ok.1 hcolon
  obtain rfl := rest_of_parameters (k := n) hbs
  cases ts with
  | nil => cases front
  | cons t ts =>
    have named : t.kind = .name := front
    simp only [declarationAhead, front, constant, List.dropWhile_cons, named]
    simpa using colon

lemma begins_of_declarationsFrom {s : List Declaration} {x : List Declaration × List Token}
    (h : answer (declarationsFrom k s) n (ts.dropWhile separates) = .ok x) : Begins ts := by
  rcases ts with _ | ⟨t, ts⟩
  · exact .inl (by simp [tokenAt])
  by_cases sep : separates t
  · have front : t.kind = .newline ∨ t.kind = .mark .comma := by simpa [separates] using sep
    exact .inl (by rcases front with front | front <;> simp [tokenAt, front])
  rw [List.dropWhile_cons, if_neg sep] at h
  by_cases finish : frontIs .finish (t :: ts) = true
  · exact .inl (by simpa using .inr (.inr (of_decide_eq_true finish)))
  rw [Bool.not_eq_true] at finish
  cases k with
  | zero =>
    rw [answer_declarationsFrom_zero finish] at h
    cases h
  | succ k =>
    obtain ⟨d, us, hd, -⟩ := (answer_declarationsFrom_succ_eq_ok finish).1 h
    exact .inr (declarationAhead_of_declaration hd)

end Begins

/-! ## Joined sequences -/

section Join

variable {b fin fin' : Token} {ts before between after : List Token}

lemma Begins.relocate (f : Position → Position) (h : Begins ts) :
    Begins (ts.map (.relocate f)) := by
  let J : Seam := ⟨f, [], [], by simp [Barren], .inr (.inl rfl)⟩
  have ahead : declarationAhead (J.near ts) = declarationAhead (J.far ts) :=
    Seam.agrees_declarationAhead ts
  simp only [Seam.near, Seam.far, List.append_nil, J] at ahead
  refine h.imp (fun front => ?_) fun h => ahead ▸ h
  cases ts <;> exact front

lemma begins_of_separates (h : separates b) : Begins (b :: ts) := by
  have front : b.kind = .newline ∨ b.kind = .mark .comma := by simpa [separates] using h
  exact .inl (by rcases front with front | front <;> simp [tokenAt, front])

lemma stops_of_separates (h : separates b) (begins : Begins ts) : Stops (b :: ts) := by
  have front : b.kind = .newline ∨ b.kind = .mark .comma := by simpa [separates] using h
  rcases front with front | front
  · exact .inl front
  · refine .inr (.inr ⟨front, ?_⟩)
    rw [Seam.tokenAt_cons_one]
    exact begins

lemma stops_of_continuesBefore (begins : Begins ts)
    (h : (tokenAt ts 0).kind.continuesBefore)
    (behind : separates (tokenAt ts 0) → Begins ts.tail) : Stops ts := by
  cases ts with
  | nil => exact .inr (.inl rfl)
  | cons b ts =>
    by_cases sep : separates b
    · exact stops_of_separates sep (behind sep)
    · rcases begins with front | ahead
      · refine .inr (.inl ?_)
        have other : b.kind ≠ .newline ∧ b.kind ≠ .mark .comma := by simpa [separates] using sep
        simpa [tokenAt, other.1, other.2] using front
      · simp only [declarationAhead, Bool.and_eq_true, decide_eq_true_eq] at ahead
        have named : b.kind = .name := ahead.1.1
        have h : b.kind.continuesBefore := h
        rw [named] at h
        cases h

/-- The tokens of a text that is read by itself, read at other positions behind something else. -/
lemma declarationsFrom_relocate (f : Position → Position) (hfin : fin.kind = .finish)
    (unfinished : ∀ t ∈ ts, t.kind ≠ .finish) {es : List Declaration} {r : List Token} {n : Nat}
    (h : answer declarations (ts ++ [fin]).length (ts ++ [fin]) = .ok (es, r))
    (hn : (ts ++ [fin]).length ≤ n) (s : List Declaration) (k : Nat) (hk : ts.length ≤ k) :
    ∃ r', answer (declarationsFrom k s) n (((ts ++ [fin]).map (.relocate f)).dropWhile separates) =
      .ok (s ++ es.map (.relocate f), r') := by
  let J : Seam := ⟨f, [fin], [fin.relocate f], by simp [Barren, hfin], .inr (.inl hfin)⟩
  have finish : frontIs .finish (J.rest'.dropWhile separates) := by
    simp [J, separates, hfin, frontIs, tokenAt]
  rw [answer_declarations] at h
  obtain ⟨-, new, rfl, onward⟩ :=
    declarationsFrom_seam (J := J) hn _ [] ts (by simp) unfinished h
  obtain ⟨k', -, read⟩ := onward s k hk
  rw [List.map_append]
  exact ⟨_, read _ (answer_declarationsFrom_finish finish)⟩

lemma continuesAfter_eq_false {kind : TokenKind} (h : kind.endsOperand) :
    kind.continuesAfter = false := by
  cases kind with
  | mark p => cases p <;> first | rfl | cases h
  | newline | finish => cases h
  | _ => rfl

lemma begins_tail_of_declarationsFrom {k n : Nat} {s : List Declaration}
    {x : List Declaration × List Token}
    (h : answer (declarationsFrom k s) n (ts.dropWhile separates) = .ok x)
    (first : separates (tokenAt ts 0)) : Begins ts.tail := by
  cases ts with
  | nil => cases first
  | cons t ts =>
    have first : separates t = true := first
    rw [List.dropWhile_cons, if_pos first] at h
    exact begins_of_declarationsFrom h

lemma separates_of_comma (h : b.kind = .mark .comma) : separates b := by
  simp [separates, h]

lemma stops_of_join {commas : List Token} (hcommas : ∀ t ∈ commas, t.kind = .mark .comma)
    (begins : Begins ts) (behind : separates (tokenAt ts 0) → Begins ts.tail)
    (join : (∃ b, separates b ∧ between = [b]) ∨
      (between = [] ∧ (commas = [] → (tokenAt ts 0).kind.continuesBefore))) :
    Stops (commas ++ (between ++ ts)) := by
  cases commas with
  | nil =>
    rcases join with ⟨b, sep, rfl⟩ | ⟨rfl, before⟩
    · exact stops_of_separates sep begins
    · exact stops_of_continuesBefore begins (before rfl) behind
  | cons c commas =>
    rw [List.forall_mem_cons] at hcommas
    refine stops_of_separates (separates_of_comma hcommas.1) ?_
    rcases commas with _ | ⟨c', commas⟩
    · rcases join with ⟨b, sep, rfl⟩ | ⟨rfl, -⟩
      · exact begins_of_separates sep
      · exact begins
    · exact begins_of_separates (separates_of_comma (hcommas.2 c' List.mem_cons_self))

lemma dropWhile_separates_append (h : ∀ t ∈ before, separates t) :
    (before ++ after).dropWhile separates = after.dropWhile separates := by
  rw [List.dropWhile_append, List.dropWhile_eq_nil_iff.2 h]
  rfl

lemma exists_append_commas (ts : List Token) : ∃ d commas, ts = d ++ commas ∧
    (∀ t ∈ commas, t.kind = .mark .comma) ∧ ∀ t ∈ d.getLast?, t.kind ≠ .mark .comma := by
  induction ts using List.reverseRecOn with
  | nil => exact ⟨[], [], rfl, by simp, by simp⟩
  | append_singleton ts t ih =>
    by_cases comma : t.kind = .mark .comma
    · obtain ⟨d, commas, rfl, hcommas, hlast⟩ := ih
      exact ⟨d, commas ++ [t], List.append_assoc .., by simpa [comma, or_imp, forall_and], hlast⟩
    · exact ⟨ts ++ [t], [], (List.append_nil _).symm, by simp, by simpa using comma⟩

/-- A line break behind the last token of a declaration is a token. -/
lemma continuesAfter_last (hfin : fin.kind = .finish) (unfinished : ∀ t ∈ ts, t.kind ≠ .finish)
    {n : Nat} (hn : ts.length < n) {ds : List Declaration} {r : List Token}
    (h : answer declarations n (ts ++ [fin]) = .ok (ds, r)) (nonempty : ts ≠ [])
    (hlast : ∀ t ∈ ts.getLast?, ¬ separates t) :
    (lastKind .newline ts).continuesAfter = false := by
  let J : Seam := ⟨id, [fin], [fin], by simp [Barren, hfin], .inr (.inl hfin)⟩
  have ends := (declarationsFrom_seam (J := J) (Nat.le_refl _) _ [] ts hn unfinished h).1
  have last := List.getLast?_eq_some_getLast nonempty
  rw [lastKind, last]
  exact continuesAfter_eq_false ((ends _ last).resolve_left (hlast _ last))

/-- Behind the declarations before a seam come separators, and then further declarations. -/
lemma declarations_far {d gap : List Token} (unfinished : ∀ t ∈ d, t.kind ≠ .finish)
    (passed : ∀ t ∈ gap, separates t) (behind : J.rest' = gap ++ ts)
    (hfar : (J.near d).length ≤ (J.far d).length) (hrest : J.rest ≠ [])
    {ds es : List Declaration} {r : List Token}
    (h : answer declarations (J.near d).length (J.near d) = .ok (ds, r))
    (further : ∀ s k, (J.far d).length ≤ k + d.length → ∃ r',
      answer (declarationsFrom k s) (J.far d).length (ts.dropWhile separates) = .ok (s ++ es, r')) :
    ∃ r', answer declarations (J.far d).length (J.far d) =
      .ok (ds.map (.relocate J.move) ++ es, r') := by
  have size : d.length < (J.near d).length := by
    rw [Seam.near, List.length_append]
    have := List.length_pos_iff.2 hrest
    omega
  rw [answer_declarations] at h
  obtain ⟨-, new, hnew, onward⟩ := declarationsFrom_seam hfar _ [] d size unfinished h
  rw [List.nil_append] at hnew
  subst hnew
  obtain ⟨k, hk, read⟩ := onward [] (J.far d).length (by omega)
  obtain ⟨r', hr⟩ := further (ds.map (.relocate J.move)) k hk
  refine ⟨r', read _ ?_⟩
  rw [behind, dropWhile_separates_append passed]
  exact hr

/-- There is no declaration where only something that separates declarations stands. -/
lemma declarations_of_separators {seps : List Token} (hfin : fin.kind = .finish)
    (passed : ∀ t ∈ seps, separates t) {n : Nat} {ds : List Declaration} {r : List Token}
    (hds : answer declarations n (seps ++ [fin]) = .ok (ds, r)) : ds = [] := by
  have only : frontIs .finish [fin] = true := decide_eq_true hfin
  have rest : (seps ++ [fin]).dropWhile separates = [fin] := by
    rw [dropWhile_separates_append passed, List.dropWhile_cons, if_neg (by simp [separates, hfin])]
  rw [answer_declarations, rest, answer_declarationsFrom_finish only] at hds
  cases hds
  rfl

/-- The declarations of two texts of which the second comes after the first, where something that
separates declarations stands between them or no declaration could go on. -/
lemma declarations_append (f : Position → Position) (hfin : fin.kind = .finish)
    (hfin' : fin'.kind = .finish) (unfinished : ∀ t ∈ before, t.kind ≠ .finish)
    (unfinished' : ∀ t ∈ after, t.kind ≠ .finish) (last : ∀ t ∈ before.getLast?, t.kind ≠ .newline)
    (join : (∃ b, separates b ∧ between = [b]) ∨ (between = [] ∧
      ((lastKind .newline before).continuesAfter ∨
        (after ++ [fin']).head?.any (·.kind.continuesBefore))))
    {ds es : List Declaration} {r r' : List Token}
    (hds : answer declarations (before ++ [fin]).length (before ++ [fin]) = .ok (ds, r))
    (hes : answer declarations (after ++ [fin']).length (after ++ [fin']) = .ok (es, r'))
    {joined : List Token}
    (hjoined : joined = before ++ (between ++ (after ++ [fin']).map (.relocate f))) :
    ∃ r'', answer declarations joined.length joined = .ok (ds ++ es.map (.relocate f), r'') := by
  have begins : Begins ((after ++ [fin']).map (.relocate f)) :=
    (begins_of_declarationsFrom hes).relocate f
  have behind : separates (tokenAt ((after ++ [fin']).map (.relocate f)) 0) →
      Begins ((after ++ [fin']).map (.relocate f)).tail := by
    rw [← List.map_tail]
    intro first
    refine (begins_tail_of_declarationsFrom hes ?_).relocate f
    cases after <;> exact first
  -- Commas may stand behind the last declaration of the first text.
  obtain ⟨d, commas, rfl, hcommas, hlast⟩ := exists_append_commas before
  have size : joined.length = d.length + commas.length + between.length + after.length + 1 := by
    simp only [hjoined, List.length_append, List.length_map, List.length_singleton]
    omega
  have further := declarationsFrom_relocate f hfin' unfinished' (n := joined.length) hes
    (by simp only [List.length_append, List.length_singleton]; omega)
  have passed : ∀ t ∈ commas ++ between, separates t := by
    refine List.forall_mem_append.2 ⟨fun t ht => separates_of_comma (hcommas t ht), ?_⟩
    rcases join with ⟨b, sep, rfl⟩ | ⟨rfl, -⟩
    · simpa using sep
    · simp
  by_cases empty : d = []
  · -- The first text has no declaration, so that a type may even begin right behind it.
    subst empty
    rw [List.nil_append] at hds
    obtain rfl := declarations_of_separators hfin
      (fun t ht => separates_of_comma (hcommas t ht)) hds
    have rest : joined.dropWhile separates =
        ((after ++ [fin']).map (.relocate f)).dropWhile separates := by
      rw [hjoined, List.nil_append, ← List.append_assoc, dropWhile_separates_append passed]
    rw [answer_declarations, rest]
    exact further [] _ (by omega)
  have stops : Stops (commas ++ (between ++ (after ++ [fin']).map (.relocate f))) := by
    refine stops_of_join hcommas begins behind (join.imp_right fun h => ⟨h.1, ?_⟩)
    have ends := h.2
    rintro rfl
    rw [List.append_nil] at ends hds last unfinished
    have here := continuesAfter_last hfin unfinished (by simp) hds empty fun t ht sep => by
      simp [separates, last t ht, hlast t ht] at sep
    rw [here] at ends
    cases after <;> simpa [tokenAt] using ends
  let J : Seam := ⟨id, commas ++ [fin], commas ++ (between ++ (after ++ [fin']).map (.relocate f)),
    List.forall_mem_append.2 ⟨fun t ht => .inl (hcommas t ht), by simpa using .inr hfin⟩, stops⟩
  have near : d ++ commas ++ [fin] = J.near d := by simp [Seam.near, J]
  have far : joined = J.far d := by
    have still : d.map (Token.relocate id) = d := List.map_id' d
    simp [Seam.far, J, hjoined, still]
  have still : ds.map (Declaration.relocate J.move) = ds :=
    (List.map_congr_left fun d _ => d.relocate_id).trans (List.map_id' ds)
  rw [near] at hds
  rw [far] at size further ⊢
  rw [← still]
  refine declarations_far (fun t ht => unfinished t (List.mem_append_left _ ht)) passed
    (List.append_assoc ..).symm ?_ (by simp [J]) hds fun s k hk => further s k (by omega)
  rw [size, ← near]
  simp only [List.length_append, List.length_singleton]
  omega

end Join
end Parser

/-! ## Texts -/

lemma parse_eq_ok {text : String} {ds : List Declaration} : parse text = .ok ds ↔
    ∃ tokens r, tokenize text = .ok tokens ∧
      Parser.answer Parser.declarations tokens.length tokens = .ok (ds, r) :=
  runParser_eq_ok

/-- The last line of a text. -/
def lastLine (text : String) : List Char :=
  text.toList.rtakeWhile (· ≠ '\n')

lemma comment_of_slashes {text : String} {as bs : List Char}
    (h : text.toList = as ++ '/' :: '/' :: bs) (open_ : '\n' ∉ bs) :
    ['/', '/'] <:+: lastLine text := by
  have onLine : ∀ c ∈ ('/' :: '/' :: bs).reverse, decide (c ≠ '\n') = true := by
    intro c hc
    simp only [List.mem_reverse, List.mem_cons] at hc
    rcases hc with rfl | rfl | hc
    · rfl
    · rfl
    · exact decide_eq_true fun e => open_ (e ▸ hc)
  refine ⟨(as.reverse.takeWhile (· ≠ '\n')).reverse, bs, ?_⟩
  rw [lastLine, List.rtakeWhile, h, List.reverse_append, List.takeWhile_append_of_pos onLine]
  simp

/-- The declarations of two texts that are joined by a line break are those of the first and those
of the second, which stand further down.  Those of two texts that are joined by a comma are equal to
them, unless a comment takes up the comma. -/
theorem parse_append {s t : String} {ds es : List Declaration} (hs : parse s = .ok ds)
    (ht : parse t = .ok es) :
    parse (s ++ "\n" ++ t) = .ok (ds ++
        es.map (.relocate fun p => ⟨p.line + (s.toList.count '\n' + 1), p.column⟩)) ∧
      (¬ ['/', '/'] <:+: lastLine s → ∃ joined, parse (s ++ "," ++ t) = .ok joined ∧
        List.Forall₂ (fun d e => d.same e) joined (ds ++ es)) := by
  obtain ⟨tokens, r, hbefore, hds⟩ := parse_eq_ok.1 hs
  obtain ⟨tokens', r', hafter, hes⟩ := parse_eq_ok.1 ht
  obtain ⟨before, fin, rfl, hfin, unfinished, last⟩ := tokenize_finish hbefore
  obtain ⟨after, fin', rfl, hfin', unfinished', -⟩ := tokenize_finish hafter
  constructor
  · obtain ⟨between, hjoined, join⟩ := tokenize_lineBreak hbefore hafter
    have below : Position.displace (s.toList.count '\n' + 1) 0 =
        fun p => ⟨p.line + (s.toList.count '\n' + 1), p.column⟩ := by
      funext p
      simp [Position.displace]
    rw [below] at hjoined
    have separated : (∃ b, Parser.separates b ∧ between = [b]) ∨ (between = [] ∧
        ((lastKind .newline before).continuesAfter ∨
          (after ++ [fin']).head?.any (·.kind.continuesBefore))) := by
      rcases join with ⟨b, newline, direct⟩ | join
      · exact .inl ⟨b, by simp [Parser.separates, newline], direct⟩
      · exact .inr join
    obtain ⟨r'', h⟩ := Parser.declarations_append _ hfin hfin' unfinished unfinished' last separated
      hds hes rfl
    exact parse_eq_ok.2 ⟨_, r'', hjoined, h⟩
  · intro uncommented
    have closed : ∀ as bs, s.toList = as ++ '/' :: '/' :: bs → '\n' ∈ bs := by
      intro as bs h
      by_contra open_
      exact uncommented (comment_of_slashes h open_)
    obtain ⟨f, comma, hcomma, hjoined⟩ := tokenize_comma closed hbefore hafter
    have separated := Parser.separates_of_comma hcomma
    obtain ⟨r'', h⟩ := Parser.declarations_append f hfin hfin' unfinished unfinished' last
      (.inl ⟨comma, separated, rfl⟩) hds hes rfl
    refine ⟨_, parse_eq_ok.2 ⟨_, r'', hjoined, h⟩, ?_⟩
    refine List.rel_append (List.forall₂_same.2 fun d _ => d.same_self) ?_
    rw [List.forall₂_map_left_iff, List.forall₂_same]
    exact fun d _ => d.same_relocate f

theorem parse_append_references :
    ∃ ds es, parse "a X: b," = .ok ds ∧ parse "c: d" = .ok es ∧
      parse ("a X: b," ++ "\n" ++ "c: d") = .ok (ds ++
        es.map (.relocate fun p => ⟨p.line + ("a X: b,".toList.count '\n' + 1), p.column⟩)) ∧
      ∃ joined, parse ("a X: b," ++ "," ++ "c: d") = .ok joined ∧
        List.Forall₂ (fun d e => d.same e) joined (ds ++ es) := by
  have hs : parse "a X: b," = .ok [⟨"a", [⟨some ⟨1, 3⟩, ⟨"X", none⟩⟩],
      .reference (.written (some ⟨1, 6⟩)) "b" [], some ⟨1, 1⟩⟩] := by
    cbv
  have ht : parse "c: d" = .ok [⟨"c", [], .reference (.written (some ⟨1, 4⟩)) "d" [],
      some ⟨1, 1⟩⟩] := by
    cbv
  have last : lastLine "a X: b," = ['a', ' ', 'X', ':', ' ', 'b', ','] := by
    cbv
  obtain ⟨line, comma⟩ := parse_append hs ht
  refine ⟨_, _, hs, ht, line, comma ?_⟩
  rw [last]
  decide

end TypeNotation
