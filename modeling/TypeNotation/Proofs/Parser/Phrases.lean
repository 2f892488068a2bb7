import TypeNotation.Proofs.Parser.Levels

/-!
# Every phrase is found

By induction on the grammar, every phrase of a level is found by the production of the level.  The
number of tokens bounds the nesting and the rounds of every repetition, since brackets take two
tokens, and an argument or an item takes one at least.

So a text whose tokens are a phrase is read as the type that the phrase denotes.
-/

namespace TypeNotation

open TypeExpr

namespace Parser

/-! ## Numbers -/

lemma answer_literal {k : Token} {x : Number} (hk : k.kind = .number x) (n : Nat)
    (ts : List Token) : answer literal n (k :: ts) = .ok (.literal (some k.position) x, ts) := by
  obtain ⟨kind, text, position⟩ := k
  subst hk
  rfl

/-- The exponents of a power are read one after the other, and the powers grouped in the end. -/
lemma answer_exponents {ts : List Token} {x : Numeral} (h : NumberPhrase ts x) :
    ∃ k us y, ts = k :: us ∧ k.kind = .number y ∧ ∃ exponents,
      (powerTower (.literal (some k.position) y) exponents).same x = true ∧
      ∀ n rounds before rest, us.length ≤ rounds → frontIsMark .caret rest = false →
        answer (repeatUpTo (frontIsMark .caret) (fun exponents => do
          takeMark .caret
          return exponents ++ [← literal]) rounds before) n (us ++ rest) =
            .ok (before ++ exponents, rest) := by
  induction h with
  | @literal k y hk p =>
    refine ⟨k, [], y, rfl, hk, [], by simp [powerTower, Numeral.same, Number.same_refl], ?_⟩
    intro n rounds before rest _ hrest
    rw [List.append_nil]
    exact answer_repeatUpTo_stop hrest _ _ _
  | @power k c ts y e hk hc _ p q ih =>
    obtain ⟨k', us, y', rfl, hk', exponents, same, reads⟩ := ih
    refine ⟨k, c :: k' :: us, y, rfl, hk, .literal (some k'.position) y' :: exponents, ?_, ?_⟩
    · simpa [powerTower, Numeral.same, Number.same_refl] using same
    · intro n rounds before rest hrounds hrest
      rw [List.length_cons, List.length_cons] at hrounds
      obtain ⟨rounds, rfl⟩ : ∃ j, rounds = j + 1 := ⟨rounds - 1, by omega⟩
      refine (answer_repeatUpTo_step (by simp [frontIsMark, frontIs, tokenAt, hc])
        ((answer_takeMark_bind hc _ n _).trans
          (answer_bind_of_ok (answer_literal hk' n (us ++ rest)))) rounds).trans ?_
      rw [reads n rounds _ rest (by omega) hrest, List.append_assoc]
      rfl

lemma answer_numeral {ts rest : List Token} {x : Numeral} {n : Nat} (h : NumberPhrase ts x)
    (hn : ts.length ≤ n) (hrest : frontIsMark .caret rest = false) :
    ∃ y, answer numeral n (ts ++ rest) = .ok (y, rest) ∧ y.same x = true := by
  obtain ⟨k, us, y, rfl, hk, exponents, same, reads⟩ := answer_exponents h
  refine ⟨_, ?_, same⟩
  rw [List.length_cons] at hn
  rw [numeral, List.cons_append, answer_bind_of_ok (answer_literal hk n (us ++ rest)),
    answer_repeatWhile_bind (reads n n [] rest (by omega) hrest)]
  rfl

lemma answer_number {ts rest : List Token} {x : Numeral} {n : Nat} (h : NumberPhrase ts x)
    (hn : ts.length ≤ n) (caret : frontIsMark .caret rest = false)
    (ellipsis : frontIsMark .ellipsis rest = false) :
    ∃ u, answer number n (ts ++ rest) = .ok (u, rest) ∧ u.same (.number x) = true := by
  obtain ⟨y, hy, same⟩ := answer_numeral h hn caret
  refine ⟨.number y, ?_, by simpa [TypeExpr.same] using same⟩
  rw [number, answer_peek_bind, answer_bind_of_ok hy, answer_asks_bind, intervalAhead, ellipsis]
  rfl

lemma answer_interval {ts us rest : List Token} {x y : Numeral} {k : Token} {n : Nat}
    (hx : NumberPhrase ts x) (hk : k.kind = .mark .ellipsis) (hy : NumberPhrase us y) (m : Mark)
    (hn : (ts ++ k :: us).length ≤ n) (caret : frontIsMark .caret rest = false) :
    ∃ u, answer number n (ts ++ k :: us ++ rest) = .ok (u, rest) ∧
      u.same (.interval m x y) = true := by
  rw [List.length_append, List.length_cons] at hn
  have dots : frontIsMark .caret (k :: us ++ rest) = false := by
    simp [frontIsMark, frontIs, tokenAt, hk]
  obtain ⟨low, hlow, same⟩ := answer_numeral (n := n) hx (by omega) dots
  obtain ⟨high, hhigh, same'⟩ := answer_numeral hy (n := n) (by omega) caret
  have ahead : intervalAhead (k :: us ++ rest) = true := by
    obtain ⟨k', us', z, rfl, hk'⟩ := hy.exists_cons
    simp [intervalAhead, frontIsMark, frontIs, tokenAt, hk, Token.value?, hk']
  refine ⟨.interval (.written (some (tokenAt (ts ++ (k :: us ++ rest)) 0).position)) low high, ?_,
    by simp [same, same', TypeExpr.same]⟩
  rw [number, answer_peek_bind, List.append_assoc, answer_bind_of_ok hlow, answer_asks_bind, ahead]
  exact (answer_takeMark_bind hk _ n _).trans (answer_bind_of_ok hhigh)

/-! ## Brackets -/

/-- The arguments of a name are found before any tokens that start no type. -/
def FindsArguments (ts : List Token) (args : List TypeExpr) : Prop :=
  ∀ bound n rounds commas before rest, ts.length ≤ bound → ts.length ≤ n → ts.length ≤ rounds →
    frontGrip commas rest ≤ Level.application.strength →
    ∃ us, answer (repeatUpTo (fun tokens => (tokenAt tokens 0).kind.startsType)
      (fun args => return args ++ [← atom (Parser.type bound)]) rounds before) n (ts ++ rest) =
        .ok (before ++ us, rest) ∧ EachSame us args

/-- An item after others, with the comma behind it. -/
def item (type : TypeParser) (closer : Punctuation) (before : List TypeExpr) :
    Parser (List TypeExpr) := do
  let t ← type ⟨false, false⟩
  if ← asks (frontIsMark .comma) then takeMark .comma
  else if !(← asks (frontIsMark closer)) then
    refuse ("',' or " ++ SyntaxError.quoted closer.text)
  return before ++ [t]

lemma items_eq (type : TypeParser) (closer : Punctuation) :
    items type closer = (do
      let ts ← repeatWhile (fun tokens => !frontIsMark closer tokens) (item type closer) []
      takeMark closer
      return ts) := rfl

/-- Items are found before a closing bracket. -/
def FindsItems (ts : List Token) (items : List TypeExpr) : Prop :=
  ∀ bound n rounds before c rest, ts.length ≤ bound → ts.length ≤ n → ts.length ≤ rounds →
    c.kind = .mark .bracketClose →
    ∃ us, answer (repeatUpTo (fun tokens => !frontIsMark .bracketClose tokens)
      (item (Parser.type (bound + 1)) .bracketClose) rounds before) n (ts ++ c :: rest) =
        .ok (before ++ us, c :: rest) ∧ EachSame us items

section Brackets

variable {ts us : List Token} {t : TypeExpr}

lemma findsArguments_nil : FindsArguments [] [] := by
  intro bound n rounds commas before rest _ _ _ hrest
  refine ⟨[], ?_, .nil⟩
  rw [List.append_nil]
  exact answer_repeatUpTo_stop (startsType_of_grip hrest) _ _ _

lemma frontGrip_arguments {commas : Bool} {args : List TypeExpr} {rest : List Token}
    (h : Arguments us args) (hrest : frontGrip commas rest ≤ Level.application.strength) :
    frontGrip commas (us ++ rest) ≤ Level.atom.strength := by
  cases h with
  | nil => exact Nat.le_trans hrest (by decide)
  | cons ht h =>
    obtain ⟨k, us, rfl, starts⟩ := ht.exists_cons
    exact Nat.le_of_eq (grip_of_startsType starts)

lemma findsArguments_cons {args : List TypeExpr} (ht : Phrase .atom ts t) (h : Arguments us args)
    (finds : Finds .atom ts t) (found : FindsArguments us args) :
    FindsArguments (ts ++ us) (t :: args) := by
  intro bound n rounds commas before rest hbound hn hrounds hrest
  rw [List.length_append] at hbound hn hrounds
  obtain ⟨u, hu, same⟩ := finds bound n commas (us ++ rest) (by omega) (by omega)
    (frontGrip_arguments h hrest)
  obtain ⟨k, ks, rfl, starts⟩ := ht.exists_cons
  rw [List.length_cons] at hbound hn hrounds
  obtain ⟨rounds, rfl⟩ : ∃ j, rounds = j + 1 := ⟨rounds - 1, by omega⟩
  obtain ⟨vs, hvs, each⟩ :=
    found bound n rounds commas (before ++ [u]) rest (by omega) (by omega) (by omega) hrest
  refine ⟨u :: vs, ?_, .cons same each⟩
  rw [List.append_assoc, answer_repeatUpTo_step starts (answer_bind_of_ok hu), hvs,
    List.append_assoc]
  rfl

lemma open_of_startsType {k : Token} {ks : List Token} (starts : k.kind.startsType = true) :
    (!frontIsMark .bracketClose (k :: ks)) = true := by
  rw [frontIsMark_cons, Bool.not_eq_true', decide_eq_false_iff_not]
  intro hk
  rw [hk] at starts
  cases starts

lemma findsItems_nil : FindsItems [] [] := by
  intro bound n rounds before c rest _ _ _ hc
  refine ⟨[], ?_, .nil⟩
  rw [List.append_nil]
  exact answer_repeatUpTo_stop (by simp [frontIsMark, frontIs, tokenAt, hc]) _ _ _

/-- A round of finding items, where a comma or the closing bracket comes after the item. -/
lemma answer_item {k : Token} (finds : Finds .predicate ts t) (bound n : Nat)
    (before : List TypeExpr) (rest : List Token) (hbound : ts.length ≤ bound) (hn : ts.length ≤ n)
    (hk : k.kind = .mark .comma ∨ k.kind = .mark .bracketClose) :
    ∃ u, answer (item (Parser.type (bound + 1)) .bracketClose before) n (ts ++ k :: rest) =
        .ok (before ++ [u], if k.kind = .mark .comma then rest else k :: rest) ∧
      u.same t = true := by
  have grip : frontGrip false (k :: rest) ≤ Level.predicate.strength := by
    rw [frontGrip_cons]
    rcases hk with hk | hk <;> rw [hk] <;> decide
  obtain ⟨u, hu, same⟩ := finds bound n false (k :: rest) hbound hn grip
  refine ⟨u, (answer_bind_of_ok hu).trans ?_, same⟩
  rw [answer_asks_bind, frontIsMark_cons]
  rcases hk with hk | hk
  · rw [hk]
    exact answer_takeMark_bind hk _ n rest
  · rw [hk]
    simp only [reduceCtorEq, TokenKind.mark.injEq, decide_false, Bool.false_eq_true, if_false]
    rw [answer_asks_bind, frontIsMark_cons, hk]
    rfl

lemma findsItems_last (ht : Phrase .predicate ts t) (finds : Finds .predicate ts t) :
    FindsItems ts [t] := by
  intro bound n rounds before c rest hbound hn hrounds hc
  obtain ⟨u, hu, same⟩ := answer_item finds bound n before rest hbound hn (.inr hc)
  rw [if_neg (by simp [hc])] at hu
  obtain ⟨k, ks, rfl, starts⟩ := ht.exists_cons
  obtain ⟨rounds, rfl⟩ : ∃ j, rounds = j + 1 := ⟨rounds - 1, by simp at hrounds; omega⟩
  refine ⟨[u], ?_, .cons same .nil⟩
  rw [answer_repeatUpTo_step (open_of_startsType starts) hu]
  exact answer_repeatUpTo_stop (by simp [frontIsMark_cons, hc]) _ _ _

lemma findsItems_cons {items : List TypeExpr} {k : Token} (ht : Phrase .predicate ts t)
    (hk : k.kind = .mark .comma) (finds : Finds .predicate ts t) (found : FindsItems us items) :
    FindsItems (ts ++ k :: us) (t :: items) := by
  intro bound n rounds before c rest hbound hn hrounds hc
  rw [List.length_append, List.length_cons] at hbound hn hrounds
  obtain ⟨u, hu, same⟩ :=
    answer_item finds bound n before (us ++ c :: rest) (by omega) (by omega) (.inl hk)
  rw [if_pos hk] at hu
  obtain ⟨j, js, rfl, starts⟩ := ht.exists_cons
  obtain ⟨rounds, rfl⟩ : ∃ j, rounds = j + 1 := ⟨rounds - 1, by omega⟩
  obtain ⟨vs, hvs, each⟩ :=
    found bound n rounds (before ++ [u]) c rest (by omega) (by omega) (by omega) hc
  refine ⟨u :: vs, ?_, .cons same each⟩
  rw [List.append_assoc]
  refine (answer_repeatUpTo_step (open_of_startsType starts) hu rounds).trans ?_
  rw [hvs, List.append_assoc]
  rfl

/-- The items of a list or a tuple, with the closing bracket. -/
lemma FindsItems.answer {items : List TypeExpr} {c : Token} (h : FindsItems ts items)
    (bound n : Nat) (rest : List Token) (hbound : ts.length ≤ bound) (hn : ts.length ≤ n)
    (hc : c.kind = .mark .bracketClose) :
    ∃ us, answer (Parser.items (Parser.type (bound + 1)) .bracketClose) n (ts ++ c :: rest) =
      .ok (us, rest) ∧ EachSame us items := by
  obtain ⟨us, hus, each⟩ := h bound n n [] c rest hbound hn hn hc
  refine ⟨us, ?_, each⟩
  rw [items_eq, answer_repeatWhile_bind hus]
  exact answer_takeMark_bind hc _ n rest

end Brackets

/-! ## Atoms -/

section Atoms

variable {type : TypeParser} {k : Token} {n : Nat} {ts : List Token}

lemma answer_atom_name (hk : k.kind = .name) :
    answer (atom type) n (k :: ts) =
      .ok (if k.isVariable then .typeVariable (.written k.position) ⟨k.text, none⟩
        else .reference (.written k.position) k.text [], ts) := by
  obtain ⟨kind, text, position⟩ := k
  subst hk
  rfl

lemma answer_atom_void (hk : k.kind = .void) :
    answer (atom type) n (k :: ts) = .ok (.unit (.written k.position), ts) := by
  obtain ⟨kind, text, position⟩ := k
  subst hk
  rfl

lemma answer_atom_number {x : Number} (hk : k.kind = .number x) :
    answer (atom type) n (k :: ts) = answer number n (k :: ts) := by
  obtain ⟨kind, text, position⟩ := k
  subst hk
  rfl

lemma answer_atom_parentheses (hk : k.kind = .mark .parenOpen) :
    answer (atom type) n (k :: ts) = answer (parenthesized type) n ts := by
  obtain ⟨kind, text, position⟩ := k
  subst hk
  rfl

lemma answer_atom_list (hk : k.kind = .mark .bracketOpen) :
    answer (atom type) n (k :: ts) = answer (items type .bracketClose >>= fun members =>
      return listOf (.written k.position) members) n ts := by
  obtain ⟨kind, text, position⟩ := k
  subst hk
  rfl

lemma answer_atom_tuple (hk : k.kind = .mark .tupleOpen) :
    answer (atom type) n (k :: ts) = answer (items type .bracketClose >>= fun items =>
      return .tuple (.written k.position) items) n ts := by
  obtain ⟨kind, text, position⟩ := k
  subst hk
  rfl

lemma answer_application_atom (h : ¬ (k.kind = .name ∧ (!k.isVariable) = true)) :
    answer (application type) n (k :: ts) = answer (atom type) n (k :: ts) := by
  rw [application, answer_peek_bind]
  exact congrFun (congrArg (fun p => answer p n) (if_neg h)) _

lemma answer_application_name (hk : k.kind = .name) (other : k.isVariable = false) :
    answer (application type) n (k :: ts) =
      answer (repeatWhile (fun tokens => (tokenAt tokens 0).kind.startsType)
        (fun args => return args ++ [← atom type]) [] >>= fun args =>
          return .reference (.written k.position) k.text args) n ts := by
  rw [application, answer_peek_bind]
  exact congrFun (congrArg (fun p => answer p n) (if_pos ⟨hk, by simp [tokenAt, other]⟩)) _

end Atoms

/-! ## Every phrase is found -/

section Phrases

variable {ts : List Token} {t : TypeExpr} {k c : Token}

/-- An atom that is not a name is found by the production of applications as well. -/
lemma found_atom (h : Phrase .atom ts t) (finds : Finds .atom ts t)
    (other : (tokenAt ts 0).kind = .name → (tokenAt ts 0).isVariable = true) :
    Found .atom ts t := by
  have application : Finds .application ts t := by
    intro bound n commas rest hbound hn hrest
    obtain ⟨u, hu, same⟩ := finds bound n commas rest hbound hn (Nat.le_trans hrest (by decide))
    obtain ⟨k, us, rfl, -⟩ := h.exists_cons
    refine ⟨u, (answer_application_atom ?_).trans hu, same⟩
    rintro ⟨name, free⟩
    have variable_ : k.isVariable = true := other name
    simp [variable_] at free
  exact (found_application h application).tighten rfl finds fun o ho => by cases o <;> cases ho

lemma found_number (h : Phrase .atom ts t) (front : ∃ k us y, ts = k :: us ∧ k.kind = .number y)
    (reads : ∀ n rest, ts.length ≤ n → frontIsMark .caret rest = false →
      frontIsMark .ellipsis rest = false →
      ∃ u, answer Parser.number n (ts ++ rest) = .ok (u, rest) ∧ u.same t = true) :
    Found .atom ts t := by
  obtain ⟨k, us, y, rfl, hk⟩ := front
  refine found_atom h (fun bound n commas rest _ hn hrest => ?_) (by simp [tokenAt, hk])
  obtain ⟨u, hu, same⟩ := reads n rest hn (frontIsMark_of_grip hrest (by decide))
    (frontIsMark_of_grip hrest (by decide))
  exact ⟨u, (answer_atom_number hk).trans hu, same⟩

lemma found_name (hk : k.kind = .name) (other : k.isVariable = false) (m : Mark) :
    Found .atom [k] (.reference m k.text []) := by
  have same (p : Option Position) :
      (reference (.written p) k.text []).same (.reference m k.text []) = true := by
    simp [TypeExpr.same, sameAll]
  have application : Finds .application [k] (.reference m k.text []) := by
    intro bound n commas rest _ _ hrest
    exact ⟨_, (answer_application_name hk other).trans
      (answer_repeatWhile_stop (startsType_of_grip hrest) _ _ _), same k.position⟩
  refine (found_application (.name hk other m) application).tighten rfl
    (fun bound n commas rest _ _ _ => ⟨_, answer_atom_name hk, ?_⟩)
    fun o ho => by cases o <;> cases ho
  rw [other]
  exact same k.position

lemma found_parentheses (hk : k.kind = .mark .parenOpen) (ht : Phrase .predicate ts t)
    (hc : c.kind = .mark .parenClose) (found : Finds .predicate ts t) :
    Found .atom (k :: (ts ++ [c])) t := by
  refine found_atom (.parentheses hk ht hc) (fun bound n commas rest hbound hn _ => ?_)
    (by simp [tokenAt, hk])
  rw [List.length_cons, List.length_append, List.length_singleton] at hbound hn
  obtain ⟨bound, rfl⟩ : ∃ j, bound = j + 1 := ⟨bound - 1, by omega⟩
  obtain ⟨u, hu, same⟩ := found bound n true (c :: rest) (by omega) (by omega)
    (by rw [frontGrip_cons, hc]; decide)
  obtain ⟨j, js, rfl, starts⟩ := ht.exists_cons
  refine ⟨u, ?_, same⟩
  rw [List.cons_append, List.append_assoc]
  refine (answer_atom_parentheses hk).trans ?_
  refine (answer_skipBreaks_bind (newline_of_startsType starts) _ n _).trans ?_
  exact (answer_bind_of_ok hu).trans (answer_takeMark_bind hc _ n rest)

/-- Items in brackets are an atom that is made of them. -/
lemma found_bracketed {items : List TypeExpr} {node : Mark → List TypeExpr → TypeExpr} {m : Mark}
    (h : Phrase .atom (k :: (ts ++ [c])) (node m items)) (opens : k.kind ≠ .name)
    (reads : ∀ (type : TypeParser) n us, answer (atom type) n (k :: us) =
      answer (Parser.items type .bracketClose >>= fun ts =>
        return node (.written k.position) ts) n us)
    (congr : ∀ {p : Mark} {us : List TypeExpr}, EachSame us items →
      (node p us).same (node m items) = true)
    (hc : c.kind = .mark .bracketClose) (found : FindsItems ts items) :
    Found .atom (k :: (ts ++ [c])) (node m items) := by
  refine found_atom h (fun bound n commas rest hbound hn _ => ?_) (fun name => absurd name opens)
  rw [List.length_cons, List.length_append, List.length_singleton] at hbound hn
  obtain ⟨bound, rfl⟩ : ∃ j, bound = j + 1 := ⟨bound - 1, by omega⟩
  obtain ⟨us, hus, each⟩ := found.answer bound n rest (by omega) (by omega) hc
  refine ⟨node (.written k.position) us, ?_, congr each⟩
  rw [List.cons_append, List.append_assoc]
  exact (reads _ _ _).trans (answer_bind_of_ok hus)

lemma found_list {members : List TypeExpr} (hk : k.kind = .mark .bracketOpen)
    (h : Items ts members) (hc : c.kind = .mark .bracketClose) (m : Mark)
    (found : FindsItems ts members) : Found .atom (k :: (ts ++ [c])) (listOf m members) :=
  found_bracketed (.list hk h hc m) (by simp [hk]) (fun _ _ _ => answer_atom_list hk) listOf_congr
    hc found

lemma found_tuple {items : List TypeExpr} (hk : k.kind = .mark .tupleOpen)
    (h : Items ts items) (hc : c.kind = .mark .bracketClose) (m : Mark)
    (found : FindsItems ts items) : Found .atom (k :: (ts ++ [c])) (.tuple m items) :=
  found_bracketed (.tuple hk h hc m) (by simp [hk]) (fun _ _ _ => answer_atom_tuple hk)
    (fun each => by simpa [TypeExpr.same, sameAll_iff] using each) hc found

lemma finds_application {args : List TypeExpr} (hk : k.kind = .name)
    (other : k.isVariable = false) (m : Mark) (found : FindsArguments ts args) :
    Finds .application (k :: ts) (.reference m k.text args) := by
  intro bound n commas rest hbound hn hrest
  rw [List.length_cons] at hbound hn
  obtain ⟨us, hus, each⟩ := found bound n n commas [] rest (by omega) (by omega) (by omega) hrest
  refine ⟨.reference (.written k.position) k.text us, ?_,
    by simpa [TypeExpr.same, sameAll_iff] using each⟩
  exact (answer_application_name hk other).trans (answer_repeatWhile_bind hus _)

end Phrases

mutual

/-- Every phrase is found by the productions of its own level and of all looser ones. -/
lemma found_phrase {ℓ : Level} {ts : List Token} {t : TypeExpr} : Phrase ℓ ts t → Found ℓ ts t
  | .looser h ht => (found_phrase ht).mono h
  | .unit hk m => found_atom (.unit hk m)
    (fun _ n _ rest _ _ _ => ⟨_, answer_atom_void hk, by rw [TypeExpr.same]⟩)
    (by simp [tokenAt, hk])
  | .typeVariable hk m => found_atom (.typeVariable hk m)
    (fun _ n _ rest _ _ _ => by
      have name := hk
      rw [Token.isVariable, Bool.and_eq_true, decide_eq_true_eq] at name
      refine ⟨_, answer_atom_name name.1, ?_⟩
      rw [hk]
      simp [TypeExpr.same])
    fun _ => hk
  | .number hx => found_number (.number hx) hx.exists_cons fun n rest hn => answer_number hx hn
  | .interval hx hk hy m => found_number (.interval hx hk hy m)
    (by
      obtain ⟨j, us, y, rfl, hj⟩ := hx.exists_cons
      exact ⟨j, _, y, rfl, hj⟩)
    fun n rest hn caret _ => answer_interval hx hk hy m hn caret
  | .parentheses hk ht hc => found_parentheses hk ht hc ((found_phrase ht).finds _ (Nat.le_refl _))
  | .list hk h hc m => found_list hk h hc m (finds_items h)
  | .tuple hk h hc m => found_tuple hk h hc m (finds_items h)
  | .name hk other m => found_name hk other m
  | .application hk other h m =>
    found_application (.application hk other h m) (finds_application hk other m (finds_arguments h))
  | .operation o hl hk hr m => found_operator (.operation o hl hk hr m) o
    (((found_phrase hl).arrives o (Nat.le_refl _)).operation hk
      ((found_phrase hr).finds _ (Nat.le_refl _)) m)

lemma finds_arguments {ts : List Token} {args : List TypeExpr} :
    Arguments ts args → FindsArguments ts args
  | .nil => findsArguments_nil
  | .cons ht h => findsArguments_cons ht h ((found_phrase ht).finds _ (Nat.le_refl _))
    (finds_arguments h)

lemma finds_items {ts : List Token} {items : List TypeExpr} : Items ts items → FindsItems ts items
  | .nil => findsItems_nil
  | .last ht => findsItems_last ht ((found_phrase ht).finds _ (Nat.le_refl _))
  | .cons ht hk h => findsItems_cons ht hk ((found_phrase ht).finds _ (Nat.le_refl _))
    (finds_items h)

end

/-! ## A phrase is a whole type -/

lemma answer_wholeType {ℓ : Level} {ts : List Token} {t : TypeExpr} {fin : Token} {n : Nat}
    (h : Phrase ℓ ts t) (hfin : fin.kind = .finish) (hn : n = ts.length + 1) :
    ∃ u, answer wholeType n (ts ++ [fin]) = .ok (u, [fin]) ∧ u.same t = true := by
  have grip : frontGrip true [fin] ≤ Level.predicate.strength := by
    rw [frontGrip_cons, hfin]
    decide
  obtain ⟨u, hu, same⟩ := (found_phrase h).finds .predicate (Nat.zero_le _) ts.length n true [fin]
    (Nat.le_refl _) (by omega) grip
  have read : answer (Parser.type n ⟨true, false⟩) n (ts ++ [fin]) = .ok (u, [fin]) := hn ▸ hu
  obtain ⟨k, us, rfl, starts⟩ := h.exists_cons
  have unfinished : frontIs .finish (k :: us ++ [fin]) = false := by
    rw [frontIs, decide_eq_false_iff_not]
    intro hk
    rw [show k.kind = _ from hk] at starts
    cases starts
  refine ⟨u, ?_, same⟩
  rw [wholeType, List.cons_append, answer_skipBreaks_bind (newline_of_startsType starts),
    ← List.cons_append, answer_asks_bind, unfinished]
  simp only [Bool.false_eq_true, if_false]
  rw [answer_read_bind, answer_bind_of_ok read, answer_skipBreaks_bind (by simp [hfin]),
    answer_asks_bind, frontIs]
  simp only [tokenAt, List.getElem?_cons_zero, Option.getD_some, hfin]
  rfl

end Parser

/-- A text whose tokens are a phrase is read, and as what the phrase denotes. -/
lemma parseType_of_phrase {text : String} {ℓ : Level} {ts : List Token} {t : TypeExpr}
    {fin : Token} (scanned : tokenize text = .ok (ts ++ [fin])) (hfin : fin.kind = .finish)
    (h : Phrase ℓ ts t) : ∃ u, parseType text = .ok u ∧ u.same t = true := by
  obtain ⟨u, hu, same⟩ := Parser.answer_wholeType (n := (ts ++ [fin]).length) h hfin (by simp)
  exact ⟨u, runParser_eq_ok.2 ⟨_, _, scanned, hu⟩, same⟩

end TypeNotation
