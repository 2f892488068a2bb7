import TypeNotation.Proofs.Parser.Reading
import TypeNotation.Proofs.Token.Join
import TypeNotation.Proofs.Token.Positions

/-!
# Every text is read or refused

A production that is given the tokens of a text up to its end either answers and leaves tokens up to
the end, or it refuses the text and points at a token.  Whoever repeats it or goes deeper takes a
token before that, so that the bound on repetition and nesting, which is the number of tokens, is
never reached; and nothing is missing that a production takes for granted.
-/

namespace TypeNotation

namespace Parser

open TypeExpr

variable {α β σ : Type} {P : Position → Prop}

/-- Tokens that are left of a text: the last is the one for its end, and all of them stand at
certain places. -/
structure Left (P : Position → Prop) (ts : List Token) : Prop where
  ended : ts.getLast?.any (·.kind = .finish)
  placed : ∀ t ∈ ts, P t.position

namespace Left

variable {ts : List Token} (h : Left P ts)
include h

lemma exists_cons : ∃ t us, ts = t :: us := by
  rcases ts with _ | ⟨t, us⟩
  · exact absurd h.ended (by simp)
  · exact ⟨t, us, rfl⟩

lemma length_pos : 0 < ts.length := by
  obtain ⟨t, us, rfl⟩ := h.exists_cons
  exact Nat.succ_pos _

lemma front : P (tokenAt ts 0).position := by
  obtain ⟨t, us, rfl⟩ := h.exists_cons
  exact h.placed t List.mem_cons_self

lemma tail (other : (tokenAt ts 0).kind ≠ .finish) : Left P ts.tail := by
  obtain ⟨t, us, rfl⟩ := h.exists_cons
  refine ⟨?_, fun u hu => h.placed u (List.mem_cons_of_mem _ hu)⟩
  cases us with
  | nil =>
    have last : t.kind = .finish := by simpa using h.ended
    exact absurd last other
  | cons u us => simpa using h.ended

lemma dropWhile {Q : Token → Bool} (hQ : ∀ t, t.kind = .finish → Q t = false) :
    Left P (ts.dropWhile Q) := by
  induction ts with
  | nil => exact h
  | cons t ts ih =>
    rw [List.dropWhile_cons]
    split
    · rename_i passed
      refine ih (h.tail fun finish => ?_)
      rw [hQ t finish] at passed
      cases passed
    · exact h

end Left

/-- A production stops as it should: it refuses the text, and points at one of certain places. -/
def Located (P : Position → Prop) : Stop → Prop
  | .refused e => ∃ p, e.position? = some p ∧ P p
  | .exhausted | .broken => False

/-- What becomes of a production on some tokens: it answers, takes so many tokens at least, and
leaves the others up to the end; or it stops as it should. -/
def Settles (P : Position → Prop) (k : Nat) (Post : α → Prop) (ts : List Token) :
    Except Stop (α × List Token) → Prop
  | .ok (a, rest) => Left P rest ∧ rest.length + k ≤ ts.length ∧ Post a
  | .error stop => Located P stop

/-- On at most `L` tokens that are left of a text and satisfy a condition, a production settles. -/
def ReadsOn (P : Position → Prop) (G : List Token → Prop) (L k : Nat) (Post : α → Prop)
    (p : Parser α) : Prop :=
  ∀ n ts, Left P ts → G ts → ts.length ≤ L → ts.length ≤ n → Settles P k Post ts (answer p n ts)

/-- On at most `L` tokens that are left of a text, a production settles. -/
abbrev Reads (P : Position → Prop) (L k : Nat) (Post : α → Prop) (p : Parser α) : Prop :=
  ReadsOn P (fun _ => True) L k Post p

/-- So it does where a given token is at the front. -/
abbrev ReadsAt (P : Position → Prop) (t : Token) (L k : Nat) (Post : α → Prop) (p : Parser α) :
    Prop :=
  ReadsOn P (fun ts => ts.head? = some t) L k Post p

section Rules

variable {G : List Token → Prop} {L k l : Nat} {Mid Post' : α → Prop} {Post : β → Prop}

lemma ReadsOn.on {p : Parser β} (h : Reads P L k Post p) : ReadsOn P G L k Post p :=
  fun n ts left _ hL hn => h n ts left trivial hL hn

lemma ReadsOn.mono {p : Parser α} (h : ReadsOn P G L k Mid p) {L' k' : Nat} (hL : L' ≤ L)
    (hk : k' ≤ k) (hpost : ∀ a, Mid a → Post' a) : ReadsOn P G L' k' Post' p := by
  intro n ts left hG hlen hn
  have settled := h n ts left hG (by omega) hn
  rcases hanswer : answer p n ts with stop | ⟨a, rest⟩
  · rw [hanswer] at settled
    exact settled
  · rw [hanswer] at settled
    obtain ⟨left', taken, post⟩ := settled
    exact ⟨left', by omega, hpost a post⟩

/-- For fewer tokens. -/
lemma ReadsOn.lower {p : Parser β} (h : ReadsOn P G L k Post p) : ReadsOn P G (L - 1) k Post p :=
  h.mono (Nat.sub_le L 1) (Nat.le_refl k) fun _ post => post

/-- Without regard to the tokens that are taken. -/
lemma ReadsOn.loose {p : Parser β} (h : ReadsOn P G L k Post p) : ReadsOn P G L 0 Post p :=
  h.mono (Nat.le_refl L) (Nat.zero_le k) fun _ post => post

lemma reads_pure {b : β} (h : Post b) : Reads P L 0 Post (pure b) :=
  fun _ _ left _ _ _ => ⟨left, Nat.le_refl _, h⟩

lemma reads_throw {stop : Stop} (h : Located P stop) :
    Reads P L k Post (throw stop : Parser β) :=
  fun _ _ _ _ _ _ => h

lemma reads_fail {e : SyntaxError} {p : Position} (h : e.position? = some p) (hp : P p) :
    Reads P L k Post (fail e : Parser β) :=
  reads_throw ⟨p, h, hp⟩

lemma reads_refuse (expected : String) : Reads P L k Post (refuse expected : Parser β) :=
  fun _ _ left _ _ _ => ⟨_, rfl, left.front⟩

/-- One production after another, each of which takes some tokens. -/
lemma ReadsOn.bind {p : Parser α} {f : α → Parser β} (hp : ReadsOn P G L k Mid p)
    (hf : ∀ a, Mid a → Reads P (L - k) l Post (f a)) :
    ReadsOn P G L (k + l) Post (p >>= f) := by
  intro n ts left hG hL hn
  have settled := hp n ts left hG hL hn
  rw [answer_bind]
  rcases hanswer : answer p n ts with stop | ⟨a, rest⟩
  · rw [hanswer] at settled
    exact settled
  · rw [hanswer] at settled
    obtain ⟨left', taken, mid⟩ := settled
    have settled' := hf a mid n rest left' trivial (by omega) (by omega)
    change Settles P (k + l) Post ts (answer (f a) n rest)
    rcases hanswer' : answer (f a) n rest with stop | ⟨b, rest'⟩
    · rw [hanswer'] at settled'
      exact settled'
    · rw [hanswer'] at settled'
      obtain ⟨left'', taken', post⟩ := settled'
      exact ⟨left'', by omega, post⟩

/-- A production that takes a token before another one. -/
lemma ReadsOn.then {p : Parser α} {f : α → Parser β} (hp : ReadsOn P G L 1 Mid p)
    (hf : ∀ a, Mid a → Reads P (L - 1) 0 Post (f a)) : ReadsOn P G L 1 Post (p >>= f) :=
  hp.bind hf

/-- A production before another one that takes the tokens. -/
lemma ReadsOn.after {p : Parser α} {f : α → Parser β} (hp : ReadsOn P G L k Mid p)
    (hf : ∀ a, Mid a → Reads P L l Post (f a)) : ReadsOn P G L l Post (p >>= f) :=
  (hp.bind fun a mid => (hf a mid).mono (Nat.sub_le L k) (Nat.le_refl l) fun _ post => post).mono
    (Nat.le_refl L) (Nat.le_add_left l k) fun _ post => post

lemma reads_refuse_bind (expected : String) (f : α → Parser β) :
    Reads P L k Post (refuse expected >>= f) := by
  have never : Reads P L 0 (fun _ : α => False) (refuse expected) := reads_refuse expected
  exact never.after fun _ none => none.elim

lemma reads_fail_bind {e : SyntaxError} {p : Position} (h : e.position? = some p) (hp : P p)
    (f : α → Parser β) : Reads P L k Post (fail e >>= f) := by
  have never : Reads P L 0 (fun _ : α => False) (fail e) := reads_fail h hp
  exact never.after fun _ none => none.elim

lemma ReadsOn.ite {p q : Parser β} {c : Prop} [Decidable c] (hp : c → ReadsOn P G L k Post p)
    (hq : ¬ c → ReadsOn P G L k Post q) : ReadsOn P G L k Post (if c then p else q) := by
  by_cases h : c
  · rw [if_pos h]
    exact hp h
  · rw [if_neg h]
    exact hq h

/-- A question about the tokens that are left. -/
lemma reads_asks {question : List Token → Bool} {f : Bool → Parser β}
    (hf : ∀ b, ReadsOn P (fun ts => question ts = b) L k Post (f b)) :
    Reads P L k Post (asks question >>= f) :=
  fun n ts left _ hL hn => hf _ n ts left rfl hL hn

/-- A look at the token at the front. -/
lemma reads_peek {f : Token → Parser β}
    (hf : ∀ t, P t.position → ReadsAt P t L k Post (f t)) : Reads P L k Post (peek >>= f) := by
  intro n ts left _ hL hn
  obtain ⟨t, us, rfl⟩ := left.exists_cons
  exact hf t left.front n _ left rfl hL hn

/-- The token at the front is taken. -/
lemma ReadsOn.tail {t : Token} (other : t.kind ≠ .finish) {f : Unit → Parser β}
    (hf : Reads P (L - 1) 0 Post (f ())) : ReadsAt P t L 1 Post (modify List.tail >>= f) := by
  have taken : ReadsAt P t L 1 (fun _ : Unit => True) (modify List.tail) := by
    intro n ts left front _ _
    obtain ⟨u, us, rfl⟩ := left.exists_cons
    obtain rfl : u = t := Option.some.inj front
    exact ⟨left.tail other, Nat.le_refl _, trivial⟩
  exact taken.then fun _ _ => hf

lemma reads_takeMark (p : Punctuation) :
    Reads P L 1 (fun _ : Unit => True) (takeMark p) := by
  intro n ts left _ _ _
  have run : answer (takeMark p) n ts = answer (if frontIsMark p ts then modify List.tail
      else refuse (SyntaxError.quoted p.text)) n ts := rfl
  rw [run]
  split
  · rename_i front
    have mark : (tokenAt ts 0).kind = .mark p := of_decide_eq_true front
    have other : (tokenAt ts 0).kind ≠ .finish := by simp [mark]
    have taken : ts.tail.length + 1 ≤ ts.length := by
      obtain ⟨t, us, rfl⟩ := left.exists_cons
      exact Nat.le_refl _
    exact ⟨left.tail other, taken, trivial⟩
  · exact ⟨_, rfl, left.front⟩

lemma reads_dropWhile {Q : Token → Bool} (hQ : ∀ t, t.kind = .finish → Q t = false) :
    Reads P L 0 (fun _ : Unit => True) (modify (List.dropWhile Q)) :=
  fun _ _ left _ _ _ => ⟨left.dropWhile hQ, (List.dropWhile_sublist Q).length_le, trivial⟩

/-- The number of tokens of the text is asked for. -/
lemma reads_read {f : Nat → Parser β} (hf : ∀ n, Reads P n k Post (f n)) :
    Reads P L k Post (read >>= f) :=
  fun n ts left _ _ hn => hf n n ts left trivial hn hn

/-- An answer that does not depend on the tokens. -/
lemma reads_lift {x : Except Stop β} (hok : ∀ b, x = .ok b → Post b)
    (herror : ∀ stop, x = .error stop → Located P stop) : Reads P L 0 Post (ofResult x) := by
  cases x with
  | ok b => exact reads_pure (hok b rfl)
  | error stop => exact reads_throw (herror stop rfl)

/-! ### Repetition -/

section Repetition

variable {more : List Token → Bool} {step : α → Parser α} {Inv : α → Prop}
  (hstep : ∀ s, Inv s → ReadsOn P (fun ts => more ts = true) L 1 Inv (step s))
include hstep

/-- Rounds as many as there are tokens do not run out, since each of them takes a token. -/
lemma reads_repeatUpTo (rounds : Nat) {l : Nat} (hl : l ≤ L) (enough : l ≤ rounds) {s : α}
    (inv : Inv s) : Reads P l 0 Inv (repeatUpTo more step rounds s) := by
  induction rounds generalizing l s with
  | zero =>
    intro n ts left _ short _
    have := left.length_pos
    omega
  | succ rounds ih =>
    refine reads_asks fun goesOn => ?_
    cases goesOn with
    | false => exact (reads_pure inv).on
    | true =>
      have first := (hstep s inv).mono hl (Nat.le_refl 1) fun _ inv => inv
      exact (first.then fun s' inv' => ih (by omega) (by omega) inv').loose

lemma reads_repeatWhile {s : α} (start : Inv s) : Reads P L 0 Inv (repeatWhile more step s) :=
  fun n ts left _ hL hn =>
    reads_repeatUpTo hstep n hL hn start n ts left trivial (Nat.le_refl _) hn

/-- A repetition with a first round takes a token. -/
lemma reads_repeatWhile_once {s : α} (start : Inv s) :
    ReadsOn P (fun ts => more ts = true) L 1 Inv (repeatWhile more step s) := by
  intro n ts left goesOn hL hn
  obtain ⟨rounds, rfl⟩ := Nat.exists_eq_add_one.2 (Nat.lt_of_lt_of_le left.length_pos hn)
  have first := (hstep s start).mono hL (Nat.le_refl 1) fun _ inv => inv
  have onward := first.then fun s' inv' =>
    reads_repeatUpTo hstep rounds (by omega) (by omega) inv'
  have run : answer (repeatWhile more step s) (rounds + 1) ts =
      answer (step s >>= repeatUpTo more step rounds) (rounds + 1) ts := by
    have unfolded : answer (repeatWhile more step s) (rounds + 1) ts = _ :=
      answer_repeatUpTo rounds s (rounds + 1) ts
    rwa [if_pos goesOn] at unfolded
  rw [run]
  exact onward (rounds + 1) ts left goesOn (Nat.le_refl _) hn

end Repetition

/-- A list that grows by one element. -/
lemma ReadsOn.snoc {p : Parser α} (hp : ReadsOn P G L k Mid p) {xs : List α}
    (hxs : ∀ x ∈ xs, Mid x) :
    ReadsOn P G L k (fun xs => ∀ x ∈ xs, Mid x) (do return xs ++ [← p]) :=
  hp.bind fun a ha => reads_pure (List.forall_mem_append.2 ⟨hxs, by simpa using ha⟩)

/-- A list that grows by one element behind a mark in each round. -/
lemma reads_separated {more : List Token → Bool} (mark : Punctuation) {p : Parser α}
    (hp : Reads P L k Mid p) {xs : List α} (hxs : ∀ x ∈ xs, Mid x) :
    Reads P L 0 (fun xs => ∀ x ∈ xs, Mid x) (repeatWhile more (fun xs => do
      takeMark mark
      return xs ++ [← p]) xs) := by
  refine reads_repeatWhile (fun xs hxs => ReadsOn.on ?_) hxs
  exact (reads_takeMark mark).then fun _ _ => (hp.snoc hxs).lower.loose

end Rules

/-! ## Numbers -/

variable {L : Nat}

/-- Something that is written at one of certain places, if it is written at all. -/
def Sited (P : Position → Prop) (place : Option Position) : Prop :=
  ∀ p, place = some p → P p

lemma sited_some {p : Position} (h : P p) : Sited P (some p) :=
  fun _ hq => Option.some.inj hq ▸ h

lemma reads_literal : Reads P L 1 (fun x => Sited P x.position) literal := by
  refine reads_peek fun t ht => ?_
  obtain ⟨kind, text, position⟩ := t
  cases kind with
  | number x => exact .tail (by simp) (reads_pure (sited_some ht))
  | _ => exact (reads_refuse _).on

lemma sited_powerTower {base : Numeral} {exponents : List Numeral}
    (h : Sited P base.position) : Sited P (powerTower base exponents).position := by
  cases exponents <;> exact h

lemma reads_numeral : Reads P L 1 (fun x => Sited P x.position) numeral := by
  refine reads_literal.then fun base hbase => ?_
  exact (reads_separated .caret reads_literal (by simp)).after fun exponents _ =>
    reads_pure (sited_powerTower hbase)

lemma reads_number : Reads P L 1 (fun t => Sited P t.position) number := by
  refine reads_peek fun start hstart => ReadsOn.on ?_
  refine reads_numeral.then fun low hlow => reads_asks fun ahead => ReadsOn.on ?_
  cases ahead with
  | false => exact reads_pure hlow
  | true =>
    refine (reads_takeMark _).after fun _ _ => reads_numeral.loose.after fun high _ => ?_
    exact reads_pure (sited_some hstart)

section Brackets

variable {type : TypeParser}
  (htype : ∀ around, Reads P (L - 1) 1 (fun t => Sited P t.position) (type around))
include htype

/-! ## Brackets -/

lemma reads_items (closer : Punctuation) :
    Reads P (L - 1) 1 (fun _ => True) (items type closer) := by
  have step (ts : List TypeExpr) : Reads P (L - 1) 1 (fun _ => True) (do
      let t ← type ⟨false, false⟩
      if ← asks (frontIsMark .comma) then takeMark .comma
      else if !(← asks (frontIsMark closer)) then
        refuse ("',' or " ++ SyntaxError.quoted closer.text)
      return ts ++ [t]) := by
    refine (htype _).then fun t _ => reads_asks fun comma => ReadsOn.on ?_
    cases comma with
    | true => exact (reads_takeMark _).after fun _ _ => reads_pure trivial
    | false =>
      refine reads_asks fun closes => ReadsOn.on ?_
      cases closes with
      | true => exact reads_pure trivial
      | false => exact reads_refuse_bind _ _
  refine (reads_repeatWhile (fun ts _ => (step ts).on) trivial).after fun ts _ => ?_
  exact (reads_takeMark _).bind fun _ _ => reads_pure trivial

lemma reads_parenthesized :
    Reads P (L - 1) 1 (fun t => Sited P t.position) (parenthesized type) := by
  refine (reads_dropWhile fun t finish => by simp [finish]).after fun _ _ => ?_
  refine (htype _).then fun t ht => ?_
  exact (reads_takeMark _).after fun _ _ => reads_pure ht

lemma reads_field (earlier : List (Field TypeExpr)) :
    Reads P (L - 1) 1 (fun _ => True) (field type earlier) := by
  refine reads_peek fun name hname => ?_
  dsimp only
  refine .ite (fun _ => (reads_refuse_bind _ _).on) fun named => .tail (fun finish => ?_) ?_
  · rw [finish] at named
    exact named nofun
  refine .ite (fun _ => reads_fail_bind rfl hname _) fun _ => ?_
  refine (reads_dropWhile fun t finish => by simp [finish]).after fun _ _ => ?_
  refine (reads_takeMark _).after fun _ _ => ?_
  exact ((htype _).lower.bind fun t _ => reads_pure trivial).loose

lemma reads_fields : Reads P (L - 1) 1 (fun _ => True) (fields type) := by
  have step (fs : List (Field TypeExpr)) : Reads P (L - 1) 1 (fun _ => True) (do
      let f ← field type fs
      if ← asks (fun tokens => frontIsMark .comma tokens || frontIs .newline tokens) then
        skipSeparators
      else if !(← asks (frontIsMark .braceClose)) then refuse "',', a line break or '\x7d'"
      return fs ++ [f]) := by
    refine (reads_field htype fs).then fun f _ => reads_asks fun separated => ReadsOn.on ?_
    cases separated with
    | true =>
      exact (reads_dropWhile fun t finish => by simp [finish]).after fun _ _ => reads_pure trivial
    | false =>
      refine reads_asks fun closes => ReadsOn.on ?_
      cases closes with
      | true => exact reads_pure trivial
      | false => exact reads_refuse_bind _ _
  refine (reads_dropWhile fun t finish => by simp [finish]).after fun _ _ => ?_
  refine (reads_repeatWhile (fun fs _ => (step fs).on) trivial).after fun fs _ => ?_
  exact (reads_takeMark _).bind fun _ _ => reads_pure trivial

/-! ## Atoms and applications -/

lemma reads_atom : Reads P L 1 (fun t => Sited P t.position) (atom type) := by
  refine reads_peek fun token htoken => ?_
  have items (closer : Punctuation) (make : List TypeExpr → TypeExpr) (other : token.kind ≠ .finish)
      (h : ∀ ts, (make ts).position = some token.position) :
      ReadsAt P token L 1 (fun t => Sited P t.position)
        (modify List.tail >>= fun _ => items type closer >>= fun ts => pure (make ts)) :=
    .tail other ((reads_items htype closer).loose.after fun ts _ =>
      reads_pure (h ts ▸ sited_some htoken))
  obtain ⟨kind, text, position⟩ := token
  cases kind with
  | name =>
    refine .tail (by simp) (reads_pure ?_)
    split <;> exact sited_some htoken
  | void => exact .tail (by simp) (reads_pure (sited_some htoken))
  | number x => exact reads_number.on
  | mark p =>
    cases p with
    | parenOpen => exact .tail (by simp) (reads_parenthesized htype).loose
    | bracketOpen => exact items .bracketClose _ (by simp) fun ts => rfl
    | tupleOpen => exact items .bracketClose _ (by simp) fun ts => rfl
    | braceOpen =>
      refine .tail (by simp) ((reads_fields htype).loose.after fun fs _ => reads_pure ?_)
      exact sited_some htoken
    | _ => exact (reads_refuse _).on
  | newline => exact (reads_refuse _).on
  | finish => exact (reads_refuse _).on

lemma reads_application : Reads P L 1 (fun t => Sited P t.position) (application type) := by
  refine reads_peek fun token htoken => ?_
  refine .ite (fun named => .tail (fun finish => ?_) ?_) fun _ => (reads_atom htype).on
  · rw [finish] at named
    exact absurd named.1 nofun
  have args : Reads P (L - 1) 0 (fun ts => ∀ t ∈ ts, Sited P t.position)
      (repeatWhile (fun tokens => (tokenAt tokens 0).kind.startsType)
        (fun args => return args ++ [← atom type]) []) :=
    reads_repeatWhile (fun args hargs => ((reads_atom htype).lower.snoc hargs).on) (by simp)
  exact args.after fun args _ => reads_pure (sited_some htoken)

/-! ## Operators -/

lemma reads_delegation (commas : Bool) :
    Reads P L 1 (fun t => Sited P t.position) (delegation type commas) := by
  refine reads_peek fun start hstart => ReadsOn.on ?_
  have operand := (reads_application htype).lower
  refine (reads_application htype).then fun base hbase => ?_
  refine reads_repeatWhile (fun base _ => ReadsOn.on ?_) hbase
  refine (reads_takeMark _).then fun _ _ => operand.lower.loose.after fun first hfirst => ?_
  exact (reads_separated .comma operand.lower (by simpa using hfirst)).after fun targets _ =>
    reads_pure (sited_some hstart)

omit htype in
/-- A chain of an operator that groups to the left. -/
lemma reads_chain {start : Position} (hstart : P start) (mark : Punctuation)
    {operand : Parser TypeExpr} (hoperand : Reads P L 1 (fun t => Sited P t.position) operand)
    {make : TypeExpr → TypeExpr → TypeExpr} (h : ∀ t u, (make t u).position = some start) :
    Reads P L 1 (fun t => Sited P t.position) (operand >>= fun first =>
      repeatWhile (frontIsMark mark) (fun left => do
        takeMark mark
        return make left (← operand)) first) := by
  refine hoperand.then fun first hfirst => ?_
  refine reads_repeatWhile (fun left _ => ReadsOn.on ?_) hfirst
  refine (reads_takeMark mark).then fun _ _ => hoperand.lower.lower.loose.after fun right _ => ?_
  exact reads_pure (h left right ▸ sited_some hstart)

lemma reads_complement (commas : Bool) :
    Reads P L 1 (fun t => Sited P t.position) (complement type commas) :=
  reads_peek fun _ hstart =>
    (reads_chain hstart .backslash (reads_delegation htype commas) fun _ _ => rfl).on

lemma reads_union (commas : Bool) :
    Reads P L 1 (fun t => Sited P t.position) (union type commas) :=
  reads_peek fun _ hstart =>
    (reads_chain hstart .plus (reads_complement htype commas) fun _ _ => rfl).on

/-! ## Alternatives -/

omit htype in
lemma located_distinctTags {start : Position} (hstart : P start) {ts : List TypeExpr}
    (hts : ∀ t ∈ ts, Sited P t.position) (bare : ∀ t ∈ ts, (tagOf? t).isSome)
    {earlier : List (Tag TypeExpr)} {stop : Stop}
    (h : distinctTags start earlier ts = .error stop) :
    Located P stop := by
  induction ts generalizing earlier with
  | nil => cases h
  | cons t ts ih =>
    rw [List.forall_mem_cons] at hts bare
    obtain ⟨g, hg⟩ := Option.isSome_iff_exists.1 bare.1
    rw [distinctTags, hg] at h
    dsimp only at h
    split at h
    · cases h
      cases hposition : t.position with
      | none => exact ⟨start, rfl, hstart⟩
      | some p => exact ⟨p, rfl, hts.1 p hposition⟩
    · exact ih hts.2 bare.2 h

omit htype in
lemma sited_unionOf {start : Position} (hstart : P start) (first : TypeExpr) {ts : List TypeExpr}
    (h : ts ≠ []) : Sited P (unionOf start first ts).position := by
  induction ts generalizing first with
  | nil => exact absurd rfl h
  | cons t ts ih =>
    cases ts with
    | nil => exact sited_some hstart
    | cons u ts => exact ih (.union (.written none) first t) (List.cons_ne_nil _ _)

lemma reads_alternatives (around : Surroundings) :
    Reads P L 1 (fun t => Sited P t.position) (alternatives type around) := by
  refine reads_peek fun start hstart => ReadsOn.on ?_
  have operand := (reads_union htype around.commas).lower
  refine (reads_union htype around.commas).then fun first hfirst => ?_
  refine (reads_separated .bar operand (by simp)).after fun more hmore => ?_
  refine .ite (fun _ => reads_pure hfirst) fun nonempty => ?_
  refine reads_asks fun ends => ReadsOn.on ?_
  refine .ite (fun tagged => ?_) fun _ => ?_
  · have each : ∀ t ∈ first :: more, Sited P t.position := List.forall_mem_cons.2 ⟨hfirst, hmore⟩
    have bare : ∀ t ∈ first :: more, (tagOf? t).isSome :=
      List.all_eq_true.1 (Bool.and_eq_true_iff.1 tagged).2
    have tags : Reads P (L - 1) 0 (fun _ => True)
        (ofResult (distinctTags start.position [] (first :: more))) :=
      reads_lift (fun _ _ => trivial) fun stop h => located_distinctTags hstart each bare h
    exact tags.after fun tags _ => reads_pure (sited_some hstart)
  · exact reads_pure (sited_unionOf hstart first (by simpa using nonempty))

/-! ## Functions -/

omit htype in
/-- A parameter knows its place, and its type stands where it may. -/
def Stands (P : Position → Prop) (p : Parameter TypeExpr) : Prop :=
  (∃ place, p.position = some place ∧ P place) ∧ Sited P p.type.position

lemma reads_parameter (around : Surroundings) :
    Reads P L 1 (Stands P) (parameter type around) := by
  refine reads_peek fun start hstart => ReadsOn.on ?_
  refine (reads_alternatives htype around).then fun t ht => reads_asks fun optional => ReadsOn.on ?_
  have suffixed (suffix : Suffix) :
      Reads P (L - 1) 0 (Stands P) (pure ⟨t, suffix, start.position⟩) :=
    reads_pure ⟨⟨start.position, rfl, hstart⟩, ht⟩
  cases optional with
  | true => exact (reads_takeMark _).after fun _ _ => suffixed .optional
  | false =>
    refine reads_asks fun variadic => ReadsOn.on ?_
    cases variadic with
    | true => exact (reads_takeMark _).after fun _ _ => suffixed .variadic
    | false => exact suffixed .none

lemma reads_parameters (around : Surroundings) :
    Reads P L 1 (fun ps => ∀ p ∈ ps, Stands P p) (parameters type around) :=
  (reads_parameter htype around).then fun first hfirst =>
    reads_separated .comma (reads_parameter htype around).lower (by simpa using hfirst)

omit htype in
lemma located_outputsOf {ps : List (Parameter TypeExpr)} (hps : ∀ p ∈ ps, Stands P p)
    {stop : Stop} (h : outputsOf ps = .error stop) : Located P stop := by
  induction ps with
  | nil => cases h
  | cons p ps ih =>
    rw [List.forall_mem_cons] at hps
    rw [outputsOf] at h
    split at h
    · cases hrest : outputsOf ps with
      | error stop' =>
        rw [hrest] at h
        cases h
        exact ih hps.2 hrest
      | ok ts =>
        rw [hrest] at h
        cases h
    · obtain ⟨⟨place, position, placed⟩, -⟩ := hps.1
      rw [placeOf, position] at h
      cases h
      exact ⟨place, rfl, placed⟩

omit htype in
lemma located_checkInputs {ps : List (Parameter TypeExpr)} (hps : ∀ p ∈ ps, Stands P p)
    {stop : Stop} (h : checkInputs ps = .error stop) : Located P stop := by
  induction ps with
  | nil => cases h
  | cons p ps ih =>
    rw [List.forall_mem_cons] at hps
    cases ps with
    | nil => cases h
    | cons q ps =>
      rw [checkInputs] at h
      · split at h
        · obtain ⟨⟨place, position, placed⟩, -⟩ := hps.1
          rw [placeOf, position] at h
          cases h
          exact ⟨place, rfl, placed⟩
        · exact ih hps.2 h
      · simp

omit htype in
/-- A function is put together of something found and inputs that are checked afterwards. -/
lemma settled_assemble {start : Position} (hstart : P start)
    {inputs : List (Parameter TypeExpr)} (hinputs : ∀ p ∈ inputs, Stands P p) {x : Except Stop α}
    (hx : ∀ stop, x = .error stop → Located P stop) (outputs : α → List TypeExpr) :
    (∀ t, (do
        let a ← x
        checkInputs inputs
        return TypeExpr.function (.written start) inputs (outputs a)) = .ok t →
          Sited P t.position) ∧
      ∀ stop, (do
        let a ← x
        checkInputs inputs
        return TypeExpr.function (.written start) inputs (outputs a)) = .error stop →
          Located P stop := by
  constructor
  · intro t h
    obtain ⟨a, -, h⟩ := bind_eq_ok.1 h
    obtain ⟨_, -, h⟩ := bind_eq_ok.1 h
    cases h
    exact sited_some hstart
  · intro stop h
    rcases bind_eq_error.1 h with h | ⟨a, -, h⟩
    · exact hx stop h
    · rcases bind_eq_error.1 h with h | ⟨_, -, h⟩
      · exact located_checkInputs hinputs h
      · cases h

omit htype in
lemma settled_functionOf {start : Position} (hstart : P start)
    {inputs : List (Parameter TypeExpr)} (hinputs : ∀ p ∈ inputs, Stands P p)
    {groups : List (Position × List (Parameter TypeExpr))}
    (hgroups : ∀ g ∈ groups, P g.1 ∧ ∀ p ∈ g.2, Stands P p) :
    (∀ t, functionOf start inputs groups = .ok t → Sited P t.position) ∧
      ∀ stop, functionOf start inputs groups = .error stop → Located P stop := by
  induction groups generalizing start inputs with
  | nil =>
    refine ⟨fun t h => ?_, nofun⟩
    cases h
    exact sited_some hstart
  | cons g groups ih =>
    rw [List.forall_mem_cons] at hgroups
    cases groups with
    | nil => exact settled_assemble hstart hinputs (fun stop h => located_outputsOf hgroups.1.2 h) _
    | cons g' groups =>
      have inner := ih hgroups.1.1 hgroups.1.2 hgroups.2
      exact settled_assemble hstart hinputs inner.2 fun output => [output]

lemma reads_group (around : Surroundings)
    (groups : List (Position × List (Parameter TypeExpr)))
    (hgroups : ∀ g ∈ groups, P g.1 ∧ ∀ p ∈ g.2, Stands P p) :
    Reads P L 1 (fun groups => ∀ g ∈ groups, P g.1 ∧ ∀ p ∈ g.2, Stands P p) (do
      takeMark .arrow
      let inner ← peek
      return groups ++ [(inner.position, ← parameters type around)]) := by
  refine (reads_takeMark _).then fun _ _ => reads_peek fun inner hinner => ReadsOn.on ?_
  refine (reads_parameters htype around).lower.loose.after fun ps hps => reads_pure ?_
  exact List.forall_mem_append.2 ⟨hgroups, by simpa using ⟨hinner, hps⟩⟩

omit htype in
lemma reads_withoutArrow {inputs : List (Parameter TypeExpr)} (hinputs : ∀ p ∈ inputs, Stands P p) :
    Reads P L 0 (fun t => Sited P t.position) (withoutArrow inputs) := by
  rcases inputs with _ | ⟨⟨t, suffix, place⟩, _ | ⟨q, rest⟩⟩
  · exact reads_refuse _
  · cases suffix with
    | none => exact reads_pure (hinputs _ List.mem_cons_self).2
    | _ => exact reads_refuse _
  · cases suffix <;> exact reads_refuse _

lemma reads_function (around : Surroundings) :
    Reads P L 1 (fun t => Sited P t.position) (function type around) := by
  refine reads_peek fun start hstart => ReadsOn.on ?_
  refine reads_asks fun arrow => ?_
  have step := reads_group htype ⟨around.commas, false⟩
  have finished (inputs : List (Parameter TypeExpr)) (hinputs : ∀ p ∈ inputs, Stands P p)
      (groups : List (Position × List (Parameter TypeExpr)))
      (hgroups : ∀ g ∈ groups, P g.1 ∧ ∀ p ∈ g.2, Stands P p) :
      Reads P (L - 1) 0 (fun t => Sited P t.position)
        (if !groups.isEmpty then ofResult (functionOf start.position inputs groups)
        else withoutArrow inputs) := by
    have settled := settled_functionOf hstart hinputs hgroups
    exact .ite (fun _ => reads_lift settled.1 settled.2) fun _ => reads_withoutArrow hinputs
  cases arrow with
  | true =>
    exact (reads_repeatWhile_once (fun groups hgroups => (step groups hgroups).on) (by simp)).then
      (finished [] (by simp))
  | false =>
    refine (reads_parameters htype around).on.then fun inputs hinputs => ?_
    exact (reads_repeatWhile (fun groups hgroups => (step groups hgroups).lower.on) (by simp)).after
      (finished inputs hinputs)

end Brackets

/-! ## Predicates -/

lemma left_binders? {commas : Bool} : ∀ {ts after : List Token} {bs : List Binder}, Left P ts →
    binders? commas ts = some (bs, after) → Left P after ∧ after.length ≤ ts.length
  | [], _, _, _, h => by cases h
  | [t], _, _, _, h => by simp [binders?] at h
  | t :: u :: ts, after, bs, left, h => by
    by_cases variable_ : t.isVariable
    · rw [binders?_variable variable_] at h
      have named : t.kind = .name := by
        by_contra other
        rw [isVariable_eq_false other] at variable_
        cases variable_
      have behind : Left P (u :: ts) := left.tail (by simp [tokenAt, named])
      split at h
      · rename_i colon
        cases h
        have rest : Left P ts := behind.tail (by simp [tokenAt, colon])
        exact ⟨rest, by simp only [List.length_cons]; omega⟩
      · split at h
        · rename_i comma
          have rest : Left P ts := behind.tail (by simp [tokenAt, comma.1])
          obtain ⟨⟨bs', after'⟩, inner, h⟩ := Option.map_eq_some_iff.1 h
          cases h
          obtain ⟨left', short⟩ := left_binders? rest inner
          exact ⟨left', by simp only [List.length_cons]; omega⟩
        · cases h
    · have absent : t.isVariable = false := by simpa using variable_
      have none : binders? commas (t :: u :: ts) = none := binders?_eq_none absent
      rw [none] at h
      cases h

lemma reads_binders (commas : Bool) : Reads P L 0 (fun _ => True) (binders commas) := by
  intro n ts left _ _ _
  have run := answer_binders_bind commas pure n ts
  rw [bind_pure] at run
  rw [run]
  cases h : binders? commas ts with
  | none => exact ⟨left, Nat.le_refl _, trivial⟩
  | some found =>
    obtain ⟨left', short⟩ := left_binders? left h
    exact ⟨left', short, trivial⟩

/-- On as many tokens as the bound allows for levels, a type is read or refused. -/
lemma reads_type (bound : Nat) (around : Surroundings) :
    Reads P bound 1 (fun t => Sited P t.position) (type bound around) := by
  induction bound generalizing around with
  | zero =>
    intro n ts left _ short _
    have := left.length_pos
    omega
  | succ bound ih =>
    refine reads_peek fun start hstart => ReadsOn.on ?_
    refine (reads_binders _).after fun listed _ => .ite (fun _ => ?_) fun _ => ?_
    · refine (reads_function ih around).then fun t ht => reads_asks fun implies => ReadsOn.on ?_
      cases implies with
      | true =>
        refine (reads_takeMark _).after fun _ _ => (ih around).loose.after fun body _ => ?_
        exact reads_pure (sited_some hstart)
      | false => exact reads_pure ht
    · refine (reads_function ih ⟨around.commas, false⟩).then fun constraint _ => ?_
      refine (reads_takeMark _).after fun _ _ => (ih around).loose.after fun body _ => ?_
      exact reads_pure (sited_some hstart)

/-! ## Declarations -/

lemma reads_next {t : Token} (other : t.kind ≠ .finish) :
    ReadsAt P t L 1 (fun t => P t.position) next := by
  intro n ts left front _ _
  obtain ⟨u, us, rfl⟩ := left.exists_cons
  obtain rfl : u = t := Option.some.inj front
  exact ⟨left.tail other, Nat.le_refl _, left.front⟩

lemma reads_declaredName : Reads P L 1 (fun t => P t.position) declaredName := by
  refine reads_peek fun token htoken => ?_
  dsimp only
  refine .ite (fun _ => (reads_fail_bind rfl htoken _).on) fun _ => ?_
  refine .ite (fun named => reads_next fun finish => ?_) fun _ => (reads_refuse _).on
  rw [finish] at named
  exact absurd named.1 nofun

lemma reads_declaredParameter (earlier : List Binder) :
    ReadsOn P (fun ts => frontIs .name ts = true) L 1 (fun _ => True)
      (declaredParameter earlier) := by
  intro n ts left front hL hn
  obtain ⟨t, us, rfl⟩ := left.exists_cons
  have named : t.kind = .name := of_decide_eq_true front
  have taken : ReadsAt P t L 1 (fun _ => True) (declaredParameter earlier) := by
    refine (reads_next (by simp [named])).then fun token htoken => ?_
    refine .ite (fun _ => reads_fail_bind rfl htoken _) fun _ => ?_
    exact .ite (fun _ => reads_fail_bind rfl htoken _) fun _ => reads_pure trivial
  exact taken n _ left rfl hL hn

lemma reads_declaration : Reads P L 1 (fun _ => True) declaration := by
  refine reads_declaredName.then fun name _ => ?_
  have parameters : Reads P (L - 1) 0 (fun _ : List Binder => True)
      (repeatWhile (frontIs .name)
        (fun parameters => return parameters ++ [← declaredParameter parameters]) []) :=
    reads_repeatWhile (fun earlier _ =>
      (reads_declaredParameter earlier).bind fun _ _ => reads_pure trivial) trivial
  refine parameters.after fun bs _ => (reads_takeMark _).after fun _ _ => ?_
  exact reads_read fun n => (reads_type n _).loose.after fun body _ => reads_pure trivial

lemma reads_anotherDeclaration (ds : List Declaration) :
    Reads P L 1 (fun _ => True) (anotherDeclaration ds) := by
  refine reads_declaration.then fun d _ => reads_asks fun ends => ReadsOn.on ?_
  refine .ite (fun _ => reads_refuse_bind _ _) fun _ => ?_
  exact (reads_dropWhile fun t finish => by simp [finish]).after fun _ _ => reads_pure trivial

lemma reads_declarations : Reads P L 0 (fun _ => True) declarations := by
  refine (reads_dropWhile fun t finish => by simp [finish]).after fun _ _ => ?_
  exact reads_repeatWhile (fun ds _ => (reads_anotherDeclaration ds).on) trivial

lemma reads_wholeType (origin : P ⟨1, 1⟩) : Reads P L 0 (fun _ => True) wholeType := by
  refine (reads_dropWhile fun t finish => by simp [finish]).after fun _ _ => ?_
  refine reads_asks fun empty => ReadsOn.on ?_
  refine .ite (fun _ => reads_fail_bind rfl origin _) fun _ => ?_
  refine reads_read fun n => (reads_type n _).loose.after fun t _ => ?_
  refine (reads_dropWhile fun t finish => by simp [finish]).after fun _ _ => ?_
  refine reads_asks fun ends => ReadsOn.on ?_
  exact .ite (fun _ => reads_refuse_bind _ _) fun _ => reads_pure trivial

end Parser

/-! ## Texts -/

/-- The tokens of a text are left of it. -/
lemma left_of_tokenize {text : String} {tokens : List Token} (h : tokenize text = .ok tokens) :
    Parser.Left (Position.In text.toList) tokens := by
  obtain ⟨before, fin, split, hfin, -⟩ := tokenize_finish h
  exact ⟨by simp [split, hfin], (tokenize_points text).1 tokens h⟩

lemma reading_settles {α : Type} {p : Parser α} {text : String}
    (hp : ∀ L, Parser.Reads (Position.In text.toList) L 0 (fun _ => True) p) :
    (∃ a, reading p text = .ok a ∧ runParser p text = .ok a) ∨
      ∃ e, reading p text = .error (.refused e) ∧ runParser p text = .error e ∧
        e.PointsInto text.toList := by
  rw [runParser, reading]
  cases htokens : tokenize text with
  | error e => exact .inr ⟨e, rfl, rfl, (tokenize_points text).2 e htokens⟩
  | ok tokens =>
    have settled := hp tokens.length tokens.length tokens (left_of_tokenize htokens) trivial
      (Nat.le_refl _) (Nat.le_refl _)
    dsimp only
    rw [Parser.answer] at settled
    rcases hrun : (p.run tokens.length).run tokens with (e | _ | _) | ⟨a, rest⟩
    · rw [hrun] at settled
      obtain ⟨place, position, placed⟩ := settled
      exact .inr ⟨e, rfl, rfl, .of_position position placed⟩
    · rw [hrun] at settled
      exact settled.elim
    · rw [hrun] at settled
      exact settled.elim
    · exact .inl ⟨a, rfl, rfl⟩

/-- Every text is read or refused, as declarations and as a type: neither is the bound on repetition
and nesting reached, nor is anything missing that is taken for granted.  A line break among the
tokens always has a token after it.  An error points into the text; the one that has no position
says that a digit has no place value, and there is such a digit in the text. -/
theorem parsing_total (text : String) :
    ((∃ ds, reading Parser.declarations text = .ok ds ∧ parse text = .ok ds) ∨
      ∃ e, reading Parser.declarations text = .error (.refused e) ∧ parse text = .error e ∧
        e.PointsInto text.toList) ∧
    ((∃ t, reading Parser.wholeType text = .ok t ∧ parseType text = .ok t) ∨
      ∃ e, reading Parser.wholeType text = .error (.refused e) ∧ parseType text = .error e ∧
        e.PointsInto text.toList) ∧
    ∀ all, scan text = .ok all → ∃ before p, all = before ++ closing p ∧
      ∀ t ∈ before, t.kind ≠ .finish := by
  refine ⟨reading_settles fun L => Parser.reads_declarations, reading_settles fun L => ?_,
    fun all h => scan_closing h⟩
  exact Parser.reads_wholeType (Position.in_after [] text.toList)

end TypeNotation
