import Mathlib
import TypeNotation.Proofs.Parser.Reading
import TypeNotation.Proofs.TypeExpr.WellFormed

/-!
# What is read is well formed

Every production but those for alternatives, parameters, functions and types answers a type that is
well formed in a closed place.  Those four may answer constructors if they are told that they read
for an open place.  Whether they do depends on the tokens that are left: constructors are only
answered where no arrow, no suffix and no comma of a list follows, which is why neither an input of
a function nor an item of a list is made of them.
-/

namespace TypeNotation

open TypeExpr

namespace Parser

variable {α β σ : Type}

/-! ## Conditions on answers -/

/-- Tokens among which no name is a reserved word. -/
def Clean (ts : List Token) : Prop :=
  ∀ t ∈ ts, t.Sincere

lemma Clean.subset {ts us : List Token} (h : Clean ts) (sub : us ⊆ ts) : Clean us :=
  fun t ht => h t (sub ht)

lemma Clean.tail {ts : List Token} (h : Clean ts) : Clean ts.tail :=
  h.subset (List.tail_sublist ts).subset

lemma Clean.dropWhile {ts : List Token} (h : Clean ts) (P : Token → Bool) :
    Clean (ts.dropWhile P) :=
  h.subset (List.dropWhile_sublist P).subset

lemma Clean.front {ts : List Token} (h : Clean ts) : (tokenAt ts 0).Sincere := by
  cases ts with
  | nil =>
    intro name
    cases name
  | cons t ts => exact h t List.mem_cons_self

/-- What a production answers on some tokens satisfies a condition together with the tokens that it
leaves, and these are clean. -/
def Delivers (ts : List Token) (p : Parser α) (Post : α → List Token → Prop) : Prop :=
  ∀ n a rest, answer p n ts = .ok (a, rest) → Clean rest ∧ Post a rest

/-- So it is on all clean tokens, whatever is left. -/
def Gives (p : Parser α) (Post : α → Prop) : Prop :=
  ∀ ts, Clean ts → Delivers ts p fun a _ => Post a

section Rules

variable {ts : List Token} {Mid : α → List Token → Prop} {Post : β → List Token → Prop}

lemma delivers_pure {b : β} (clean : Clean ts) (h : Post b ts) : Delivers ts (pure b) Post := by
  intro n a rest ha
  cases ha
  exact ⟨clean, h⟩

lemma delivers_throw (e : Stop) : Delivers ts (throw e : Parser β) Post := by
  intro n a rest ha
  cases ha

lemma Delivers.mono {p : Parser α} {Post' : α → List Token → Prop} (h : Delivers ts p Mid)
    (hpost : ∀ a rest, Mid a rest → Post' a rest) : Delivers ts p Post' :=
  fun n a rest ha => ⟨(h n a rest ha).1, hpost a rest (h n a rest ha).2⟩

lemma Delivers.bind {p : Parser α} {f : α → Parser β} (hp : Delivers ts p Mid)
    (hf : ∀ a us, Clean us → Mid a us → Delivers us (f a) Post) : Delivers ts (p >>= f) Post := by
  intro n b rest hb
  obtain ⟨a, us, ha, hb⟩ := answer_bind_eq_ok.1 hb
  obtain ⟨clean, mid⟩ := hp n a us ha
  exact hf a us clean mid n b rest hb

lemma Gives.bind {p : Parser α} {f : α → Parser β} {P : α → Prop} (hp : Gives p P)
    (clean : Clean ts) (hf : ∀ a us, Clean us → P a → Delivers us (f a) Post) :
    Delivers ts (p >>= f) Post :=
  (hp ts clean).bind hf

lemma delivers_peek {f : Token → Parser β} (h : Delivers ts (f (tokenAt ts 0)) Post) :
    Delivers ts (peek >>= f) Post :=
  h

lemma delivers_refuse (expected : String) : Delivers ts (refuse expected : Parser β) Post :=
  delivers_peek (delivers_throw _)

lemma delivers_asks {question : List Token → Bool} {f : Bool → Parser β}
    (h : Delivers ts (f (question ts)) Post) : Delivers ts (asks question >>= f) Post :=
  h

lemma delivers_read {f : Nat → Parser β} (h : ∀ n, Delivers ts (f n) Post) :
    Delivers ts (read >>= f) Post :=
  fun n => h n n

lemma delivers_modify {g : List Token → List Token} {f : Unit → Parser β}
    (h : Delivers (g ts) (f ()) Post) : Delivers ts (modify g >>= f) Post :=
  h

lemma delivers_takeMark {p : Punctuation} {f : Unit → Parser β}
    (h : Delivers ts.tail (f ()) Post) : Delivers ts (takeMark p >>= f) Post := by
  intro n b rest hb
  obtain ⟨_, us, ht, hb⟩ := answer_bind_eq_ok.1 hb
  obtain ⟨-, rfl⟩ := answer_takeMark_eq_ok.1 ht
  exact h n b rest hb

/-- What does not go on after a token is refused has nothing to show. -/
lemma delivers_refuse_bind (expected : String) (f : α → Parser β) :
    Delivers ts (refuse expected >>= f) Post := by
  have never : Delivers ts (refuse expected : Parser α) fun _ _ => False := delivers_refuse expected
  exact never.bind fun _ _ _ none => none.elim

lemma delivers_fail_bind (e : SyntaxError) (f : α → Parser β) :
    Delivers ts (fail e >>= f) Post := by
  have never : Delivers ts (fail e : Parser α) fun _ _ => False := delivers_throw _
  exact never.bind fun _ _ _ none => none.elim

/-- An answer that does not depend on the tokens. -/
lemma delivers_lift {x : Except Stop β} {Q : β → List Token → Prop} (clean : Clean ts)
    (h : ∀ b, x = .ok b → Q b ts) : Delivers ts (ofResult x) Q := by
  cases x with
  | ok b => exact delivers_pure clean (h b rfl)
  | error e => exact delivers_throw e

/-- What each round of a repetition keeps holds in the end, and then there is no round more. -/
lemma delivers_repeatWhile {more : List Token → Bool} {step : σ → Parser σ}
    {I : σ → List Token → Prop} {s : σ} (clean : Clean ts) (start : I s ts)
    (hstep : ∀ s us, Clean us → I s us → more us = true → Delivers us (step s) I) :
    Delivers ts (repeatWhile more step s) fun s rest => I s rest ∧ more rest = false := by
  refine delivers_read fun rounds => ?_
  induction rounds generalizing s ts with
  | zero =>
    refine delivers_asks ?_
    cases goesOn : more ts with
    | false => exact delivers_pure clean ⟨start, goesOn⟩
    | true => exact delivers_throw _
  | succ rounds ih =>
    refine delivers_asks ?_
    cases goesOn : more ts with
    | false => exact delivers_pure clean ⟨start, goesOn⟩
    | true =>
      exact (hstep s ts clean start goesOn).bind fun s' us clean' inv => ih clean' inv

/-- A repetition whose rounds keep a condition on what is gathered. -/
lemma gives_repeatWhile {more : List Token → Bool} {step : σ → Parser σ} {P : σ → Prop} {s : σ}
    (start : P s) (hstep : ∀ s, P s → Gives (step s) P) : Gives (repeatWhile more step s) P :=
  fun _ clean => (delivers_repeatWhile clean start fun s us clean inv _ =>
    hstep s inv us clean).mono fun _ _ h => h.1

end Rules

/-- A list of things of one kind, and one more. -/
lemma forall_snoc {P : α → Prop} {xs : List α} {x : α} (hxs : ∀ y ∈ xs, P y) (hx : P x) :
    ∀ y ∈ xs ++ [x], P y :=
  List.forall_mem_append.2 ⟨hxs, by simpa using hx⟩

/-! ## Numbers -/

lemma gives_literal : Gives literal Numeral.IsLiteral := by
  intro ts clean
  refine delivers_peek ?_
  split
  · exact delivers_modify (delivers_pure clean.tail (.intro _ _))
  · exact delivers_refuse _

lemma wellFormed_powerTower {base : Numeral} {exponents : List Numeral} (hbase : base.IsLiteral)
    (h : ∀ x ∈ exponents, x.IsLiteral) :
    (TypeExpr.number (powerTower base exponents)).WellFormed false := by
  induction exponents generalizing base with
  | nil => exact wellFormed_literal hbase false
  | cons x exponents ih =>
    rw [List.forall_mem_cons] at h
    refine wellFormed_of_closed (t := .number (powerTower base (x :: exponents))) hbase rfl ?_
    exact List.forall_mem_cons.2 ⟨wellFormed_literal hbase false, by simpa using ih h.1 h.2⟩

lemma gives_numeral : Gives numeral fun x => (TypeExpr.number x).WellFormed false := by
  intro ts clean
  refine gives_literal.bind clean fun base us clean hbase => ?_
  refine (gives_repeatWhile (P := fun exponents => ∀ x ∈ exponents, x.IsLiteral) (by simp)
    fun exponents hexponents vs clean => ?_).bind clean fun exponents vs clean hexponents =>
      delivers_pure clean (wellFormed_powerTower hbase hexponents)
  refine delivers_takeMark (gives_literal.bind clean.tail fun x ws clean hx => ?_)
  exact delivers_pure clean (forall_snoc hexponents hx)

lemma gives_number : Gives number (WellFormed false) := by
  intro ts clean
  refine delivers_peek (gives_numeral.bind clean fun low us clean hlow => delivers_asks ?_)
  split
  · refine delivers_takeMark (gives_numeral.bind clean.tail fun high vs clean hhigh => ?_)
    exact delivers_pure clean (wellFormed_of_closed trivial rfl
      (by simpa [parts] using ⟨hlow, hhigh⟩))
  · exact delivers_pure clean hlow

/-! ## Brackets -/

section Atoms

variable {type : TypeParser} (htype : ∀ around, Gives (type around) (WellFormed around.top))
include htype

lemma gives_items (closer : Punctuation) :
    Gives (items type closer) fun ts => ∀ t ∈ ts, t.WellFormed false := by
  intro ts clean
  refine (gives_repeatWhile (P := fun ts => ∀ t ∈ ts, t.WellFormed false) (by simp)
    fun ts hts us clean => ?_).bind clean fun ts us clean hts =>
      delivers_takeMark (delivers_pure clean.tail hts)
  refine (htype ⟨false, false⟩).bind clean fun t us clean ht => delivers_asks ?_
  have answer {vs : List Token} (clean : Clean vs) : Delivers vs (pure (ts ++ [t]))
      fun ts _ => ∀ t ∈ ts, t.WellFormed false := delivers_pure clean (forall_snoc hts ht)
  split
  · exact delivers_takeMark (answer clean.tail)
  · refine delivers_asks ?_
    dsimp only
    split
    · exact delivers_refuse_bind _ _
    · exact answer clean

lemma gives_parenthesized : Gives (parenthesized type) (WellFormed false) := by
  intro ts clean
  refine delivers_modify ?_
  refine (htype ⟨true, false⟩).bind (clean.dropWhile _) fun t us clean ht => ?_
  exact delivers_takeMark (delivers_pure clean.tail ht)

lemma gives_field (earlier : List (Field TypeExpr)) :
    Gives (field type earlier) fun f => f.type.WellFormed true := by
  intro ts clean
  refine delivers_peek ?_
  dsimp only
  split
  · exact delivers_refuse_bind _ _
  · refine delivers_modify ?_
    split
    · exact delivers_fail_bind _ _
    · refine delivers_modify (delivers_takeMark ?_)
      refine (htype ⟨true, true⟩).bind (clean.tail.dropWhile _).tail fun t us clean ht => ?_
      exact delivers_pure clean ht

lemma gives_fields : Gives (fields type) fun fs => ∀ f ∈ fs, f.type.WellFormed true := by
  intro ts clean
  refine delivers_modify ?_
  refine (gives_repeatWhile (P := fun fs => ∀ f ∈ fs, f.type.WellFormed true) (by simp)
    fun fs hfs us clean => ?_).bind (clean.dropWhile _) fun fs us clean hfs =>
      delivers_takeMark (delivers_pure clean.tail hfs)
  refine (gives_field htype fs).bind clean fun f us clean hf => delivers_asks ?_
  have answer {vs : List Token} (clean : Clean vs) : Delivers vs (pure (fs ++ [f]))
      fun fs _ => ∀ f ∈ fs, f.type.WellFormed true := delivers_pure clean (forall_snoc hfs hf)
  split
  · exact delivers_modify (answer (clean.dropWhile _))
  · refine delivers_asks ?_
    dsimp only
    split
    · exact delivers_refuse_bind _ _
    · exact answer clean

/-! ## Atoms and applications -/

lemma gives_atom : Gives (atom type) (WellFormed false) := by
  intro ts clean
  refine delivers_peek ?_
  dsimp only
  split
  · rename_i name
    refine delivers_modify (delivers_pure clean.tail ?_)
    split
    · exact wellFormed_of_closed trivial rfl (by simp [parts])
    · rename_i other
      exact wellFormed_of_closed (clean.front.nameable name (Bool.eq_false_iff.2 other)) rfl
        (by simp [parts])
  · exact delivers_modify (delivers_pure clean.tail
      (wellFormed_of_closed trivial rfl (by simp [parts])))
  · exact gives_number ts clean
  · exact delivers_modify (gives_parenthesized htype _ clean.tail)
  · refine delivers_modify ((gives_items htype _).bind clean.tail fun ts us clean hts => ?_)
    exact delivers_pure clean (wellFormed_listOf hts)
  · refine delivers_modify ((gives_items htype _).bind clean.tail fun ts us clean hts => ?_)
    exact delivers_pure clean (wellFormed_of_closed trivial rfl hts)
  · refine delivers_modify ((gives_fields htype).bind clean.tail fun fs us clean hfs => ?_)
    exact delivers_pure clean (wellFormed_record hfs)
  · exact delivers_refuse _

lemma gives_application : Gives (application type) (WellFormed false) := by
  intro ts clean
  refine delivers_peek ?_
  split
  · rename_i front
    have nameable : Nameable (tokenAt ts 0).text :=
      clean.front.nameable front.1 (by simpa using front.2)
    refine delivers_modify ?_
    refine (gives_repeatWhile (P := fun args => ∀ t ∈ args, t.WellFormed false) (by simp)
      fun args hargs us clean => ?_).bind clean.tail fun args us clean hargs =>
        delivers_pure clean (wellFormed_of_closed nameable rfl hargs)
    refine (gives_atom htype).bind clean fun t us clean ht => ?_
    exact delivers_pure clean (forall_snoc hargs ht)
  · exact gives_atom htype ts clean

/-! ## Operators -/

lemma gives_delegation (commas : Bool) : Gives (delegation type commas) (WellFormed false) := by
  intro ts clean
  refine delivers_peek ((gives_application htype).bind clean fun base us clean hbase => ?_)
  refine gives_repeatWhile hbase (fun base hbase us clean => ?_) us clean
  refine delivers_takeMark ((gives_application htype).bind clean.tail
    fun first vs clean hfirst => ?_)
  refine (gives_repeatWhile (P := fun targets => ∀ t ∈ targets, t.WellFormed false)
    (by simpa using hfirst) fun targets htargets ws clean => ?_).bind clean
      fun targets ws clean htargets => delivers_pure clean (wellFormed_of_closed trivial rfl
        (List.forall_mem_cons.2 ⟨hbase, htargets⟩))
  refine delivers_takeMark ((gives_application htype).bind clean.tail fun t us clean ht => ?_)
  exact delivers_pure clean (forall_snoc htargets ht)

omit htype in
/-- A chain of operands with a mark between them, which groups to the left. -/
lemma gives_chain {mark : Punctuation} {operand : Parser TypeExpr}
    {node : TypeExpr → TypeExpr → TypeExpr} (hoperand : Gives operand (WellFormed false))
    (hnode : ∀ l r, l.WellFormed false → r.WellFormed false → (node l r).WellFormed false)
    {first : TypeExpr} (hfirst : first.WellFormed false) :
    Gives (repeatWhile (frontIsMark mark) (fun left => do
      takeMark mark
      return node left (← operand)) first) (WellFormed false) := by
  refine gives_repeatWhile hfirst fun left hleft us clean => ?_
  refine delivers_takeMark (hoperand.bind clean.tail fun right vs clean hright => ?_)
  exact delivers_pure clean (hnode left right hleft hright)

lemma gives_complement (commas : Bool) : Gives (complement type commas) (WellFormed false) := by
  intro ts clean
  have operand := gives_delegation htype commas
  refine delivers_peek (operand.bind clean fun first us clean hfirst => ?_)
  refine gives_chain operand (fun l r hl hr => ?_) hfirst us clean
  exact wellFormed_of_closed trivial rfl (by simpa [parts] using ⟨hl, hr⟩)

omit htype in
lemma wellFormed_union {m : Mark} {l r : TypeExpr} (hl : l.WellFormed false)
    (hr : r.WellFormed false) : (TypeExpr.union m l r).WellFormed false :=
  wellFormed_of_closed trivial rfl (by simpa [parts] using ⟨hl, hr⟩)

lemma gives_union (commas : Bool) : Gives (union type commas) (WellFormed false) := by
  intro ts clean
  have operand := gives_complement htype commas
  refine delivers_peek (operand.bind clean fun first us clean hfirst => ?_)
  exact gives_chain operand (fun _ _ => wellFormed_union) hfirst us clean

end Atoms

/-! ## Alternatives -/

lemma wellFormed_unionOf {start : Position} {first : TypeExpr} {ts : List TypeExpr}
    (hfirst : first.WellFormed false) (hts : ∀ t ∈ ts, t.WellFormed false) :
    (unionOf start first ts).WellFormed false := by
  induction ts generalizing first with
  | nil => exact hfirst
  | cons t ts ih =>
    rw [List.forall_mem_cons] at hts
    cases ts with
    | nil => exact wellFormed_union hfirst hts.1
    | cons u ts => exact ih (wellFormed_union hfirst hts.1) hts.2

/-- Constructors of different names, each of which could name a type. -/
structure WellNamed (gs : List (Tag TypeExpr)) : Prop where
  names : (gs.map (·.name)).Nodup
  nameable : ∀ g ∈ gs, Nameable g.name
  fields : ∀ g ∈ gs, ∀ t ∈ g.fields, t.WellFormed false

lemma wellNamed_nil : WellNamed [] :=
  ⟨List.nodup_nil, by simp, by simp⟩

lemma WellNamed.snoc {gs : List (Tag TypeExpr)} {g : Tag TypeExpr} (h : WellNamed gs)
    (new : ¬ gs.any (·.name = g.name)) (name : Nameable g.name)
    (fields : ∀ t ∈ g.fields, t.WellFormed false) : WellNamed (gs ++ [g]) where
  names := by
    rw [List.map_append, List.nodup_append]
    refine ⟨h.names, by simp, fun a ha b hb => ?_⟩
    obtain ⟨g', hg', rfl⟩ := List.mem_map.1 ha
    obtain rfl : b = g.name := by simpa using hb
    exact fun taken => new (List.any_eq_true.2 ⟨g', hg', decide_eq_true taken⟩)
  nameable := forall_snoc h.nameable name
  fields := forall_snoc h.fields fields

/-- An alternative that can be a constructor is a name with its arguments. -/
lemma eq_of_tagOf? {t : TypeExpr} {g : Tag TypeExpr} (h : tagOf? t = some g) :
    ∃ m, t = .reference m g.name g.fields := by
  cases t <;> simp only [tagOf?, reduceCtorEq, Option.some.injEq] at h
  subst h
  exact ⟨_, rfl⟩

lemma wellNamed_distinctTags {start : Position} {earlier : List (Tag TypeExpr)}
    {ts : List TypeExpr} {gs : List (Tag TypeExpr)} (hearlier : WellNamed earlier)
    (hts : ∀ t ∈ ts, t.WellFormed false) (h : distinctTags start earlier ts = .ok gs) :
    WellNamed gs ∧ gs.length = earlier.length + ts.length := by
  induction ts generalizing earlier with
  | nil =>
    cases h
    exact ⟨hearlier, rfl⟩
  | cons t ts ih =>
    rw [List.forall_mem_cons] at hts
    rw [distinctTags] at h
    split at h
    · rename_i g hg
      obtain ⟨m, rfl⟩ := eq_of_tagOf? hg
      obtain ⟨name, inside⟩ := wellFormed_iff.1 hts.1
      split at h
      · cases h
      · rename_i new
        have fields : ∀ u ∈ g.fields, u.WellFormed false := fun u hu =>
          inside u false (List.mem_map_of_mem hu)
        obtain ⟨distinct, length⟩ := ih (hearlier.snoc new name fields) hts.2 h
        refine ⟨distinct, length.trans ?_⟩
        simp only [List.length_append, List.length_cons, List.length_nil]
        omega
    · cases h

/-- What a production reads for certain surroundings: a type that is well formed in a closed place,
or one for an open place if it may and if what follows ends the alternatives. -/
def Fits (around : Surroundings) (t : TypeExpr) (rest : List Token) : Prop :=
  t.WellFormed false ∨
    around.top = true ∧ t.WellFormed true ∧ endsAlternatives around.commas rest = true

section Functions

variable {type : TypeParser} (htype : ∀ around, Gives (type around) (WellFormed around.top))
include htype

lemma delivers_alternatives (around : Surroundings) {ts : List Token} (clean : Clean ts) :
    Delivers ts (alternatives type around) (Fits around) := by
  refine delivers_peek ((gives_union htype around.commas).bind clean
    fun first us clean hfirst => ?_)
  refine (gives_repeatWhile (P := fun more => ∀ t ∈ more, t.WellFormed false) (by simp)
    fun more hmore vs clean => ?_).bind clean fun more vs clean hmore => ?_
  · refine delivers_takeMark ((gives_union htype around.commas).bind clean.tail
      fun t us clean ht => ?_)
    exact delivers_pure clean (forall_snoc hmore ht)
  · dsimp only
    split
    · exact delivers_pure clean (.inl hfirst)
    · rename_i several
      refine delivers_asks ?_
      split
      · rename_i tags
        rw [Bool.and_eq_true, Bool.and_eq_true] at tags
        refine (delivers_lift (Q := fun gs us => WellNamed gs ∧ 2 ≤ gs.length ∧ us = vs) clean
          fun gs hgs => ?_).bind fun gs us clean ⟨distinct, two, left⟩ => ?_
        · obtain ⟨distinct, length⟩ := wellNamed_distinctTags wellNamed_nil
            (List.forall_mem_cons.2 ⟨hfirst, hmore⟩) hgs
          have some : 0 < more.length := List.length_pos_iff.2 (by simpa using several)
          refine ⟨distinct, ?_, rfl⟩
          simp only [length, List.length_nil, List.length_cons]
          omega
        · subst left
          refine delivers_pure clean (.inr ⟨tags.1.1, ?_, tags.1.2⟩)
          refine wellFormed_of_closed ⟨rfl, two, distinct.names, distinct.nameable⟩ rfl ?_
          intro t ht
          obtain ⟨g, hg, ht⟩ := List.mem_flatMap.1 ht
          exact distinct.fields g hg t ht
      · exact delivers_pure clean (.inl (wellFormed_unionOf hfirst hmore))

/-! ## Functions -/

lemma delivers_parameter (around : Surroundings) {ts : List Token} (clean : Clean ts) :
    Delivers ts (parameter type around) fun p rest => Fits around p.type rest := by
  refine delivers_peek ((delivers_alternatives htype around clean).bind fun t us clean ht => ?_)
  -- a suffix after the type would go on after the alternatives
  have suffixed {p : Punctuation} (hp : p = .question ∨ p = .ellipsis)
      (front : frontIsMark p us = true) : t.WellFormed false := by
    rcases ht with ht | ⟨-, -, ends⟩
    · exact ht
    · rcases hp with rfl | rfl <;> simp [endsAlternatives, front] at ends
  refine delivers_asks ?_
  split
  · rename_i question
    exact delivers_takeMark (delivers_pure clean.tail (.inl (suffixed (.inl rfl) question)))
  · refine delivers_asks ?_
    split
    · rename_i ellipsis
      exact delivers_takeMark (delivers_pure clean.tail (.inl (suffixed (.inr rfl) ellipsis)))
    · exact delivers_pure clean ht

/-- Parameters that are read for certain surroundings: at least one, and all as they would be by
themselves. -/
def AllFit (around : Surroundings) (ps : List (Parameter TypeExpr)) (rest : List Token) : Prop :=
  (∀ p ∈ ps, p.type.WellFormed false) ∨ around.top = true ∧
    (∀ p ∈ ps, p.type.WellFormed true) ∧ endsAlternatives around.commas rest = true

lemma delivers_parameters (around : Surroundings) {ts : List Token} (clean : Clean ts) :
    Delivers ts (parameters type around) fun ps rest => ps ≠ [] ∧ AllFit around ps rest := by
  refine (delivers_parameter htype around clean).bind fun first us clean hfirst => ?_
  refine (delivers_repeatWhile (I := fun ps rest => ps ≠ [] ∧ AllFit around ps rest) clean
    ⟨by simp, ?_⟩ fun ps vs clean ⟨_, hps⟩ goesOn => ?_).mono fun _ _ h => h.1
  · rcases hfirst with hfirst | ⟨top, hfirst, ends⟩
    · exact .inl (by simpa using hfirst)
    · exact .inr ⟨top, by simpa using hfirst, ends⟩
  · -- a comma goes on after the alternatives, so that there were no constructors before it
    have closed : ∀ p ∈ ps, p.type.WellFormed false := by
      rcases hps with hps | ⟨-, -, ends⟩
      · exact hps
      · simp [endsAlternatives, goesOn] at ends
    refine delivers_takeMark ((delivers_parameter htype around clean.tail).bind
      fun p us clean hp => delivers_pure clean ⟨by simp, ?_⟩)
    rcases hp with hp | ⟨top, hp, ends⟩
    · exact .inl (forall_snoc closed hp)
    · exact .inr ⟨top, forall_snoc (fun q hq => (closed q hq).loosen true) hp, ends⟩

omit htype in
lemma wellFormed_outputsOf {ps : List (Parameter TypeExpr)} {ts : List TypeExpr}
    (hps : ∀ p ∈ ps, p.type.WellFormed false) (h : outputsOf ps = .ok ts) :
    ts.length = ps.length ∧ ∀ t ∈ ts, t.WellFormed false := by
  induction ps generalizing ts with
  | nil =>
    cases h
    exact ⟨rfl, by simp⟩
  | cons p ps ih =>
    rw [List.forall_mem_cons] at hps
    rw [outputsOf] at h
    split at h
    · cases hrest : outputsOf ps with
      | error e => simp [hrest, Except.map] at h
      | ok us =>
        simp only [hrest, Except.map, Except.ok.injEq] at h
        subst h
        obtain ⟨length, hus⟩ := ih hps.2 hrest
        exact ⟨by simp [length], List.forall_mem_cons.2 ⟨hps.1, hus⟩⟩
    · obtain ⟨place, -, h⟩ := bind_eq_ok.1 h
      cases h

omit htype in
/-- Inputs that are not refused take any number of arguments at the end at most. -/
lemma checkInputs_eq_ok {ps : List (Parameter TypeExpr)} {u : Unit}
    (h : checkInputs ps = .ok u) : ∀ p ∈ ps.dropLast, p.suffix ≠ .variadic := by
  induction ps with
  | nil => simp
  | cons p ps ih =>
    cases ps with
    | nil => simp
    | cons q ps =>
      rw [checkInputs] at h
      · split at h
        · obtain ⟨place, -, h⟩ := bind_eq_ok.1 h
          cases h
        · rename_i plain
          exact List.forall_mem_cons.2 ⟨plain, ih h⟩
      · simp

omit htype in
lemma wellFormed_function {m : Mark} {inputs : List (Parameter TypeExpr)} {outputs : List TypeExpr}
    (some : outputs ≠ []) (hinputs : ∀ p ∈ inputs, p.type.WellFormed false)
    (houtputs : ∀ t ∈ outputs, t.WellFormed false)
    (checked : checkInputs inputs = .ok ()) :
    (TypeExpr.function m inputs outputs).WellFormed false := by
  refine wellFormed_of_closed ⟨some, checkInputs_eq_ok checked⟩ rfl ?_
  simpa [parts, or_imp, forall_and] using ⟨hinputs, houtputs⟩

omit htype in
lemma wellFormed_functionOf {start : Position} {inputs : List (Parameter TypeExpr)}
    {groups : List (Position × List (Parameter TypeExpr))} (some : groups ≠ [])
    (hinputs : ∀ p ∈ inputs, p.type.WellFormed false)
    (hgroups : ∀ g ∈ groups, g.2 ≠ [] ∧ ∀ p ∈ g.2, p.type.WellFormed false) {t : TypeExpr}
    (h : functionOf start inputs groups = .ok t) : t.WellFormed false := by
  induction groups generalizing start inputs t with
  | nil => exact absurd rfl some
  | cons g groups ih =>
    rw [List.forall_mem_cons] at hgroups
    obtain ⟨p, group⟩ := g
    cases groups with
    | nil =>
      simp only [functionOf] at h
      obtain ⟨outputs, houtputs, h⟩ := bind_eq_ok.1 h
      obtain ⟨⟨⟩, checked, h⟩ := bind_eq_ok.1 h
      cases h
      obtain ⟨length, houtputs⟩ := wellFormed_outputsOf hgroups.1.2 houtputs
      refine wellFormed_function (fun none => hgroups.1.1 ?_) hinputs houtputs checked
      exact List.length_eq_zero_iff.1 (length ▸ List.length_eq_zero_iff.2 none)
    | cons g' groups =>
      rw [functionOf] at h
      · obtain ⟨output, houtput, h⟩ := bind_eq_ok.1 h
        obtain ⟨⟨⟩, checked, h⟩ := bind_eq_ok.1 h
        cases h
        have inner := ih (by simp) hgroups.1.2 hgroups.2 houtput
        exact wellFormed_function (by simp) hinputs (by simpa using inner) checked
      · simp

/-- What comes before the arrows: parameters, or nothing at all. -/
lemma delivers_inputs (around : Surroundings) {ts : List Token} (clean : Clean ts)
    {f : List (Parameter TypeExpr) → Parser β} {Post : β → List Token → Prop}
    (hf : ∀ ps us, Clean us → AllFit around ps us → Delivers us (f ps) Post) :
    Delivers ts (if frontIsMark .arrow ts then pure [] >>= f else parameters type around >>= f)
      Post := by
  split
  · have none : Delivers ts (pure []) (AllFit around) := delivers_pure clean (.inl (by simp))
    exact none.bind hf
  · exact (delivers_parameters htype around clean).bind fun ps us clean h => hf ps us clean h.2

lemma gives_function (around : Surroundings) :
    Gives (function type around) (WellFormed around.top) := by
  intro ts clean
  refine delivers_peek (delivers_asks (delivers_inputs htype around clean
    fun inputs us clean hinputs => ?_))
  refine (delivers_repeatWhile (I := fun groups rest =>
    (groups = [] ∧ AllFit around inputs rest) ∨ (∀ p ∈ inputs, p.type.WellFormed false) ∧
      ∀ g ∈ groups, g.2 ≠ [] ∧ ∀ p ∈ g.2, p.type.WellFormed false) clean
    (.inl ⟨rfl, hinputs⟩) fun groups vs clean inv arrow => ?_).bind
      fun groups vs clean ⟨inv, _⟩ => ?_
  · -- an arrow goes on after the alternatives, so that there were no constructors before it
    have closed : (∀ p ∈ inputs, p.type.WellFormed false) ∧
        ∀ g ∈ groups, g.2 ≠ [] ∧ ∀ p ∈ g.2, p.type.WellFormed false := by
      rcases inv with ⟨rfl, inv | ⟨-, -, ends⟩⟩ | inv
      · exact ⟨inv, by simp⟩
      · simp [endsAlternatives, arrow] at ends
      · exact inv
    refine delivers_takeMark (delivers_peek ((delivers_parameters htype ⟨around.commas, false⟩
      clean.tail).bind fun ps us clean ⟨nonempty, hps⟩ => delivers_pure clean (.inr ?_)))
    rcases hps with hps | ⟨top, -⟩
    · exact ⟨closed.1, forall_snoc closed.2 ⟨nonempty, hps⟩⟩
    · exact absurd top Bool.false_ne_true
  · split
    · rename_i several
      have some : groups ≠ [] := by
        rintro rfl
        simp at several
      refine delivers_lift clean fun t ht => ?_
      rcases inv with ⟨rfl, -⟩ | ⟨hinputs, hgroups⟩
      · exact absurd rfl some
      · exact (wellFormed_functionOf some hinputs hgroups ht).loosen _
    · unfold withoutArrow
      split
      · refine delivers_pure clean ?_
        rcases inv with ⟨-, hinputs | ⟨top, hinputs, -⟩⟩ | ⟨hinputs, -⟩
        · exact (hinputs _ List.mem_cons_self).loosen _
        · rw [top]
          exact hinputs _ List.mem_cons_self
        · exact (hinputs _ List.mem_cons_self).loosen _
      · exact delivers_refuse _

end Functions

/-! ## Types and declarations -/

lemma binders?_subset {commas : Bool} : ∀ {ts after : List Token} {bs : List Binder},
    binders? commas ts = some (bs, after) → after ⊆ ts
  | [], _, _, h => by cases h
  | [t], _, _, h => by simp [binders?] at h
  | t :: u :: ts, after, bs, h => by
    have behind : ts ⊆ t :: u :: ts := by simp
    cases listed : t.isVariable with
    | false =>
      have none : binders? commas (t :: u :: ts) = none := binders?_eq_none listed
      rw [none] at h
      cases h
    | true =>
      rw [binders?_variable listed] at h
      split at h
      · cases h
        exact behind
      · split at h
        · obtain ⟨⟨bs', after'⟩, inner, h⟩ := Option.map_eq_some_iff.1 h
          cases h
          exact List.Subset.trans (binders?_subset inner) behind
        · cases h

lemma gives_binders (commas : Bool) : Gives (binders commas) fun _ => True := by
  intro ts clean n bs rest h
  have run := answer_binders_bind commas pure n ts
  rw [bind_pure, h] at run
  cases found : binders? commas ts with
  | none =>
    rw [found] at run
    cases run
    exact ⟨clean, trivial⟩
  | some listed =>
    rw [found] at run
    cases run
    exact ⟨clean.subset (binders?_subset found), trivial⟩

lemma gives_type (bound : Nat) (around : Surroundings) :
    Gives (Parser.type bound around) (WellFormed around.top) := by
  induction bound generalizing around with
  | zero => exact fun _ _ => delivers_throw _
  | succ bound ih =>
    intro ts clean
    refine delivers_peek ((gives_binders _).bind clean fun listed us clean _ => ?_)
    split
    · refine (gives_function ih around).bind clean fun t vs clean ht => delivers_asks ?_
      split
      · refine delivers_takeMark ((ih around).bind clean.tail fun body ws clean hbody => ?_)
        exact delivers_pure clean (wellFormed_predicate ht hbody)
      · exact delivers_pure clean ht
    · refine (gives_function ih ⟨around.commas, false⟩).bind clean fun c vs clean hc => ?_
      refine delivers_takeMark ((ih around).bind clean.tail fun body ws clean hbody => ?_)
      exact delivers_pure clean (wellFormed_predicate (hc.loosen _) hbody)

lemma gives_next : Gives next fun _ => True := by
  intro ts clean n t rest h
  cases h
  exact ⟨clean.tail, trivial⟩

lemma gives_declaredName : Gives declaredName fun t => Undotted t.text := by
  intro ts clean
  refine delivers_peek ?_
  dsimp only
  split
  · exact delivers_fail_bind _ _
  · split
    · rename_i name
      intro n t rest h
      cases h
      exact ⟨clean.tail, (clean.front name.1).2⟩
    · exact delivers_refuse _

/-- Parameters of different letters. -/
def AllNew (bs : List Binder) : Prop :=
  (bs.map (·.var.letter)).Nodup

lemma allNew_nil : AllNew [] :=
  List.nodup_nil

lemma gives_declaredParameter {earlier : List Binder} (h : AllNew earlier) :
    Gives (declaredParameter earlier) fun b => AllNew (earlier ++ [b]) := by
  intro ts clean
  refine gives_next.bind clean fun token us clean _ => ?_
  dsimp only
  split
  · exact delivers_fail_bind _ _
  · split
    · exact delivers_fail_bind _ _
    · rename_i new
      refine delivers_pure clean ?_
      rw [AllNew, List.map_append, List.nodup_append]
      refine ⟨h, by simp, fun a ha b hb => ?_⟩
      obtain ⟨b', hb', rfl⟩ := List.mem_map.1 ha
      obtain rfl : b = token.text := by simpa using hb
      exact fun taken => new (List.any_eq_true.2 ⟨b', hb', decide_eq_true taken⟩)

lemma gives_declaration :
    Gives declaration fun d => Undotted d.name ∧ d.letters.Nodup ∧ d.body.WellFormed true := by
  intro ts clean
  refine gives_declaredName.bind clean fun name us clean undotted => ?_
  refine (gives_repeatWhile allNew_nil fun earlier h vs clean => ?_).bind clean
    fun parameters vs clean hparameters => delivers_takeMark (delivers_read fun bound => ?_)
  · exact (gives_declaredParameter h).bind clean fun b ws clean hb => delivers_pure clean hb
  · exact (gives_type bound ⟨true, true⟩).bind clean.tail fun body ws clean hbody =>
      delivers_pure clean ⟨undotted, hparameters, hbody⟩

/-- What every declaration satisfies, all of them satisfy. -/
lemma gives_declarations_of {P : Declaration → Prop} (each : Gives declaration P) :
    Gives declarations fun ds => ∀ d ∈ ds, P d := by
  intro ts clean
  refine delivers_modify (gives_repeatWhile (by simp) (fun ds hds us clean => ?_) _
    (clean.dropWhile _))
  refine each.bind clean fun d vs clean hd => delivers_asks ?_
  dsimp only
  split
  · exact delivers_refuse_bind _ _
  · exact delivers_modify (delivers_pure (clean.dropWhile _) (forall_snoc hds hd))

lemma gives_declarations :
    Gives declarations fun ds => ∀ d ∈ ds, d.letters.Nodup ∧ d.body.WellFormed true :=
  gives_declarations_of fun ts clean => (gives_declaration ts clean).mono fun _ _ h => h.2

end Parser

lemma gives_runParser {α : Type} {p : Parser α} {Post : α → Prop} (hp : p.Gives Post)
    {text : String} {a : α} (h : runParser p text = .ok a) : Post a := by
  obtain ⟨tokens, rest, htokens, h⟩ := runParser_eq_ok.1 h
  exact (hp tokens (sincere_of_tokenize htokens) _ _ _ h).2

/-- The declarations of a source text have names without a dot. -/
lemma undotted_of_parse {text : String} {ds : List Declaration} (h : parse text = .ok ds) :
    ∀ d ∈ ds, Undotted d.name :=
  gives_runParser (Parser.gives_declarations_of fun ts clean =>
    (Parser.gives_declaration ts clean).mono fun _ _ h => h.1) h

/-- No two constructors in the body of a declaration have the same name. -/
lemma tags_nodup_of_parse {text : String} {ds : List Declaration} (h : parse text = .ok ds)
    {d : Declaration} (hd : d ∈ ds) {m : Mark} {tags : List (Tag TypeExpr)}
    (hbody : d.body = .tagged m tags) : (tags.map (·.name)).Nodup := by
  have formed := (gives_runParser Parser.gives_declarations h d hd).2
  have proper := formed d.body true .whole
  rw [hbody] at proper
  exact proper.2.2.1

/-- The declarations of a source text have different parameters, and their bodies are well formed,
constructors allowed. -/
theorem wellFormed_of_parse {text : String} {ds : List Declaration} (h : parse text = .ok ds) :
    ∀ d ∈ ds, d.letters.Nodup ∧ ∀ u opened, Occurs d.body true u opened → u.Proper opened :=
  gives_runParser Parser.gives_declarations h

theorem wellFormed_of_parse_tagged : ∃ ds, parse "a A B: p [A, A] | q" = .ok ds ∧
    ∀ d ∈ ds, d.letters.Nodup ∧ ∀ u opened, Occurs d.body true u opened → u.Proper opened := by
  have parsed : parse "a A B: p [A, A] | q" = .ok [⟨"a", [⟨some ⟨1, 3⟩, ⟨"A", none⟩⟩,
      ⟨some ⟨1, 5⟩, ⟨"B", none⟩⟩], .tagged (.written (some ⟨1, 8⟩)) [⟨"p", [.list (.written
      (some ⟨1, 10⟩)) [.typeVariable (.written (some ⟨1, 11⟩)) ⟨"A", none⟩]]⟩, ⟨"q", []⟩],
      some ⟨1, 1⟩⟩] := by
    cbv
  exact ⟨_, parsed, wellFormed_of_parse parsed⟩

end TypeNotation
