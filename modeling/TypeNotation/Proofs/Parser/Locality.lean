import TypeNotation.Proofs.Parser.Carries

/-!
# What comes after a type is not read

Every production for types carries over an exchange of what comes after a seam.  The last token that
it takes ends an operand, so that neither a sign nor a line break after it is part of the type.
-/

namespace TypeNotation

namespace Parser

open TypeExpr

variable {J : Seam} {stray : Prop}

/-! ## Numbers -/

lemma refuses_literal : Refuses literal := by
  refine strays_peek fun t ht => ?_
  rcases ht with ht | ht <;> rw [ht] <;> exact strays_refuse _

lemma carries_literal :
    Carries J False (Numeral.relocate J.move) (fun _ => Ends) literal literal := by
  refine carries_peek refuses_literal fun t => ?_
  obtain ⟨kind, text, position⟩ := t
  cases kind with
  | number x => exact .tail (carries_pure rfl)
  | _ => exact (carries_refuse _ _).at_ _

lemma powerTower_relocate (f : Position → Position) (base : Numeral) (exponents : List Numeral) :
    powerTower (base.relocate f) (exponents.map (.relocate f)) =
      (powerTower base exponents).relocate f := by
  induction exponents generalizing base with
  | nil => rfl
  | cons exponent rest ih =>
    rw [List.map_cons, powerTower, powerTower, ih, Numeral.relocate, Numeral.position_relocate]

lemma refuses_numeral : Refuses numeral :=
  refuses_literal.bind _

lemma carries_numeral :
    Carries J False (Numeral.relocate J.move) (fun _ => Ends) numeral numeral := by
  refine carries_literal.bind fun base c hbase => ?_
  refine (carries_repeatEnds (g := List.map (Numeral.relocate J.move))
    (Seam.agrees_frontIsMark (p := .caret) (by decide)) (fun exponents => ?_) []).bind
    fun exponents c' hc' => carries_return (powerTower_relocate J.move base exponents) ?_
  · refine carries_takeMark (strays_takeMark (by decide) _) fun t _ => ?_
    exact carries_snoc carries_literal exponents fun _ c ends => ends.append_right [t]
  · simpa using hbase.append hc'

lemma refuses_number : Refuses number := by
  refine strays_peek fun _ _ => refuses_numeral.bind _

lemma carries_number : Carries J False (relocate J.move) (fun _ => Ends) number number := by
  refine carries_peek refuses_number fun start => Carries.at_ ?_ start
  refine carries_numeral.bind fun low c hlow => ?_
  refine carries_asks Seam.agrees_intervalAhead fun ahead => ?_
  cases ahead with
  | false => exact carries_pure (by simpa using hlow)
  | true =>
    refine carries_takeMark (strays_takeMark (by decide) _) fun t _ => ?_
    refine carries_numeral.bind fun high c' hhigh => carries_pure ?_
    simpa using hhigh.append_right (c ++ [t])

section Brackets

variable {type type' : TypeParser} (refuses : ∀ around, Refuses (type around))
  (carries : ∀ around,
    Carries J False (relocate J.move) (fun _ => Ends) (type around) (type' around))

/-! ## Brackets -/

include refuses carries in
lemma carries_items {closer : Punctuation} (hcloser : closer.isCloser) :
    Carries J False (List.map (relocate J.move)) (fun _ => Ends) (items type closer)
      (items type' closer) := by
  have hcomma : closer ≠ .comma := by
    rintro rfl
    cases hcloser
  refine carries_enclosed hcloser (fun ts => (refuses _).bind _) (fun ts => ?_) []
  refine (carries _).bind fun t c ends => ?_
  have answer (passed : List Token) : Carries J True (List.map (relocate J.move))
      (fun _ e => c ++ (passed ++ e) ≠ []) (pure (ts ++ [t]))
      (pure (ts.map (relocate J.move) ++ [t.relocate J.move])) :=
    carries_return (by simp) (by simp [ends.ne_nil])
  refine carries_asksFront (strays_asks fun comma => ?_) (fun _ _ => rfl) fun comma => ?_
  · cases comma with
    | true => exact strays_after_takeMark _ (strays_pure _)
    | false => exact strays_asksMark hcomma (Refuses.bind (strays_refuse _) _)
  cases comma with
  | true => exact carries_takeMark (strays_after_takeMark _ (strays_pure _)) fun u _ => answer [u]
  | false =>
    refine carries_asks (Seam.agrees_frontIsMark hcomma) fun closes => ?_
    cases closes with
    | true => exact answer []
    | false => exact carries_refuse_bind _ _ _ _

include refuses carries in
lemma carries_parenthesized :
    Carries J False (relocate J.move) (fun _ => Ends) (parenthesized type)
      (parenthesized type') := by
  refine carries_dropWhile (fun _ => rfl) ((refuses _).bind _) fun breaks => ?_
  refine (carries _).bind fun t c _ => ?_
  refine carries_takeMark (strays_takeMark (by decide) _) fun u hu => carries_pure ?_
  exact (Ends.singleton (by rw [hu]; rfl)).append_right _ |>.append_right _

/-! ## Records -/

lemma any_name_relocate (f : Position → Position) (fs : List (Field TypeExpr)) (name : String) :
    (fs.map (Field.relocate f)).any (·.name = name) = fs.any (·.name = name) := by
  rw [List.any_map]
  rfl

lemma refuses_field (earlier : List (Field TypeExpr)) : Refuses (field type earlier) := by
  refine strays_peek fun name hname => ?_
  have other : name.kind ≠ .name := by
    rcases hname with h | h <;> simp [h]
  dsimp only
  rw [if_pos other]
  exact Refuses.bind (strays_refuse _) _

include carries in
lemma carries_field (earlier : List (Field TypeExpr)) :
    Carries J False (Field.relocate J.move) (fun _ => Ends) (field type earlier)
      (field type' (earlier.map (Field.relocate J.move))) := by
  refine carries_peek (refuses_field earlier) fun name => ?_
  dsimp only
  refine .ite .rfl (fun _ => (carries_refuse_bind _ _ _ _).at_ name) fun _ => .tail ?_
  refine .ite (by rw [any_name_relocate]; rfl) (fun _ => carries_throw_bind _ _ _ _) fun _ => ?_
  refine carries_dropWhile (fun _ => rfl) (strays_takeMark (by decide) _) fun variables_ => ?_
  refine carries_takeMark (strays_takeMark (by decide) _) fun colon _ => ?_
  refine (carries _).bind fun t c ends => carries_pure ?_
  simpa using ends.append_right (name :: (variables_ ++ [colon]))

include carries in
lemma carries_fields :
    Carries J False (List.map (Field.relocate J.move)) (fun _ => Ends) (fields type)
      (fields type') := by
  have refuses (fs : List (Field TypeExpr)) (f : Field TypeExpr → Parser (List (Field TypeExpr))) :
      Refuses (field type fs >>= f) := Refuses.bind (refuses_field fs) f
  refine carries_dropWhile (fun _ => rfl)
    (strays_upTo (by decide : Punctuation.braceClose ≠ .comma) (fun fs => refuses fs _) [] pure)
    fun breaks => .mono (carries_enclosed rfl (fun fs => refuses fs _) (fun fs => ?_) [])
      fun _ _ ends => ends.append_right breaks
  refine (carries_field carries fs).bind fun f c ends => ?_
  have answer (passed : List Token) : Carries J True (List.map (Field.relocate J.move))
      (fun _ e => c ++ (passed ++ e) ≠ []) (pure (fs ++ [f]))
      (pure (fs.map (Field.relocate J.move) ++ [f.relocate J.move])) :=
    carries_return (by simp) (by simp [ends.ne_nil])
  refine carries_asksFront (strays_asks fun separated => ?_) (fun _ _ => rfl) fun separated => ?_
  · cases separated with
    | true => exact strays_dropWhile _ (strays_pure _)
    | false =>
      exact strays_asksMark (by decide : Punctuation.braceClose ≠ .comma)
        (Refuses.bind (strays_refuse _) _)
  cases separated with
  | true => exact carries_dropWhile (fun _ => rfl) (strays_pure _) answer
  | false =>
    refine carries_asks (Seam.agrees_frontIsMark (p := .braceClose) (by decide)) fun closes => ?_
    cases closes with
    | true => exact answer []
    | false => exact carries_refuse_bind _ _ _ _

/-! ## Atoms and applications -/

lemma refuses_atom : Refuses (atom type) := by
  refine strays_peek fun token h => ?_
  dsimp only
  rcases h with h | h <;> rw [h] <;> exact strays_refuse _

include refuses carries in
lemma carries_atom :
    Carries J False (relocate J.move) (fun _ => Ends) (atom type) (atom type') := by
  refine carries_peek refuses_atom fun token => ?_
  have items (closer : Punctuation) (hcloser : closer.isCloser) (make : List TypeExpr → TypeExpr)
      (make' : List TypeExpr → TypeExpr)
      (h : ∀ ts, make' (ts.map (relocate J.move)) = (make ts).relocate J.move) :
      CarriesAt J token False (relocate J.move) (fun _ => Ends)
        (modify List.tail >>= fun _ => items type closer >>= fun ts => pure (make ts))
        (modify List.tail >>= fun _ => items type' closer >>= fun ts => pure (make' ts)) :=
    .tail ((carries_items refuses carries hcloser).bind fun ts c ends =>
      carries_return (h ts) (by simpa using ends.append_right [token]))
  obtain ⟨kind, text, position⟩ := token
  cases kind with
  | name =>
    refine .tail (carries_return ?_ (Ends.singleton rfl))
    rw [Token.isVariable_relocate]
    split <;> simp [relocate]
  | void => exact .tail (carries_pure (Ends.singleton rfl))
  | number x => exact carries_number.at_ _
  | mark p =>
    cases p with
    | parenOpen =>
      exact .tail ((carries_parenthesized refuses carries).mono fun _ _ ends =>
        ends.append_right [_])
    | bracketOpen =>
      exact items .bracketClose rfl _ _ fun ts => listOf_relocate (.written position) ts
    | tupleOpen => exact items .bracketClose rfl _ _ fun ts => by simp [relocate]
    | braceOpen =>
      refine .tail ((carries_fields carries).bind fun fs c ends => carries_return ?_ ?_)
      · simp [relocate]
      · simpa using ends.append_right [_]
    | _ => exact (carries_refuse _ _).at_ _
  | newline => exact (carries_refuse _ _).at_ _
  | finish => exact (carries_refuse _ _).at_ _

lemma refuses_application : Refuses (application type) := by
  refine strays_peek fun token h => ?_
  have other : ¬ (token.kind = .name ∧ !token.isVariable) := by
    rintro ⟨name, -⟩
    rcases h with h | h <;> rw [h] at name <;> cases name
  rw [if_neg other]
  exact refuses_atom

include refuses carries in
lemma carries_application :
    Carries J False (relocate J.move) (fun _ => Ends) (application type) (application type') := by
  refine carries_peek refuses_application fun token => ?_
  refine .ite .rfl (fun name => .tail ?_) fun _ => (carries_atom refuses carries).at_ token
  have args : Carries J False (List.map (relocate J.move)) (fun _ c => c = [] ∨ Ends c)
      (repeatWhile (fun tokens => (tokenAt tokens 0).kind.startsType)
        (fun args => return args ++ [← atom type]) [])
      (repeatWhile (fun tokens => (tokenAt tokens 0).kind.startsType)
        (fun args => return args ++ [← atom type']) []) :=
    carries_repeatEnds Seam.agrees_startsType (fun args =>
      carries_snoc (carries_atom refuses carries) args fun _ _ ends => ends) []
  have named : Ends [token] := Ends.singleton (by rw [name.1]; rfl)
  refine args.bind fun ts c hc => carries_return (by simp [relocate]) ?_
  simpa using named.append hc

/-! ## Operators -/

lemma refuses_delegation (commas : Bool) : Refuses (delegation type commas) :=
  strays_peek fun _ _ => refuses_application.bind _

include refuses carries in
lemma carries_delegation (commas : Bool) :
    Carries J False (relocate J.move) (fun _ => Ends) (delegation type commas)
      (delegation type' commas) := by
  refine carries_peek (refuses_delegation commas) fun start => Carries.at_ ?_ start
  have application := carries_application refuses carries
  refine application.bind fun base c hbase => ?_
  refine (carries_repeatEnds (Seam.agrees_frontIsMark (p := .delegates) (by decide))
    (fun base => ?_) base).mono fun _ _ => hbase.append
  refine carries_takeMark (strays_takeMark (by decide) _) fun mark _ => ?_
  refine application.bind fun first c hfirst => ?_
  have more : Carries J False (List.map (relocate J.move)) (fun _ c => c = [] ∨ Ends c)
      (repeatWhile (commaContinues commas) (fun targets => do
        takeMark .comma
        return targets ++ [← Parser.application type]) [first])
      (repeatWhile (commaContinues commas) (fun targets => do
        takeMark .comma
        return targets ++ [← Parser.application type']) [first.relocate J.move]) := by
    refine carries_repeatEnds (Seam.agrees_commaContinues commas) (fun targets => ?_) [first]
    refine carries_takeMark (strays_after_takeMark _ (refuses_application.bind _)) fun comma _ => ?_
    exact carries_snoc application targets fun _ _ ends => ends.append_right [comma]
  refine more.bind fun targets c' hc' => carries_return (by simp [relocate]) ?_
  simpa using (hfirst.append hc').append_right [mark]

lemma refuses_complement (commas : Bool) : Refuses (complement type commas) :=
  strays_peek fun _ _ => (refuses_delegation commas).bind _

/-- A chain of an operator that groups to the left. -/
lemma carries_chain {p : Punctuation} (hp : p ≠ .comma) {operand operand' : Parser TypeExpr}
    (hoperand : Carries J False (relocate J.move) (fun _ => Ends) operand operand')
    {make make' : TypeExpr → TypeExpr → TypeExpr}
    (h : ∀ t u, make' (t.relocate J.move) (u.relocate J.move) = (make t u).relocate J.move) :
    Carries J False (relocate J.move) (fun _ => Ends)
      (operand >>= fun first => repeatWhile (frontIsMark p) (fun left => do
        takeMark p
        return make left (← operand)) first)
      (operand' >>= fun first => repeatWhile (frontIsMark p) (fun left => do
        takeMark p
        return make' left (← operand')) first) := by
  refine hoperand.bind fun first c hfirst => ?_
  refine (carries_repeatEnds (Seam.agrees_frontIsMark hp) (fun left => ?_) first).mono
    fun _ _ => hfirst.append
  refine carries_takeMark (strays_takeMark hp _) fun mark _ => ?_
  refine hoperand.bind fun right c hright => carries_return (h left right) ?_
  simpa using hright.append_right [mark]

include refuses carries in
lemma carries_complement (commas : Bool) :
    Carries J False (relocate J.move) (fun _ => Ends) (complement type commas)
      (complement type' commas) := by
  refine carries_peek (refuses_complement commas) fun start => Carries.at_ ?_ start
  exact carries_chain (by decide) (carries_delegation refuses carries commas) fun t u => by
    simp [relocate]

lemma refuses_union (commas : Bool) : Refuses (union type commas) :=
  strays_peek fun _ _ => (refuses_complement commas).bind _

include refuses carries in
lemma carries_union (commas : Bool) :
    Carries J False (relocate J.move) (fun _ => Ends) (union type commas) (union type' commas) := by
  refine carries_peek (refuses_union commas) fun start => Carries.at_ ?_ start
  exact carries_chain (by decide) (carries_complement refuses carries commas) fun t u => by
    simp [relocate]

/-! ## Alternatives -/

lemma tagOf?_relocate (f : Position → Position) (t : TypeExpr) :
    tagOf? (t.relocate f) = (tagOf? t).map (Tag.relocate f) := by
  cases t <;> simp [tagOf?, relocate, Tag.relocate]

lemma distinctTags_relocate (f : Position → Position) (start : Position) {ts : List TypeExpr}
    {earlier tags : List (Tag TypeExpr)} (h : distinctTags start earlier ts = .ok tags) :
    distinctTags (f start) (earlier.map (Tag.relocate f)) (ts.map (relocate f)) =
      .ok (tags.map (Tag.relocate f)) := by
  induction ts generalizing earlier with
  | nil =>
    cases h
    rfl
  | cons t ts ih =>
    rw [List.map_cons, distinctTags, tagOf?_relocate]
    rw [distinctTags] at h
    cases ht : tagOf? t with
    | none =>
      rw [ht] at h
      cases h
    | some g =>
      rw [ht] at h
      dsimp only [Option.map_some] at h ⊢
      have names : (earlier.map (Tag.relocate f)).any (·.name = (g.relocate f).name) =
          earlier.any (·.name = g.name) := by
        rw [List.any_map]
        rfl
      rw [names]
      split at h
      · cases h
      · rename_i new
        rw [if_neg new]
        simpa using ih h

lemma unionOf_relocate (f : Position → Position) (start : Position) (first : TypeExpr)
    (more : List TypeExpr) :
    unionOf (f start) (first.relocate f) (more.map (relocate f)) =
      (unionOf start first more).relocate f := by
  induction more generalizing first with
  | nil => rfl
  | cons t more ih =>
    cases more with
    | nil => simp [unionOf, relocate]
    | cons u more =>
      have step (start : Position) (first t u : TypeExpr) (more : List TypeExpr) :
          unionOf start first (t :: u :: more) =
            unionOf start (.union (.written none) first t) (u :: more) := rfl
      rw [List.map_cons, List.map_cons, step, step, ← ih]
      simp [relocate]

lemma refuses_alternatives (around : Surroundings) : Refuses (alternatives type around) :=
  strays_peek fun _ _ => (refuses_union around.commas).bind _

include refuses carries in
lemma carries_alternatives (around : Surroundings) :
    Carries J False (relocate J.move) (fun _ => Ends) (alternatives type around)
      (alternatives type' around) := by
  refine carries_peek (refuses_alternatives around) fun start => Carries.at_ ?_ start
  have operand := carries_union refuses carries around.commas
  refine operand.bind fun first c hfirst => ?_
  have more : Carries J False (List.map (relocate J.move)) (fun _ c => c = [] ∨ Ends c)
      (repeatWhile (frontIsMark .bar) (fun more => do
        takeMark .bar
        return more ++ [← union type around.commas]) [])
      (repeatWhile (frontIsMark .bar) (fun more => do
        takeMark .bar
        return more ++ [← union type' around.commas]) []) := by
    refine carries_repeatEnds (Seam.agrees_frontIsMark (by decide)) (fun more => ?_) []
    refine carries_takeMark (strays_takeMark (by decide) _) fun bar _ => ?_
    exact carries_snoc operand more fun _ _ ends => ends.append_right [bar]
  refine more.bind fun more c' hc' => ?_
  have ends : Ends (c ++ (c' ++ [])) := by simpa using hfirst.append hc'
  refine .ite (by simp) (fun _ => carries_pure ends) fun _ => ?_
  refine carries_asks (Seam.agrees_endsAlternatives around.commas) fun endsHere => ?_
  have bare : ((first :: more).map (relocate J.move)).all (tagOf? · |>.isSome) =
      (first :: more).all (tagOf? · |>.isSome) := by
    simp [List.all_map, Function.comp_def, tagOf?_relocate]
  refine .ite (by rw [← bare]; rfl) (fun _ => ?_) fun _ => ?_
  · have tags : Carries J False (List.map (Tag.relocate J.move)) (fun _ c => c = [])
        (ofResult (distinctTags start.position [] (first :: more)))
        (ofResult (distinctTags (J.move start.position) []
          ((first :: more).map (relocate J.move)))) :=
      carries_lift fun tags htags => ⟨distinctTags_relocate J.move start.position htags, rfl⟩
    refine tags.bind fun tags none hnone => carries_return (by simp [relocate]) ?_
    subst hnone
    exact ends
  · exact carries_return (unionOf_relocate J.move start.position first more) ends

/-! ## Functions -/

/-- Some parameters have taken tokens, and if none of them has a suffix, then the last token ends an
operand. -/
def EndsPlain (ps : List (Parameter TypeExpr)) (c : List Token) : Prop :=
  c ≠ [] ∧ ((∀ p ∈ ps, p.suffix = .none) → Ends c)

lemma refuses_parameter (around : Surroundings) : Refuses (parameter type around) :=
  strays_peek fun _ _ => (refuses_alternatives around).bind _

include refuses carries in
lemma carries_parameter (around : Surroundings) :
    Carries J False (Parameter.relocate J.move) (fun p => EndsPlain [p]) (parameter type around)
      (parameter type' around) := by
  refine carries_peek (refuses_parameter around) fun start => Carries.at_ ?_ start
  refine (carries_alternatives refuses carries around).bind fun t c ends => ?_
  refine carries_asks (Seam.agrees_frontIsMark (by decide)) fun optional => ?_
  have suffixed (suffix : Suffix) (passed : List Token) (h : suffix = .none → passed = []) :
      Carries J False (Parameter.relocate J.move)
        (fun p e => EndsPlain [p] (c ++ (passed ++ e))) (pure ⟨t, suffix, start.position⟩)
        (pure ⟨t.relocate J.move, suffix, J.move start.position⟩) := by
    refine carries_return rfl ⟨by simp [ends.ne_nil], fun plain => ?_⟩
    rw [h (plain _ List.mem_cons_self)]
    simpa using ends
  cases optional with
  | true =>
    exact carries_takeMark (strays_takeMark (by decide) _) fun mark _ =>
      suffixed .optional [mark] (by simp)
  | false =>
    refine carries_asks (Seam.agrees_frontIsMark (by decide)) fun variadic => ?_
    cases variadic with
    | true =>
      exact carries_takeMark (strays_takeMark (by decide) _) fun mark _ =>
        suffixed .variadic [mark] (by simp)
    | false => exact suffixed .none [] fun _ => rfl

lemma refuses_parameters (around : Surroundings) : Refuses (parameters type around) :=
  (refuses_parameter around).bind _

include refuses carries in
lemma carries_parameters (around : Surroundings) :
    Carries J False (List.map (Parameter.relocate J.move)) EndsPlain (parameters type around)
      (parameters type' around) := by
  have operand := carries_parameter refuses carries around
  refine operand.bind fun first c hfirst => ?_
  refine carries_repeatWhile (Seam.agrees_commaContinues around.commas)
    (by simpa using hfirst) fun ps e _ => ?_
  refine carries_takeMark (strays_after_takeMark _ ((refuses_parameter around).bind _))
    fun comma _ => carries_snoc operand ps fun p e' hp => ?_
  refine ⟨List.cons_ne_nil _ _, by simp, fun plain => ?_⟩
  have ends := hp.2 fun q hq => plain q (List.mem_append_right ps hq)
  simpa using ends.append_right (c ++ (e ++ [comma]))

lemma outputsOf_relocate (f : Position → Position) {ps : List (Parameter TypeExpr)}
    {ts : List TypeExpr} (h : outputsOf ps = .ok ts) :
    outputsOf (ps.map (Parameter.relocate f)) = .ok (ts.map (relocate f)) ∧
      ∀ p ∈ ps, p.suffix = .none := by
  induction ps generalizing ts with
  | nil =>
    cases h
    exact ⟨rfl, by simp⟩
  | cons p ps ih =>
    rw [outputsOf] at h
    rw [List.map_cons, outputsOf]
    split at h
    · rename_i plain
      rw [if_pos (show (p.relocate f).suffix = .none from plain)]
      cases hrest : outputsOf ps with
      | error e =>
        rw [hrest] at h
        cases h
      | ok us =>
        rw [hrest] at h
        cases h
        obtain ⟨moved, none⟩ := ih hrest
        rw [moved]
        exact ⟨rfl, List.forall_mem_cons.2 ⟨plain, none⟩⟩
    · obtain ⟨place, -, h⟩ := bind_eq_ok.1 h
      cases h

lemma checkInputs_relocate (f : Position → Position) {ps : List (Parameter TypeExpr)}
    (h : checkInputs ps = .ok ()) : checkInputs (ps.map (Parameter.relocate f)) = .ok () := by
  induction ps with
  | nil => rfl
  | cons p ps ih =>
    cases ps with
    | nil => rfl
    | cons q ps =>
      rw [checkInputs] at h
      · split at h
        · obtain ⟨place, -, h⟩ := bind_eq_ok.1 h
          cases h
        · rename_i finite
          rw [List.map_cons, List.map_cons, checkInputs,
            if_neg (show (p.relocate f).suffix ≠ .variadic from finite)]
          · exact ih h
          · simp
      · simp

/-- A group of parameters at other positions. -/
def relocateGroup (f : Position → Position) (group : Position × List (Parameter TypeExpr)) :
    Position × List (Parameter TypeExpr) :=
  (f group.1, group.2.map (Parameter.relocate f))

lemma functionOf_relocate (f : Position → Position) (start : Position)
    (inputs : List (Parameter TypeExpr)) {groups : List (Position × List (Parameter TypeExpr))}
    {t : TypeExpr} (h : functionOf start inputs groups = .ok t) :
    functionOf (f start) (inputs.map (Parameter.relocate f)) (groups.map (relocateGroup f)) =
        .ok (t.relocate f) ∧
      ∀ group ∈ groups.getLast?, ∀ p ∈ group.2, p.suffix = .none := by
  induction groups generalizing start inputs t with
  | nil =>
    cases h
    exact ⟨by simp [functionOf, relocate], by simp⟩
  | cons group rest ih =>
    cases rest with
    | nil =>
      obtain ⟨outputs, houtputs, h⟩ := bind_eq_ok.1 h
      obtain ⟨⟨⟩, hinputs, h⟩ := bind_eq_ok.1 h
      cases h
      obtain ⟨moved, none⟩ := outputsOf_relocate f houtputs
      refine ⟨?_, by simpa using none⟩
      refine bind_eq_ok.2 ⟨_, moved, bind_eq_ok.2 ⟨(), checkInputs_relocate f hinputs, ?_⟩⟩
      simp [relocate, pure, Except.pure]
    | cons next rest =>
      obtain ⟨output, houtput, h⟩ := bind_eq_ok.1 h
      obtain ⟨⟨⟩, hinputs, h⟩ := bind_eq_ok.1 h
      cases h
      obtain ⟨moved, none⟩ := ih group.1 group.2 houtput
      refine ⟨?_, by simpa using none⟩
      refine bind_eq_ok.2 ⟨_, moved, bind_eq_ok.2 ⟨(), checkInputs_relocate f hinputs, ?_⟩⟩
      simp [relocate, pure, Except.pure]

lemma refuses_function (around : Surroundings) : Refuses (function type around) :=
  strays_peek fun _ _ => strays_asksMark (by decide) ((refuses_parameters around).bind _)

lemma EndsPlain.append_right {ps : List (Parameter TypeExpr)} {c : List Token} (c' : List Token)
    (h : EndsPlain ps c) : EndsPlain ps (c' ++ c) :=
  ⟨by simp [h.1], fun plain => (h.2 plain).append_right c'⟩

include refuses carries in
lemma carries_groups (around : Surroundings) :
    Carries J False (List.map (relocateGroup J.move))
      (fun groups c => (groups = [] → c = []) ∧ ∀ group ∈ groups.getLast?, EndsPlain group.2 c)
      (repeatWhile (frontIsMark .arrow) (fun groups => do
        takeMark .arrow
        let inner ← peek
        return groups ++ [(inner.position, ← parameters type around)]) [])
      (repeatWhile (frontIsMark .arrow) (fun groups => do
        takeMark .arrow
        let inner ← peek
        return groups ++ [(inner.position, ← parameters type' around)]) []) := by
  refine carries_repeatWhile (g := List.map (relocateGroup J.move))
    (Seam.agrees_frontIsMark (by decide)) (by simp) fun groups c _ => ?_
  refine carries_takeMark (strays_takeMark (by decide) _) fun arrow _ => ?_
  refine carries_peek (strays_peek fun _ _ => (refuses_parameters around).bind _) fun inner => ?_
  refine Carries.at_ ?_ inner
  refine (carries_parameters refuses carries around).bind fun group c' hgroup => ?_
  refine carries_return (by simp [relocateGroup]) ⟨List.cons_ne_nil _ _, by simp, ?_⟩
  simpa using hgroup.append_right (c ++ [arrow])

include refuses carries in
lemma carries_function (around : Surroundings) :
    Carries J False (relocate J.move) (fun _ => Ends) (function type around)
      (function type' around) := by
  refine carries_peek (refuses_function around) fun start => Carries.at_ ?_ start
  refine carries_asks (Seam.agrees_frontIsMark (by decide)) fun outputsOnly => ?_
  refine .ite_bind (carries_pure (.inl rfl))
    ((carries_parameters refuses carries around).mono fun _ _ => .inr)
    fun inputs c (hinputs : inputs = [] ∨ EndsPlain inputs c) => ?_
  refine (carries_groups refuses carries _).bind fun groups c' hgroups => ?_
  refine .ite (by simp) (fun arrows => ?_) fun bare => ?_
  · refine carries_lift fun t ht => ?_
    obtain ⟨moved, none⟩ := functionOf_relocate J.move start.position inputs ht
    have nonempty : groups ≠ [] := by simpa using arrows
    have last := List.getLast?_eq_some_getLast nonempty
    have ends := (hgroups.2 _ last).2 (none _ last)
    exact ⟨moved, by simpa using ends.append_right c⟩
  · have done : c' = [] := hgroups.1 (by simpa using bare)
    subst done
    rcases inputs with _ | ⟨⟨t, suffix, p⟩, _ | ⟨q, rest⟩⟩
    · exact carries_refuse _ _
    · cases suffix with
      | none =>
        have ends : c ≠ [] ∧ Ends c := by simpa [EndsPlain] using hinputs
        exact carries_pure (by simpa using ends.2)
      | _ => exact carries_refuse _ _
    · cases suffix <;> exact carries_refuse _ _

end Brackets

/-! ## Predicates -/

section Binders

variable {commas : Bool} {t u : Token} {ts : List Token}

lemma binders?_barren (h : Barren ts) : binders? commas ts = none := by
  refine binders?_eq_none (isVariable_eq_false fun name => ?_)
  rcases h.kind_tokenAt 0 with front | front <;> rw [front] at name <;> cases name

lemma binders?_cons_barren (h : Barren ts) : binders? commas (t :: ts) = none := by
  by_cases variable_ : t.isVariable
  · cases ts with
    | nil => simp [binders?, variable_]
    | cons u ts =>
      rw [binders?_variable variable_, show binders? commas ts = none from binders?_barren h.tail]
      rcases h u List.mem_cons_self with front | front <;> simp [front]
  · have absent : t.isVariable = false := by simpa using variable_
    exact binders?_eq_none absent

lemma binders?_stops (h : Stops ts) : binders? commas ts = none := by
  refine binders?_eq_none (isVariable_eq_false fun name => ?_)
  simpa [name] using h.kind_front

lemma binders?_cons_stops (h : Stops ts) : binders? commas (t :: ts) = none := by
  by_cases variable_ : t.isVariable
  · cases ts with
    | nil => simp [binders?, variable_]
    | cons u ts =>
      rw [binders?_variable variable_]
      rcases h with front | front | ⟨front, next⟩
      · have front : u.kind = .newline := front
        simp [front]
      · have front : u.kind = .finish := front
        simp [front]
      · have front : u.kind = .mark .comma := front
        have absent : (tokenAt ts 0).isVariable = false := by
          rw [Seam.tokenAt_cons_one] at next
          rcases next with next | next
          · refine isVariable_eq_false fun name => ?_
            simp [name] at next
          · simp only [declarationAhead, List.drop_one, List.tail_cons, Bool.and_eq_true] at next
            simpa using next.1.2
        simp [front, binders?_eq_none absent]
  · have absent : t.isVariable = false := by simpa using variable_
    exact binders?_eq_none absent

/-- Variables are listed before a seam on both sides or on none. -/
lemma binders?_seam (J : Seam) (commas : Bool) : ∀ d : List Token,
    (binders? commas (J.near d) = none ∧ binders? commas (J.far d) = none) ∨
      ∃ bs c e, d = c ++ e ∧ binders? commas (J.near d) = some (bs, J.near e) ∧
        binders? commas (J.far d) = some (bs.map (Binder.relocate J.move), J.far e)
  | [] => .inl ⟨binders?_barren J.barren, binders?_stops J.stops⟩
  | [t] => .inl ⟨binders?_cons_barren J.barren, binders?_cons_stops J.stops⟩
  | t :: u :: d => by
    simp only [Seam.near_cons, Seam.far_cons]
    by_cases variable_ : t.isVariable
    · rw [binders?_variable variable_, binders?_variable (t := t.relocate J.move) variable_,
        Token.kind_relocate]
      by_cases colon : u.kind = .mark .colon
      · rw [if_pos colon, if_pos colon]
        exact .inr ⟨_, [t, u], d, rfl, rfl, rfl⟩
      · rw [if_neg colon, if_neg colon]
        by_cases comma : u.kind = .mark .comma ∧ commas
        · rw [if_pos comma, if_pos comma]
          rcases binders?_seam J commas d with ⟨near, far⟩ | ⟨bs, c, e, rfl, near, far⟩
          · rw [near, far]
            exact .inl ⟨rfl, rfl⟩
          · rw [near, far]
            exact .inr ⟨_, t :: u :: c, e, rfl, rfl, rfl⟩
        · rw [if_neg comma, if_neg comma]
          exact .inl ⟨rfl, rfl⟩
    · have absent : t.isVariable = false := by simpa using variable_
      exact .inl ⟨binders?_eq_none absent, binders?_eq_none absent⟩

end Binders

lemma refuses_type (bound : Nat) (around : Surroundings) : Refuses (type bound around) := by
  induction bound generalizing around with
  | zero => exact strays_throw _
  | succ bound ih =>
    refine strays_peek fun _ _ n ts a rest barren ha => ?_
    rw [answer_binders_bind, binders?_barren barren] at ha
    exact ((refuses_function around).bind _ : Refuses _) n ts a rest barren ha

lemma carries_binders {β : Type} {g' : β → β} {Post : β → List Token → Prop} {commas : Bool}
    {f f' : List Binder → Parser β}
    (hf : ∀ bs c, Carries J stray g' (fun b e => Post b (c ++ e)) (f bs)
      (f' (bs.map (Binder.relocate J.move)))) :
    Carries J stray g' Post (binders commas >>= f) (binders commas >>= f') := by
  intro n n' d hd hn b r hb
  rw [answer_binders_bind] at hb
  rcases binders?_seam J commas d with ⟨near, far⟩ | ⟨bs, c, e, rfl, near, far⟩
  · rw [near] at hb
    rcases hf [] [] n n' d hd hn b r hb with strayed | ⟨c, e, hd, hr, post, hb'⟩
    · exact .inl strayed
    · refine .inr ⟨c, e, hd, hr, post, ?_⟩
      rw [answer_binders_bind, far]
      exact hb'
  · rw [near] at hb
    rw [List.length_append] at hd
    rcases hf bs c n n' e (by omega) hn b r hb with strayed | ⟨c', e', rfl, hr, post, hb'⟩
    · exact .inl strayed
    · refine .inr ⟨c ++ c', e', (List.append_assoc ..).symm, hr, post, ?_⟩
      rw [answer_binders_bind, far]
      exact hb'

/-- What comes after a type is not read, however deeply types may be nested. -/
lemma carries_type {bound bound' : Nat} (h : bound ≤ bound') (around : Surroundings) :
    Carries J False (relocate J.move) (fun _ => Ends) (type bound around) (type bound' around) := by
  induction bound generalizing bound' around with
  | zero => exact carries_throw _ _
  | succ bound ih =>
    obtain ⟨bound', rfl⟩ := Nat.exists_eq_add_of_le' (Nat.le_trans (Nat.succ_pos _) h)
    have refuses (around : Surroundings) : Refuses (type bound around) := refuses_type bound around
    have inner (around : Surroundings) :
        Carries J False (relocate J.move) (fun _ => Ends) (type bound around)
          (type bound' around) :=
      ih (Nat.le_of_succ_le_succ h) around
    refine carries_peek (refuses_type (bound + 1) around) fun start => Carries.at_ ?_ start
    refine carries_binders fun listed c => ?_
    refine .ite (by simp) (fun _ => ?_) fun _ => ?_
    · refine (carries_function refuses inner around).bind fun t c' ends => ?_
      refine carries_asks (Seam.agrees_frontIsMark (by decide)) fun implies => ?_
      cases implies with
      | true =>
        refine carries_takeMark (strays_takeMark (by decide) _) fun mark _ => ?_
        refine (inner around).bind fun body c'' ends => carries_return (by simp [relocate]) ?_
        simpa using ends.append_right (c ++ (c' ++ [mark]))
      | false => exact carries_pure (by simpa using ends.append_right c)
    · refine (carries_function refuses inner ⟨around.commas, false⟩).bind fun constraint c' _ => ?_
      refine carries_takeMark (strays_takeMark (by decide) _) fun mark _ => ?_
      refine (inner around).bind fun body c'' ends => carries_return (by simp [relocate]) ?_
      simpa using ends.append_right (c ++ (c' ++ [mark]))

end Parser

end TypeNotation
