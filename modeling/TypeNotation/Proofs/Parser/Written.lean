import TypeNotation.Proofs.Parser.Reading
import TypeNotation.Proofs.Resolution.World

/-!
# What is read from a text

A type that is read from a text refers to no node of any heap: there is neither a named nor a
suspended type in it, nor a primitive one.  So it may be given to be resolved in every session.  Its
variables have no scope yet.
-/

namespace TypeNotation

open TypeExpr

namespace TypeExpr

/-- What may stand in a type that is read from a text. -/
def Spelled : TypeExpr → Prop
  | named .. | deferred .. | primitive .. => False
  | typeVariable _ v => v.scope = none
  | _ => True

/-- A type as it is read from a text. -/
abbrev Parsed (t : TypeExpr) : Prop :=
  t.Throughout Spelled

lemma Spelled.admitted {K : Nodes} {t : TypeExpr} (h : t.Spelled) : t.Admitted K := by
  cases t <;> first | exact h.elim | trivial

lemma Parsed.over {K : Nodes} {t : TypeExpr} (h : t.Parsed) : t.Over K :=
  h.mono fun _ => Spelled.admitted

end TypeExpr

namespace Parser

variable {α β σ : Type}

/-- Whatever a production answers satisfies a condition. -/
def Yields (p : Parser α) (Post : α → Prop) : Prop :=
  ∀ count tokens a rest, (p.run count).run tokens = .ok (a, rest) → Post a

lemma yields_pure {Post : α → Prop} {a : α} (h : Post a) : Yields (pure a) Post := by
  intro count tokens b rest hb
  cases hb
  exact h

lemma yields_throw {Post : α → Prop} (e : Stop) : Yields (throw e) Post := by
  intro count tokens b rest hb
  cases hb

lemma yields_any (p : Parser α) : Yields p fun _ => True :=
  fun _ _ _ _ _ => trivial

lemma Yields.bind {p : Parser α} {f : α → Parser β} {Mid : α → Prop} {Post : β → Prop}
    (hp : Yields p Mid) (hf : ∀ a, Mid a → Yields (f a) Post) : Yields (p >>= f) Post := by
  intro count tokens b rest hb
  obtain ⟨⟨a, tokens'⟩, ha, hb⟩ := bind_eq_ok.1 hb
  exact hf a (hp _ _ _ _ ha) _ _ _ _ hb

/-- A step whose answer does not matter. -/
lemma Yields.after {p : Parser α} {f : α → Parser β} {Post : β → Prop}
    (hf : ∀ a, Yields (f a) Post) : Yields (p >>= f) Post :=
  (yields_any p).bind fun a _ => hf a

/-- Two ways to the same continuation. -/
lemma Yields.join {p q : Parser α} {f : α → Parser β} {Mid : α → Prop} {Post : β → Prop}
    (hp : Yields p Mid) (hq : Yields q Mid) (hf : ∀ a, Mid a → Yields (f a) Post) (c : Bool) :
    Yields (if c then p >>= f else q >>= f) Post := by
  cases c
  · exact hq.bind hf
  · exact hp.bind hf

lemma Yields.mono {p : Parser α} {Post Post' : α → Prop} (hp : Yields p Post)
    (h : ∀ a, Post a → Post' a) : Yields p Post' :=
  fun _ _ _ _ ha => h _ (hp _ _ _ _ ha)

lemma yields_refuse {Post : α → Prop} (expected : String) : Yields (refuse expected) Post :=
  .after fun _ => yields_throw _

/-- What each round of a repetition keeps holds of its result. -/
lemma yields_repeatWhile {more : List Token → Bool} {step : σ → Parser σ} {P : σ → Prop} {s : σ}
    (hs : P s) (hstep : ∀ s, P s → Yields (step s) P) :
    Yields (repeatWhile more step s) P := by
  refine .after fun rounds => ?_
  induction rounds generalizing s with
  | zero =>
    refine .after fun goesOn => ?_
    cases goesOn
    · exact yields_pure hs
    · exact yields_throw _
  | succ rounds ih =>
    refine .after fun goesOn => ?_
    cases goesOn
    · exact yields_pure hs
    · exact (hstep s hs).bind fun s' hs' => ih hs'

/-- An answer that does not depend on the tokens. -/
lemma yields_lift {x : Except Stop α} {Post : α → Prop} (h : ∀ a, x = .ok a → Post a) :
    Yields (ofResult x) Post := by
  intro count tokens a rest ha
  cases x with
  | error e => cases ha
  | ok b =>
    cases ha
    exact h a rfl

variable {type : TypeParser}

/-- A node that may be read is built of types that are read. -/
lemma parsed_of_parts {t : TypeExpr} (self : t.Spelled) (parts : ∀ u ∈ t.parts, u.Parsed) :
    t.Parsed :=
  throughout_iff.2 ⟨self, parts⟩

/-! ## Atoms -/

lemma parsed_number : Yields number Parsed :=
  .after fun _ => .after fun low => .after fun ahead => by
    cases ahead
    · exact yields_pure (throughout_number (fun _ => trivial) low)
    · refine .after fun _ => .after fun high => yields_pure (parsed_of_parts trivial ?_)
      simp only [parts, List.forall_mem_cons]
      exact ⟨throughout_number (fun _ => trivial) low, throughout_number (fun _ => trivial) high,
        by simp⟩

/-- A list of types that are read, and one more. -/
lemma forall_parsed_snoc {ts : List TypeExpr} {t : TypeExpr} (hts : ∀ t ∈ ts, t.Parsed)
    (ht : t.Parsed) : ∀ u ∈ ts ++ [t], u.Parsed := by
  simpa [or_imp, forall_and] using ⟨hts, ht⟩

lemma parsed_listOf {ts : List TypeExpr} (m : Mark) (hts : ∀ t ∈ ts, t.Parsed) :
    (listOf m ts).Parsed :=
  parsed_of_parts trivial fun u hu => hts u (withoutRepeats_subset ts hu)

lemma parsed_items (htype : ∀ around, Yields (type around) Parsed) (closer : Punctuation) :
    Yields (items type closer) fun ts => ∀ t ∈ ts, t.Parsed := by
  refine (yields_repeatWhile (P := fun ts => ∀ t ∈ ts, t.Parsed) (by simp) fun ts hts => ?_).bind
    fun ts hts => .after fun _ => yields_pure hts
  refine (htype _).bind fun t ht => .after fun comma => ?_
  have answer : Yields (pure (ts ++ [t])) fun ts => ∀ t ∈ ts, t.Parsed :=
    yields_pure (forall_parsed_snoc hts ht)
  cases comma
  · refine .after fun closes => ?_
    cases closes
    · exact .after fun _ => answer
    · exact answer
  · exact .after fun _ => answer

lemma parsed_field (htype : ∀ around, Yields (type around) Parsed)
    (earlier : List (Field TypeExpr)) : Yields (field type earlier) fun f => f.type.Parsed := by
  have rest (name : Token) : Yields (do
      modify (List.dropWhile fun t => t.kind = .name && t.isVariable)
      takeMark .colon
      return (⟨name.text, ← type ⟨true, true⟩⟩ : Field TypeExpr)) fun f => f.type.Parsed :=
    .after fun _ => .after fun _ => (htype _).bind fun t ht => yields_pure ht
  have checked (name : Token) : Yields (do
      modify List.tail
      if earlier.any (·.name = name.text) then fail (.repeatedName name.position "field" name.text)
      modify (List.dropWhile fun t => t.kind = .name && t.isVariable)
      takeMark .colon
      return (⟨name.text, ← type ⟨true, true⟩⟩ : Field TypeExpr)) fun f => f.type.Parsed := by
    refine .after fun _ => ?_
    dsimp only
    split
    · exact .after fun _ => rest name
    · exact rest name
  refine .after fun name => ?_
  dsimp only
  split
  · exact .after fun _ => checked name
  · exact checked name

lemma parsed_fields (htype : ∀ around, Yields (type around) Parsed) :
    Yields (fields type) fun fs => ∀ f ∈ fs, f.type.Parsed := by
  refine .after fun _ => (yields_repeatWhile (P := fun fs => ∀ f ∈ fs, f.type.Parsed) (by simp)
    fun fs hfs => ?_).bind fun fs hfs => .after fun _ => yields_pure hfs
  refine (parsed_field htype fs).bind fun f hf => .after fun separated => ?_
  have answer : Yields (pure (fs ++ [f])) fun gs => ∀ g ∈ gs, g.type.Parsed :=
    yields_pure (by simpa [or_imp, forall_and] using ⟨hfs, hf⟩)
  cases separated
  · refine .after fun closes => ?_
    cases closes
    · exact .after fun _ => answer
    · exact answer
  · exact .after fun _ => answer

lemma parsed_atom (htype : ∀ around, Yields (type around) Parsed) :
    Yields (atom type) Parsed := by
  refine .after fun token => ?_
  dsimp only
  split
  · refine .after fun _ => ?_
    split
    · exact yields_pure (parsed_of_parts rfl (by simp [parts]))
    · exact yields_pure (parsed_of_parts trivial (by simp [parts]))
  · exact .after fun _ => yields_pure (parsed_of_parts trivial (by simp [parts]))
  · exact parsed_number
  · exact .after fun _ => .after fun _ => (htype _).bind fun t ht =>
      .after fun _ => yields_pure ht
  · exact .after fun _ => (parsed_items htype _).bind fun ts hts =>
      yields_pure (parsed_listOf _ hts)
  · exact .after fun _ => (parsed_items htype _).bind fun ts hts =>
      yields_pure (parsed_of_parts trivial hts)
  · refine .after fun _ => (parsed_fields htype).bind fun fs hfs =>
      yields_pure (parsed_of_parts trivial ?_)
    simpa [parts] using hfs
  · exact yields_refuse _

lemma parsed_application (htype : ∀ around, Yields (type around) Parsed) :
    Yields (application type) Parsed := by
  refine .after fun token => ?_
  split
  · refine .after fun _ => (yields_repeatWhile (P := fun ts => ∀ t ∈ ts, t.Parsed) (by simp)
      fun ts hts => ?_).bind fun ts hts => yields_pure (parsed_of_parts trivial hts)
    exact (parsed_atom htype).bind fun t ht => yields_pure (forall_parsed_snoc hts ht)
  · exact parsed_atom htype

/-! ## Operators -/

lemma parsed_delegation (htype : ∀ around, Yields (type around) Parsed) (commas : Bool) :
    Yields (delegation type commas) Parsed := by
  refine .after fun start => (parsed_application htype).bind fun base hbase =>
    yields_repeatWhile hbase fun base hbase => .after fun _ => ?_
  refine (parsed_application htype).bind fun first hfirst => (yields_repeatWhile
    (P := fun ts => ∀ t ∈ ts, t.Parsed) (by simpa using hfirst) fun ts hts => .after fun _ =>
      (parsed_application htype).bind fun t ht => yields_pure (forall_parsed_snoc hts ht)).bind
    fun ts hts => yields_pure (parsed_of_parts trivial ?_)
  simpa [parts] using ⟨hbase, hts⟩

lemma parsed_complement (htype : ∀ around, Yields (type around) Parsed) (commas : Bool) :
    Yields (complement type commas) Parsed := by
  refine .after fun start => (parsed_delegation htype commas).bind fun first hfirst =>
    yields_repeatWhile hfirst fun left hleft => .after fun _ =>
      (parsed_delegation htype commas).bind fun right hright =>
        yields_pure (parsed_of_parts trivial ?_)
  simpa [parts] using ⟨hleft, hright⟩

lemma parsed_union (htype : ∀ around, Yields (type around) Parsed) (commas : Bool) :
    Yields (union type commas) Parsed := by
  refine .after fun start => (parsed_complement htype commas).bind fun first hfirst =>
    yields_repeatWhile hfirst fun left hleft => .after fun _ =>
      (parsed_complement htype commas).bind fun right hright =>
        yields_pure (parsed_of_parts trivial ?_)
  simpa [parts] using ⟨hleft, hright⟩

lemma parsed_distinctTags {start : Position} {earlier : List (Tag TypeExpr)}
    {ts : List TypeExpr} {gs : List (Tag TypeExpr)}
    (hearlier : ∀ g ∈ earlier, ∀ t ∈ g.fields, t.Parsed) (hts : ∀ t ∈ ts, t.Parsed)
    (h : distinctTags start earlier ts = .ok gs) : ∀ g ∈ gs, ∀ t ∈ g.fields, t.Parsed := by
  induction ts generalizing earlier with
  | nil =>
    cases h
    exact hearlier
  | cons t ts ih =>
    rw [List.forall_mem_cons] at hts
    rw [distinctTags] at h
    split at h
    · rename_i g hg
      split at h
      · cases h
      · refine ih ?_ hts.2 h
        intro g' hg'
        rcases List.mem_append.1 hg' with hg' | hg'
        · exact hearlier g' hg'
        · rw [List.mem_singleton] at hg'
          subst hg'
          cases t <;> simp only [tagOf?, reduceCtorEq, Option.some.injEq] at hg
          subst hg
          exact fun u hu => hts.1.part hu
    · cases h

lemma parsed_unionOf {start : Position} {first : TypeExpr} {ts : List TypeExpr}
    (hfirst : first.Parsed) (hts : ∀ t ∈ ts, t.Parsed) : (unionOf start first ts).Parsed := by
  induction ts generalizing first with
  | nil => exact hfirst
  | cons t ts ih =>
    rw [List.forall_mem_cons] at hts
    have both (m : Mark) : (TypeExpr.union m first t).Parsed :=
      parsed_of_parts trivial (by simpa [parts] using ⟨hfirst, hts.1⟩)
    cases ts with
    | nil => exact both _
    | cons u ts => exact ih (both _) hts.2

lemma parsed_alternatives (htype : ∀ around, Yields (type around) Parsed)
    (around : Surroundings) : Yields (alternatives type around) Parsed := by
  refine .after fun start => (parsed_union htype _).bind fun first hfirst => (yields_repeatWhile
    (P := fun ts => ∀ t ∈ ts, t.Parsed) (by simp) fun ts hts => .after fun _ =>
      (parsed_union htype _).bind fun t ht => yields_pure (forall_parsed_snoc hts ht)).bind
    fun more hmore => ?_
  dsimp only
  split
  · exact yields_pure hfirst
  · have tags : Yields (ofResult (distinctTags start.position [] (first :: more)))
        fun gs => ∀ g ∈ gs, ∀ t ∈ g.fields, t.Parsed :=
      yields_lift fun gs hgs => parsed_distinctTags (by simp) (by simpa using ⟨hfirst, hmore⟩) hgs
    refine .after fun ends => ?_
    split
    · exact tags.bind fun gs hgs => yields_pure (parsed_of_parts trivial (by
        simp only [parts, List.mem_flatMap, forall_exists_index, and_imp]
        exact fun t g hg ht => hgs g hg t ht))
    · exact yields_pure (parsed_unionOf hfirst hmore)

/-! ## Functions -/

lemma parsed_parameter (htype : ∀ around, Yields (type around) Parsed)
    (around : Surroundings) : Yields (parameter type around) fun p => p.type.Parsed :=
  .after fun start => (parsed_alternatives htype around).bind fun t ht => .after fun question => by
    have answer (suffix : Suffix) : Yields (pure (⟨t, suffix, start.position⟩ :
        Parameter TypeExpr)) fun p => p.type.Parsed := yields_pure ht
    cases question
    · refine .after fun ellipsis => ?_
      cases ellipsis
      · exact answer _
      · exact .after fun _ => answer _
    · exact .after fun _ => answer _

lemma parsed_parameters (htype : ∀ around, Yields (type around) Parsed)
    (around : Surroundings) : Yields (parameters type around) fun ps => ∀ p ∈ ps, p.type.Parsed :=
  (parsed_parameter htype around).bind fun first hfirst =>
    yields_repeatWhile (by simpa using hfirst) fun ps hps => .after fun _ =>
      (parsed_parameter htype around).bind fun p hp =>
        yields_pure (by simpa [or_imp, forall_and] using ⟨hps, hp⟩)

lemma parsed_outputsOf {ps : List (Parameter TypeExpr)} (hps : ∀ p ∈ ps, p.type.Parsed)
    {ts : List TypeExpr} (h : outputsOf ps = .ok ts) : ∀ t ∈ ts, t.Parsed := by
  induction ps generalizing ts with
  | nil =>
    cases h
    simp
  | cons p ps ih =>
    rw [List.forall_mem_cons] at hps
    rw [outputsOf] at h
    split at h
    · cases hrest : outputsOf ps with
      | error e => simp [hrest, Except.map] at h
      | ok us =>
        simp only [hrest, Except.map, Except.ok.injEq] at h
        subst h
        exact List.forall_mem_cons.2 ⟨hps.1, ih hps.2 hrest⟩
    · obtain ⟨place, -, h⟩ := bind_eq_ok.1 h
      cases h

lemma parsed_functionNode {inputs : List (Parameter TypeExpr)} {outputs : List TypeExpr} (m : Mark)
    (hinputs : ∀ p ∈ inputs, p.type.Parsed) (houtputs : ∀ u ∈ outputs, u.Parsed) :
    (TypeExpr.function m inputs outputs).Parsed :=
  parsed_of_parts trivial (by
    simp only [parts, List.forall_mem_append, List.forall_mem_map]
    exact ⟨hinputs, houtputs⟩)

lemma parsed_functionOf {start : Position} {inputs : List (Parameter TypeExpr)}
    {groups : List (Position × List (Parameter TypeExpr))} (hinputs : ∀ p ∈ inputs, p.type.Parsed)
    (hgroups : ∀ g ∈ groups, ∀ p ∈ g.2, p.type.Parsed) {t : TypeExpr}
    (h : functionOf start inputs groups = .ok t) : t.Parsed := by
  induction groups generalizing start inputs t with
  | nil =>
    cases h
    exact parsed_functionNode _ hinputs (by simp)
  | cons g groups ih =>
    rw [List.forall_mem_cons] at hgroups
    obtain ⟨p, group⟩ := g
    cases groups with
    | nil =>
      simp only [functionOf] at h
      obtain ⟨outputs, houtputs, h⟩ := bind_eq_ok.1 h
      obtain ⟨_, -, h⟩ := bind_eq_ok.1 h
      cases h
      exact parsed_functionNode _ hinputs (parsed_outputsOf hgroups.1 houtputs)
    | cons g' groups =>
      rw [functionOf] at h
      · obtain ⟨output, houtput, h⟩ := bind_eq_ok.1 h
        obtain ⟨_, -, h⟩ := bind_eq_ok.1 h
        cases h
        exact parsed_functionNode _ hinputs (by simpa using ih hgroups.1 hgroups.2 houtput)
      · simp

lemma parsed_function (htype : ∀ around, Yields (type around) Parsed)
    (around : Surroundings) : Yields (function type around) Parsed := by
  refine .after fun start => .after fun arrow => ?_
  refine .join (yields_pure (a := []) (by simp)) (parsed_parameters htype around)
    (fun inputs hinputs => ?_) arrow
  refine (yields_repeatWhile (P := fun groups : List (Position × List (Parameter TypeExpr)) =>
    ∀ g ∈ groups, ∀ p ∈ g.2, p.type.Parsed) (by simp) fun groups hgroups => .after fun _ =>
      .after fun inner => (parsed_parameters htype _).bind fun ps hps => yields_pure ?_).bind
    fun groups hgroups => ?_
  · intro g hg
    rcases List.mem_append.1 hg with hg | hg
    · exact hgroups g hg
    · rw [List.mem_singleton] at hg
      subst hg
      exact hps
  · split
    · exact yields_lift fun t ht => parsed_functionOf hinputs hgroups ht
    · unfold withoutArrow
      split
      · exact yields_pure (hinputs _ List.mem_cons_self)
      · exact yields_refuse _

/-! ## Types and declarations -/

lemma parsed_type (bound : Nat) (around : Surroundings) :
    Yields (Parser.type bound around) Parsed := by
  induction bound generalizing around with
  | zero => exact yields_throw _
  | succ bound ih =>
    refine .after fun start => .after fun listed => ?_
    split
    · refine (parsed_function ih around).bind fun t ht => .after fun implies => ?_
      cases implies
      · exact yields_pure ht
      · refine .after fun _ => (ih around).bind fun body hbody =>
          yields_pure (parsed_of_parts trivial ?_)
        simpa [parts] using ⟨ht, hbody⟩
    · refine (parsed_function ih _).bind fun c hc => .after fun _ => (ih around).bind
        fun body hbody => yields_pure (parsed_of_parts trivial ?_)
      simpa [parts] using ⟨hc, hbody⟩

lemma parsed_declaration : Yields declaration fun d => d.body.Parsed :=
  .after fun _ => .after fun _ => .after fun _ => .after fun count =>
    (parsed_type count _).bind fun _ hbody => yields_pure hbody

lemma parsed_declarations : Yields declarations fun ds => ∀ d ∈ ds, d.body.Parsed := by
  refine .after fun _ => yields_repeatWhile (by simp) fun ds hds => ?_
  refine Yields.bind parsed_declaration fun d (hd : d.body.Parsed) => .after fun ends => ?_
  have answer : Yields (do skipSeparators; return ds ++ [d]) fun ds => ∀ d ∈ ds, d.body.Parsed :=
    .after fun _ => yields_pure (by simpa [or_imp, forall_and] using ⟨hds, hd⟩)
  cases ends
  · exact .after fun _ => answer
  · exact answer

lemma parsed_wholeType : Yields wholeType Parsed := by
  refine .after fun _ => .after fun empty => ?_
  have rest : Yields (do
      let t ← Parser.type (← read) ⟨true, false⟩
      skipBreaks
      if !(← asks (frontIs .finish)) then refuse "end of input"
      return t) Parsed := by
    refine .after fun count => Yields.bind (parsed_type count _) fun t (ht : t.Parsed) =>
      .after fun _ => .after fun ends => ?_
    cases ends
    · exact .after fun _ => yields_pure ht
    · exact yields_pure ht
  cases empty
  · exact rest
  · exact .after fun _ => rest

end Parser

lemma yields_runParser {α : Type} {p : Parser α} {Post : α → Prop} (hp : p.Yields Post)
    {text : String} {a : α} (h : runParser p text = .ok a) : Post a := by
  obtain ⟨tokens, rest, -, h⟩ := runParser_eq_ok.1 h
  exact hp _ _ _ _ h

lemma parsed_of_parseType {text : String} {t : TypeExpr} (h : parseType text = .ok t) : t.Parsed :=
  yields_runParser Parser.parsed_wholeType h

lemma parsed_of_parse {text : String} {ds : List Declaration} (h : parse text = .ok ds) :
    ∀ d ∈ ds, d.body.Parsed :=
  yields_runParser Parser.parsed_declarations h

/-- A type that is read from a text may be resolved in every session. -/
lemma over_of_parseType {K : Nodes} {text : String} {t : TypeExpr} (h : parseType text = .ok t) :
    t.Over K :=
  (parsed_of_parseType h).over

/-- So may the bodies of the declarations of a source text. -/
lemma over_of_parse {K : Nodes} {text : String} {ds : List Declaration}
    (h : parse text = .ok ds) : ∀ d ∈ ds, d.body.Over K :=
  fun d hd => (parsed_of_parse h d hd).over

end TypeNotation
