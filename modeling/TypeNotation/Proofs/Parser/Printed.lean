import TypeNotation.Proofs.Parser.Phrases
import TypeNotation.Proofs.Token.Spelling

/-!
# Reading what is printed

*Elementary* types are those built of references, variables, nothing at all, integers and ranges of
them, lists, tuples and operators.  The text of an elementary type in a context of any binding level
is read as the same type.  For the text is spelled by a phrase of the level: a node is written
without parentheses only where the context binds no tighter than the node does, and in parentheses
everything is an atom.
-/

namespace TypeNotation

/-! ## Elementary types -/

/-- Integers and powers of integers, whose exponents are such numbers again. -/
inductive Numeral.Tower : Numeral → Prop
  | literal (p : Option Position) (i : Int) : Tower (.literal p (.int i))
  | power (p q : Option Position) (i : Int) {e : Numeral} (he : Tower e) :
    Tower (.power p (.literal q (.int i)) e)

namespace TypeExpr

/-- A type built of references, variables, the absent value, integers, ranges, lists without
repeated members, tuples, unions, complements and delegations to one target.  A variable as it is
written has no scope yet, and the name of a reference is not that of a variable. -/
inductive Elementary : TypeExpr → Prop
  | number {x : Numeral} (hx : x.Tower) : Elementary (.number x)
  | interval (m : Mark) {x y : Numeral} (hx : x.Tower) (hy : y.Tower) :
    Elementary (.interval m x y)
  | unit (m : Mark) : Elementary (.unit m)
  | typeVariable (m : Mark) {letter : String} (h : ScansAsName true letter) :
    Elementary (.typeVariable m ⟨letter, none⟩)
  | reference (m : Mark) {name : String} {args : List TypeExpr} (h : ScansAsName false name)
    (hargs : ∀ t ∈ args, Elementary t) : Elementary (.reference m name args)
  | tuple (m : Mark) {items : List TypeExpr} (h : ∀ t ∈ items, Elementary t) :
    Elementary (.tuple m items)
  | list (m : Mark) {members : List TypeExpr} (h : ∀ t ∈ members, Elementary t)
    (distinct : members.Pairwise fun t u => t.same u = false) : Elementary (.list m members)
  | union (m : Mark) {left right : TypeExpr} (hl : Elementary left) (hr : Elementary right) :
    Elementary (.union m left right)
  | complement (m : Mark) {left right : TypeExpr} (hl : Elementary left) (hr : Elementary right) :
    Elementary (.complement m left right)
  | delegation (m : Mark) {base target : TypeExpr} (hb : Elementary base)
    (ht : Elementary target) : Elementary (.delegation m base [target])

end TypeExpr

/-! ## Numbers -/

lemma spells_numeral {x : Numeral} (h : x.Tower) : Spells x.text.toList (NumberPhrase · x) := by
  induction h with
  | literal p i => exact .int i fun k hk => .literal hk p
  | @power p q i e he ih =>
    have text : (Numeral.power p (.literal q (.int i)) e).text.toList =
        (Number.intText i).toList ++ (Punctuation.caret.chars ++ e.text.toList) := by
      simp [Numeral.text, Number.numeral, Punctuation.chars]
    rw [text]
    have tail : Spells (Punctuation.caret.chars ++ e.text.toList)
        fun ts => ∃ c us, ts = c :: us ∧ c.kind = .mark .caret ∧ NumberPhrase us e :=
      ih.mark ⟨rfl, rfl⟩ (by simp) fun c us hc hus => ⟨c, us, rfl, hc, hus⟩
    refine .append rfl (.int i (P := fun ts => ∃ k, ts = [k] ∧ k.kind = .number (.int i))
      fun k hk => ⟨k, rfl, hk⟩) tail ?_
    rintro _ _ ⟨k, rfl, hk⟩ ⟨c, us, rfl, hc, hus⟩
    exact .power hk hc hus p q

namespace TypeExpr

/-! ## Parentheses -/

/-- What a type is spelled by: a phrase of its own level. -/
abbrev Legible (t : TypeExpr) : Prop :=
  Spells t.text.toList (Phrase t.level · t)

variable {t : TypeExpr}

lemma spells_parenthesized (h : Legible t) (ℓ : Level) :
    Spells ("(" ++ t.text ++ ")").toList (Phrase ℓ · t) := by
  have loosest : Level.predicate.strength ≤ t.level.strength := Nat.zero_le _
  have atom : ℓ.strength ≤ Level.atom.strength := by cases ℓ <;> decide
  have chars : ("(" ++ t.text ++ ")").toList =
      Punctuation.parenOpen.chars ++ (t.text.toList ++ Punctuation.parenClose.chars) := by
    simp [Punctuation.chars]
  rw [chars]
  exact h.enclosed rfl (by simp) fun k ts c hk hts hc =>
    .looser atom (.parentheses hk (.looser loosest hts) hc)

lemma spells_enclose (h : Legible t) (ℓ : Level) :
    Spells (t.enclose ℓ t.text).toList (Phrase ℓ · t) := by
  rw [enclose]
  split
  · exact spells_parenthesized h ℓ
  · next fits => exact h.imp fun ts hts => .looser (Nat.le_of_not_lt fits) hts

lemma spells_encloseItem (h : Legible t) (ℓ : Level) :
    Spells (t.encloseItem ℓ t.text).toList (Phrase ℓ · t) := by
  rw [encloseItem]
  split
  · exact spells_parenthesized h ℓ
  · exact spells_enclose h ℓ

/-! ## Sequences -/

lemma toList_juxtaposed (name : String) (texts : List String) :
    (" ".intercalate (name :: texts)).toList =
      name.toList ++ texts.flatMap fun s => ' ' :: s.toList := by
  induction texts generalizing name with
  | nil => simp
  | cons s texts ih =>
    rw [String.intercalate_cons_cons, String.toList_append, String.toList_append, ih]
    simp

lemma delimited_arguments (args : List TypeExpr) :
    Delimited ((argumentTexts .atom args).flatMap fun s => ' ' :: s.toList) := by
  cases args with
  | nil => simp [argumentTexts, Delimited]
  | cons t args => simp [argumentTexts, Delimited, isDelimiter, delimiters]

lemma spells_arguments {args : List TypeExpr} (h : ∀ t ∈ args, Legible t) :
    Spells ((argumentTexts .atom args).flatMap fun s => ' ' :: s.toList) (Arguments · args) := by
  induction args with
  | nil =>
    rw [argumentTexts]
    exact Spells.nil Arguments.nil
  | cons t args ih =>
    rw [List.forall_mem_cons] at h
    rw [argumentTexts, List.flatMap_cons]
    exact .append (delimited_arguments args) (spells_enclose h.1 .atom).blank (ih h.2)
      fun ts us => .cons

lemma spells_items {items : List TypeExpr} (h : ∀ t ∈ items, Legible t) :
    Spells (", ".intercalate (itemTexts .bar items)).toList (Items · items) := by
  induction items with
  | nil =>
    rw [itemTexts, String.intercalate_nil]
    exact Spells.nil Items.nil
  | cons t items ih =>
    rw [List.forall_mem_cons] at h
    have first : Spells (t.encloseItem .bar t.text).toList (Phrase .predicate · t) :=
      (spells_encloseItem h.1 .bar).imp fun ts => .looser (Nat.zero_le _)
    cases items with
    | nil =>
      rw [itemTexts, itemTexts, String.intercalate_singleton]
      exact first.imp fun ts => .last
    | cons u items =>
      have text : (", ".intercalate (itemTexts .bar (t :: u :: items))).toList =
          (t.encloseItem .bar t.text).toList ++ (Punctuation.comma.chars ++
            ' ' :: (", ".intercalate (itemTexts .bar (u :: items))).toList) := by
        rw [itemTexts, itemTexts, String.intercalate_cons_cons]
        simp [Punctuation.chars]
      rw [text]
      have tail := (ih h.2).blank.mark (p := .comma) (Q := fun ts => ∃ k us, ts = k :: us ∧
        k.kind = .mark .comma ∧ Items us (u :: items)) ⟨rfl, rfl⟩ (by simp)
        fun k us hk hus => ⟨k, us, rfl, hk, hus⟩
      refine .append rfl first tail ?_
      rintro ts _ hts ⟨k, us, rfl, hk, hus⟩
      exact .cons hts hk hus

/-! ## Nodes -/

lemma spells_operation {o : Operator} {cs ds : List Char} {left right : TypeExpr}
    (hl : Spells cs (Phrase o.level · left)) (hr : Spells ds (Phrase o.tighter · right))
    (m : Mark) :
    Spells (cs ++ ' ' :: (o.mark.chars ++ ' ' :: ds)) (Phrase o.level · (o.node m left right)) :=
  .between (by cases o <;> exact ⟨rfl, rfl⟩) hl hr fun _ _ _ hts hk hus =>
    .operation o hts hk hus m

lemma withoutRepeats_of_distinct {members : List TypeExpr}
    (h : members.Pairwise fun t u => t.same u = false) : withoutRepeats members = members := by
  have from_ (kept rest : List TypeExpr) (h : (kept ++ rest).Pairwise fun t u => t.same u = false) :
      rest.foldl keep kept = kept ++ rest := by
    induction rest generalizing kept with
    | nil => simp
    | cons t rest ih =>
      have new : keep kept t = kept ++ [t] := by
        rw [keep, if_neg]
        simp only [List.any_eq_true, not_exists, not_and, Bool.not_eq_true]
        intro u hu
        rw [same_comm]
        exact (List.pairwise_append.1 h).2.2 u hu t List.mem_cons_self
      rw [List.foldl_cons, new, ih _ (by simpa using h)]
      simp
  exact from_ [] members h

lemma Elementary.legible (h : t.Elementary) : Legible t := by
  induction h with
  | number hx =>
    rw [Legible, text]
    exact (spells_numeral hx).imp fun _ => .number
  | @interval m x y hx hy =>
    have chars : (TypeExpr.interval m x y).text.toList =
        x.text.toList ++ ' ' :: (Punctuation.ellipsis.chars ++ ' ' :: y.text.toList) := by
      simp [text, Punctuation.chars]
    rw [Legible, chars]
    exact .between ⟨rfl, rfl⟩ (spells_numeral hx) (spells_numeral hy) fun _ _ _ hts hk hus =>
      .interval hts hk hus m
  | unit m =>
    have begins : Lexeme.Begins 'v' := ⟨by decide, by decide, by decide⟩
    have void : Spells ['v', 'o', 'i', 'd'] (Phrase .atom · (.unit m)) :=
      .word begins (by decide) fun k hk _ => .unit hk m
    rw [Legible, text]
    exact void
  | @typeVariable m letter h =>
    rw [Legible, text]
    exact spells_name h fun k _ text hk => (show k.text = letter from text) ▸ .typeVariable hk m
  | @reference m name args hname _ ih =>
    rw [Legible, text, toList_juxtaposed]
    cases args with
    | nil =>
      rw [argumentTexts, List.flatMap_nil, List.append_nil]
      exact spells_name hname fun k hk text other => text ▸ .name hk other m
    | cons t args =>
      have first : Spells name.toList fun ts => ∃ k, ts = [k] ∧ k.kind = .name ∧ k.text = name ∧
          k.isVariable = false := spells_name hname fun k hk text other => ⟨k, rfl, hk, text, other⟩
      refine .append (delimited_arguments _) first (spells_arguments ih) ?_
      rintro _ us ⟨k, rfl, hk, text, other⟩ hus
      exact text ▸ .application hk other hus m
  | @tuple m items _ ih =>
    have chars : (TypeExpr.tuple m items).text.toList = Punctuation.tupleOpen.chars ++
        ((", ".intercalate (itemTexts .bar items)).toList ++ Punctuation.bracketClose.chars) := by
      simp [text, Punctuation.chars]
    rw [Legible, chars]
    exact (spells_items ih).enclosed rfl (by simp) fun _ _ _ hk hts hc => .tuple hk hts hc m
  | @list m members _ distinct ih =>
    have chars : (TypeExpr.list m members).text.toList = Punctuation.bracketOpen.chars ++
        ((", ".intercalate (itemTexts .bar members)).toList ++ Punctuation.bracketClose.chars) := by
      simp [text, Punctuation.chars]
    have whole : listOf m members = .list m members := by
      rw [listOf, withoutRepeats_of_distinct distinct]
    rw [Legible, chars, ← whole]
    exact (spells_items ih).enclosed rfl (by simp) fun _ _ _ hk hts hc => .list hk hts hc m
  | @union m left right _ _ ihl ihr =>
    have chars : (TypeExpr.union m left right).text.toList =
        (left.enclose .union left.text).toList ++ ' ' :: (Operator.union.mark.chars ++
          ' ' :: (right.enclose .complement right.text).toList) := by
      simp [text, Operator.mark, Punctuation.chars]
    rw [Legible, chars]
    exact spells_operation (o := .union) (spells_enclose ihl _) (spells_enclose ihr _) m
  | @complement m left right _ _ ihl ihr =>
    have chars : (TypeExpr.complement m left right).text.toList =
        (left.enclose .complement left.text).toList ++ ' ' :: (Operator.complement.mark.chars ++
          ' ' :: (right.enclose .delegation right.text).toList) := by
      simp [text, Operator.mark, Punctuation.chars]
    rw [Legible, chars]
    exact spells_operation (o := .complement) (spells_enclose ihl _) (spells_enclose ihr _) m
  | @delegation m base target _ _ ihb iht =>
    have chars : (TypeExpr.delegation m base [target]).text.toList =
        (base.enclose .application base.text).toList ++ ' ' :: (Operator.delegation.mark.chars ++
          ' ' :: (target.enclose .application target.text).toList) := by
      simp [text, argumentTexts, Operator.mark, Punctuation.chars]
    rw [Legible, chars]
    have left : Spells (base.enclose .application base.text).toList (Phrase .delegation · base) :=
      (spells_enclose ihb .application).imp fun _ => .looser (by decide)
    exact spells_operation (o := .delegation) left (spells_enclose iht _) m

end TypeExpr

/-! ## Reading it back -/

/-- The text of an elementary type in a context of any level is read, and as the same type. -/
theorem parseType_textAt {t : TypeExpr} (h : t.Elementary) (ℓ : Level) :
    ∃ u, parseType (t.textAt ℓ) = .ok u ∧ u.same t = true := by
  obtain ⟨ts, fin, scanned, hfin, phrase⟩ :=
    tokenize_of_spells (TypeExpr.spells_enclose h.legible ℓ)
  exact parseType_of_phrase scanned hfin phrase

/-- A reference with arguments that could run into each other, in a union with a delegation. -/
def intricate : TypeExpr :=
  let m := Mark.written none
  let number (i : Int) : Numeral := .literal none (.int i)
  .union m
    (.reference m "grid" [.number (number (-2)),
      .interval m (number 1) (.power none (number 2) (number 5)),
      .complement m (.typeVariable m ⟨"A", none⟩) (.unit m)])
    (.delegation m (.reference m "map" [])
      [.list m [.delegation m (.typeVariable m ⟨"A", none⟩) [.reference m "map" []], .tuple m []]])

lemma elementary_intricate : intricate.Elementary := by
  have name : ScansAsName false "grid" ∧ ScansAsName false "map" ∧ ScansAsName true "A" :=
    ⟨⟨_, _, rfl, rfl, rfl, rfl⟩, ⟨_, _, rfl, rfl, rfl, rfl⟩, ⟨_, _, rfl, rfl, rfl, rfl⟩⟩
  have variable_ := TypeExpr.Elementary.typeVariable (.written none) name.2.2
  have map : (TypeExpr.reference (.written none) "map" []).Elementary :=
    .reference _ name.2.1 (by simp)
  refine .union _ (.reference _ name.1 ?_)
    (.delegation _ map (.list _ ?_ (by simp [TypeExpr.same])))
  · simp only [List.forall_mem_cons]
    exact ⟨.number (.literal _ _), .interval _ (.literal _ _) (.power _ _ _ (.literal _ _)),
      .complement _ variable_ (.unit _), by simp⟩
  · simp only [List.forall_mem_cons]
    exact ⟨.delegation _ variable_ map, .tuple _ (by simp), by simp⟩

lemma text_intricate :
    intricate.textAt .atom = "(grid -2 1 ... 2^5 (A \\ void) + map <| [(A <| map), #[]])" := by
  cbv

theorem parseType_intricate :
    ∃ u, parseType "(grid -2 1 ... 2^5 (A \\ void) + map <| [(A <| map), #[]])" = .ok u ∧
      u.same intricate = true := by
  rw [← text_intricate]
  exact parseType_textAt elementary_intricate .atom

end TypeNotation
