import Mathlib.Tactic.Lemma
import TypeNotation.TypeExpr.Subterms

/-!
# Immediate parts

The subterms of an expression are the expression and the subterms of its immediate parts.  What
holds throughout an expression is therefore stated once, over the parts, and not constructor by
constructor; induction over the parts replaces the mutual induction over the kinds of lists that a
node may hold.
-/

namespace TypeNotation

namespace TypeExpr

/-- The immediate parts of an expression.  What is on the heap is not a part. -/
def parts : TypeExpr → List TypeExpr
  | number (.literal ..) => []
  | number (.power _ base exponent) => [number base, number exponent]
  | interval _ low high => [number low, number high]
  | unit _ | primitive .. | typeVariable .. | deferred .. => []
  | tuple _ items => items
  | list _ members => members
  | record _ fields => fields.map (·.type)
  | function _ inputs outputs => inputs.map (·.type) ++ outputs
  | delegation _ base targets => base :: targets
  | predicate _ constraint body _ => [constraint, body]
  | tagged _ tags => tags.flatMap (·.fields)
  | union _ left right => [left, right]
  | complement _ left right => [left, right]
  | reference _ _ args => args
  | named _ _ args => args

/-! ## Subterms -/

lemma subtermsOfAll_eq (ts : List TypeExpr) : subtermsOfAll ts = ts.flatMap subterms := by
  induction ts with
  | nil => rfl
  | cons t ts ih => simp [subtermsOfAll, ih]

lemma subtermsOfFields_eq (fs : List (Field TypeExpr)) :
    subtermsOfFields fs = (fs.map (·.type)).flatMap subterms := by
  induction fs with
  | nil => rfl
  | cons f fs ih => simp [subtermsOfFields, ih]

lemma subtermsOfInputs_eq (ps : List (Parameter TypeExpr)) :
    subtermsOfInputs ps = (ps.map (·.type)).flatMap subterms := by
  induction ps with
  | nil => rfl
  | cons p ps ih => simp [subtermsOfInputs, ih]

lemma subtermsOfTags_eq (gs : List (Tag TypeExpr)) :
    subtermsOfTags gs = (gs.flatMap (·.fields)).flatMap subterms := by
  induction gs with
  | nil => rfl
  | cons g gs ih => simp [subtermsOfTags, subtermsOfAll_eq, ih]

/-- An expression comes before the subterms of its parts. -/
lemma subterms_eq (t : TypeExpr) : t.subterms = t :: t.parts.flatMap subterms := by
  cases t with
  | number x => cases x <;> simp [subterms, parts, Numeral.subnumerals]
  | _ =>
    simp [subterms, parts, subtermsOfAll_eq, subtermsOfFields_eq, subtermsOfInputs_eq,
      subtermsOfTags_eq]

lemma mem_subterms_self (t : TypeExpr) : t ∈ t.subterms := by
  simp [subterms_eq t]

/-! ## Induction -/

lemma sizeOf_numeral_pos (x : Numeral) : 0 < sizeOf x := by
  cases x with
  | literal => rw [Numeral.literal.sizeOf_spec]; omega
  | power => rw [Numeral.power.sizeOf_spec]; omega

lemma sizeOf_type_lt_of_mem_fields {f : Field TypeExpr} {fs : List (Field TypeExpr)}
    (h : f ∈ fs) : sizeOf f.type < sizeOf fs := by
  have := List.sizeOf_lt_of_mem h
  cases f
  simp at this ⊢
  omega

lemma sizeOf_type_lt_of_mem_inputs {p : Parameter TypeExpr} {ps : List (Parameter TypeExpr)}
    (h : p ∈ ps) : sizeOf p.type < sizeOf ps := by
  have := List.sizeOf_lt_of_mem h
  cases p
  simp at this ⊢
  omega

lemma sizeOf_fields_lt_of_mem_tags {g : Tag TypeExpr} {gs : List (Tag TypeExpr)}
    (h : g ∈ gs) : sizeOf g.fields < sizeOf gs := by
  have := List.sizeOf_lt_of_mem h
  cases g
  simp at this ⊢
  omega

/-- The parts of an expression are smaller. -/
lemma sizeOf_lt_of_mem_parts {t u : TypeExpr} (h : u ∈ t.parts) : sizeOf u < sizeOf t := by
  cases t with
  | number x =>
    cases x with
    | literal => simp [parts] at h
    | power p b e =>
      simp only [parts, List.mem_cons, List.not_mem_nil, or_false] at h
      rcases h with rfl | rfl
      all_goals
        simp only [number.sizeOf_spec, Numeral.power.sizeOf_spec]
        omega
  | interval m l g =>
    -- a number is larger than its numeral, so the other end must take up some room
    have := sizeOf_numeral_pos l
    have := sizeOf_numeral_pos g
    simp only [parts, List.mem_cons, List.not_mem_nil, or_false] at h
    rcases h with rfl | rfl
    all_goals
      simp
      omega
  | unit | primitive | typeVariable | deferred => simp [parts] at h
  | tuple m ts | list m ts | reference m name ts | named m name ts =>
    simp only [parts] at h
    have := List.sizeOf_lt_of_mem h
    simp
    omega
  | record m fs =>
    simp only [parts, List.mem_map] at h
    obtain ⟨f, hf, rfl⟩ := h
    have := sizeOf_type_lt_of_mem_fields hf
    simp
    omega
  | function m ps ts =>
    simp only [parts, List.mem_append, List.mem_map] at h
    rcases h with ⟨p, hp, rfl⟩ | h
    · have := sizeOf_type_lt_of_mem_inputs hp
      simp
      omega
    · have := List.sizeOf_lt_of_mem h
      simp
      omega
  | delegation m b ts =>
    simp only [parts, List.mem_cons] at h
    rcases h with rfl | h
    · simp
      omega
    · have := List.sizeOf_lt_of_mem h
      simp
      omega
  | tagged m gs =>
    simp only [parts, List.mem_flatMap] at h
    obtain ⟨g, hg, h⟩ := h
    have := List.sizeOf_lt_of_mem h
    have := sizeOf_fields_lt_of_mem_tags hg
    simp
    omega
  | predicate m c b _ | union m c b | complement m c b =>
    simp only [parts, List.mem_cons, List.not_mem_nil, or_false] at h
    rcases h with rfl | rfl <;> simp <;> omega

/-- Induction over the parts of an expression. -/
@[elab_as_elim]
lemma parts_induction {P : TypeExpr → Prop} (step : ∀ t, (∀ u ∈ t.parts, P u) → P t)
    (t : TypeExpr) : P t :=
  step t fun u _hu => parts_induction step u
termination_by sizeOf t
decreasing_by exact sizeOf_lt_of_mem_parts _hu

/-! ## What holds throughout an expression -/

/-- A property of all subterms of an expression. -/
def Throughout (P : TypeExpr → Prop) (t : TypeExpr) : Prop :=
  ∀ u ∈ t.subterms, P u

variable {P Q : TypeExpr → Prop}

lemma throughout_iff {t : TypeExpr} :
    t.Throughout P ↔ P t ∧ ∀ u ∈ t.parts, u.Throughout P := by
  unfold Throughout
  rw [subterms_eq t]
  simp only [List.mem_cons, List.mem_flatMap, forall_eq_or_imp]
  exact and_congr_right fun _ =>
    ⟨fun h u hu n hn => h n ⟨u, hu, hn⟩, fun h n ⟨u, hu, hn⟩ => h u hu n hn⟩

namespace Throughout

lemma self {t : TypeExpr} (h : t.Throughout P) : P t :=
  h t (mem_subterms_self t)

lemma part {t u : TypeExpr} (h : t.Throughout P) (hu : u ∈ t.parts) : u.Throughout P :=
  (throughout_iff.1 h).2 u hu

lemma mono {t : TypeExpr} (h : t.Throughout P) (hPQ : ∀ u, P u → Q u) : t.Throughout Q :=
  fun u hu => hPQ u (h u hu)

lemma and {t : TypeExpr} (hP : t.Throughout P) (hQ : t.Throughout Q) :
    t.Throughout fun u => P u ∧ Q u :=
  fun u hu => ⟨hP u hu, hQ u hu⟩

lemma subterm {t u : TypeExpr} (h : t.Throughout P) (hu : u ∈ t.subterms) : u.Throughout P := by
  induction t using parts_induction with
  | step t ih =>
    rw [subterms_eq t, List.mem_cons, List.mem_flatMap] at hu
    rcases hu with rfl | ⟨v, hv, huv⟩
    · exact h
    · exact ih v hv (h.part hv) huv

end Throughout

end TypeExpr

end TypeNotation
