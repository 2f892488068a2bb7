import Mathlib.Tactic.Lemma
import TypeNotation.Relation.Membership

/-!
# Components of values

Matching descends into a value in several ways, since one value may be seen as several kinds of
value: a constructed value is taken apart by its fields, and as an object it has an attribute that
holds them all.  Whatever a value is taken apart into is lighter than the value.

What an object finds in its class is not a part of it, and is no lighter: the class of a class is a
class again.  So matching is a descent only where no record type asks for what is found there.  The
names of such attributes all begin with two underscores.
-/

namespace TypeNotation

namespace Value

/-- The values that matching may descend into. -/
def components (v : Value) : List Value :=
  (v.asSequence?.getD []) ++ ((v.asTagged?.map (·.2)).getD []) ++
    ((v.attributes?.getD []).map (·.type)) ++
    match v with
    | mapping entries => entries.map (·.type)
    | call arguments => arguments
    | _ => []

/-- The weight of a value.  A call weighs more than the sequence of its arguments. -/
noncomputable def weight (v : Value) : Nat :=
  2 * sizeOf v + match v with
    | call _ => 1
    | _ => 0

lemma weight_lt_of_sizeOf_lt {v w : Value} (h : sizeOf w < sizeOf v) : w.weight < v.weight := by
  have hw : w.weight ≤ 2 * sizeOf w + 1 := by
    unfold weight
    split <;> omega
  have hv : 2 * sizeOf v ≤ v.weight := by
    unfold weight
    omega
  omega

lemma sizeOf_type_lt_of_mem {f : Field Value} {fs : List (Field Value)} (h : f ∈ fs) :
    sizeOf f.type < sizeOf fs := by
  have := List.sizeOf_lt_of_mem h
  cases f
  simp at this ⊢
  omega

/-- The components of a value are lighter. -/
lemma weight_lt_of_mem_components {v w : Value} (h : w ∈ v.components) : w.weight < v.weight := by
  cases v with
  | list items | tuple items =>
    simp only [components, asSequence?, asTagged?, attributes?, Option.getD_some, Option.map_none,
      Option.getD_none, List.map_nil, List.append_nil] at h
    have := List.sizeOf_lt_of_mem h
    refine weight_lt_of_sizeOf_lt ?_
    simp
    omega
  | mapping entries =>
    simp only [components, asSequence?, asTagged?, attributes?, Option.map_none, Option.getD_none,
      List.map_nil, List.nil_append, List.mem_map] at h
    obtain ⟨f, hf, rfl⟩ := h
    have := sizeOf_type_lt_of_mem hf
    refine weight_lt_of_sizeOf_lt ?_
    simp
    omega
  | object attributes inspectable =>
    simp only [components, asSequence?, asTagged?, attributes?, Option.map_none, Option.getD_none,
      Option.getD_some, List.nil_append, List.append_nil, List.mem_map] at h
    obtain ⟨f, hf, rfl⟩ := h
    have := sizeOf_type_lt_of_mem hf
    refine weight_lt_of_sizeOf_lt ?_
    simp
    omega
  | tagged tag fields =>
    simp only [components, asSequence?, asTagged?, attributes?, Option.map_some, Option.getD_none,
      Option.getD_some, List.nil_append, List.append_nil, List.map_cons, List.map_nil,
      List.mem_append, List.mem_cons, List.not_mem_nil, or_false] at h
    refine weight_lt_of_sizeOf_lt ?_
    rcases h with h | rfl | rfl
    · have := List.sizeOf_lt_of_mem h
      simp
      omega
    · cases fields <;> simp +arith
    · have : 0 < sizeOf tag := by cases tag; simp +arith
      simp
      omega
  | call arguments =>
    simp only [components, asSequence?, asTagged?, attributes?, Option.map_none, Option.getD_none,
      Option.getD_some, List.nil_append, List.map_cons, List.map_nil, List.mem_append,
      List.mem_cons, List.not_mem_nil, or_false] at h
    rcases h with rfl | h
    · simp [weight]
    · have := List.sizeOf_lt_of_mem h
      refine weight_lt_of_sizeOf_lt ?_
      simp
      omega
  | _ => simp [components, asSequence?, asTagged?, attributes?] at h

variable {v w : Value} {entries : List (Field Value)} {name : String}

lemma mem_components_of_sequence {vs : List Value} (h : v.asSequence? = some vs) (hw : w ∈ vs) :
    w ∈ v.components := by
  simp [components, h, hw]

lemma mem_components_of_tagged {tag : String} {vs : List Value} (h : v.asTagged? = some (tag, vs))
    (hw : w ∈ vs) : w ∈ v.components := by
  simp [components, h, hw]

/-! ## Keyed values -/

/-- What a keyed value has under its keys: the entries of a mapping, or attributes. -/
def entries? : Value → Option (List (Field Value))
  | mapping entries => some entries
  | v => v.attributes?.map (· ++ v.inherited)

/-- The names that stand against those of a closed record type, unless they cannot be listed. -/
def listed? (v : Value) : Option (List String) :=
  match v with
  | mapping entries => some (Field.names entries)
  | _ => if v.isInspectable then v.attributes?.map publicNames else none

lemma mapping_or_attributes (h : v.entries? = some entries) :
    v = .mapping entries ∨ ∃ own, v.attributes? = some own ∧ entries = own ++ v.inherited := by
  cases v with
  | mapping own => exact .inl (by simpa [entries?] using h)
  | _ =>
    simp only [entries?, Option.map_eq_some_iff] at h
    obtain ⟨own, hown, rfl⟩ := h
    exact .inr ⟨own, hown, rfl⟩

/-- What a keyed value has under a key is a component of it, unless it is found in a class. -/
lemma mem_components_of_entry (h : v.entries? = some entries)
    (own : Field.find? v.inherited name = none) (hw : Field.find? entries name = some w) :
    w ∈ v.components := by
  simp only [Field.find?, Option.map_eq_some_iff, Option.map_eq_none_iff] at hw own
  obtain ⟨f, hf, rfl⟩ := hw
  rcases mapping_or_attributes h with rfl | ⟨attributes, hattr, rfl⟩
  · exact List.mem_append_right _ (List.mem_map_of_mem (List.mem_of_find?_eq_some hf))
  · rw [List.find?_append, own, Option.or_none] at hf
    simp only [components, hattr, List.mem_append]
    exact .inl (.inr (List.mem_map_of_mem (List.mem_of_find?_eq_some hf)))

/-! ## Plain names -/

/-- Whether a name does not begin with two underscores, so that it is found in no class. -/
def isPlain (name : String) : Bool :=
  name.toList.take 2 != ['_', '_']

lemma find?_inherited_of_isPlain (v : Value) (h : isPlain name = true) :
    Field.find? v.inherited name = none := by
  have other : "__class__" ≠ name := by
    rintro rfl
    exact absurd h (by decide)
  cases v <;> simp [inherited, Field.find?, other]

end Value

end TypeNotation
