import Mathlib.Tactic.Lemma
import TypeNotation.Proofs.Value.Components

/-!
# Definite values

Two types that are different structures are taken to share no value.  But one value may be seen as
several kinds of value: a constructed value is also an object with attributes, and so is a call.  A
value is *definite* if it is seen as one kind of value only by the types in question.  Which values
that excludes depends on these types, so three kinds of values are admitted on conditions: objects
that are not open to inspection, values that are constructed or applied, and calls.

Values built from data are the definite values without objects, calls and callables.

A value is *ordinary* if it does not consist of types; those that find attributes in a class are
ordinary on a condition.
-/

namespace TypeNotation

/-- A value that is seen as one kind of value only. -/
inductive Value.Definite (slotted constructed calls : Prop) : Value → Prop
  | absent : Definite slotted constructed calls .absent
  | bool (b : Bool) : Definite slotted constructed calls (.bool b)
  | number (x : Number) : Definite slotted constructed calls (.number x)
  | text (s : String) : Definite slotted constructed calls (.text s)
  | bytes (s : String) : Definite slotted constructed calls (.bytes s)
  | list {items : List Value} (h : ∀ v ∈ items, Definite slotted constructed calls v) :
    Definite slotted constructed calls (.list items)
  | tuple {items : List Value} (h : ∀ v ∈ items, Definite slotted constructed calls v) :
    Definite slotted constructed calls (.tuple items)
  | mapping {entries : List (Field Value)}
    (h : ∀ f ∈ entries, Definite slotted constructed calls f.type) :
    Definite slotted constructed calls (.mapping entries)
  | object {attributes : List (Field Value)} {inspectable : Bool}
    (hs : inspectable = false → slotted)
    (h : ∀ f ∈ attributes, Definite slotted constructed calls f.type) :
    Definite slotted constructed calls (.object attributes inspectable)
  | tagged {tag : String} {fields : List Value} (hc : constructed)
    (h : ∀ v ∈ fields, Definite slotted constructed calls v) :
    Definite slotted constructed calls (.tagged tag fields)
  | callable {slots : Option (List Slot)} (hc : constructed) :
    Definite slotted constructed calls (.callable slots)
  | call {arguments : List Value} (hc : constructed) (hcalls : calls)
    (h : ∀ v ∈ arguments, Definite slotted constructed calls v) :
    Definite slotted constructed calls (.call arguments)

/-- Values that are built from data alone.  Constructed values are data on a condition. -/
inductive Value.Data (constructed : Prop) : Value → Prop
  | absent : Data constructed .absent
  | bool (b : Bool) : Data constructed (.bool b)
  | number (x : Number) : Data constructed (.number x)
  | text (s : String) : Data constructed (.text s)
  | list {items : List Value} (h : ∀ v ∈ items, Data constructed v) : Data constructed (.list items)
  | tuple {items : List Value} (h : ∀ v ∈ items, Data constructed v) :
    Data constructed (.tuple items)
  | mapping {entries : List (Field Value)} (h : ∀ f ∈ entries, Data constructed f.type) :
    Data constructed (.mapping entries)
  | tagged {tag : String} {fields : List Value} (hc : constructed)
    (h : ∀ v ∈ fields, Data constructed v) : Data constructed (.tagged tag fields)

namespace Value

variable {slotted constructed calls : Prop} {v w : Value}

/-- Data are definite, whatever is said of objects and calls. -/
lemma Data.definite (hv : v.Data constructed) : v.Definite slotted constructed calls := by
  induction hv with
  | absent => exact .absent
  | bool b => exact .bool b
  | number x => exact .number x
  | text s => exact .text s
  | list _ ih => exact .list ih
  | tuple _ ih => exact .tuple ih
  | mapping _ ih => exact .mapping ih
  | tagged hc _ ih => exact .tagged hc ih

/-- What a definite value is taken apart into is definite. -/
lemma Definite.component (hv : v.Definite slotted constructed calls) (hw : w ∈ v.components) :
    w.Definite slotted constructed calls := by
  cases hv with
  | list h | tuple h =>
    simp only [components, asSequence?, asTagged?, attributes?, Option.getD_some, Option.map_none,
      Option.getD_none, List.map_nil, List.append_nil] at hw
    exact h w hw
  | mapping h | object hs h =>
    simp only [components, asSequence?, asTagged?, attributes?, Option.getD_some, Option.map_none,
      Option.getD_none, List.map_nil, List.append_nil, List.nil_append, List.mem_map] at hw
    obtain ⟨f, hf, rfl⟩ := hw
    exact h f hf
  | @tagged tag fields hc h =>
    simp only [components, asSequence?, asTagged?, attributes?, Option.map_some, Option.getD_none,
      Option.getD_some, List.nil_append, List.append_nil, List.map_cons, List.map_nil,
      List.mem_append, List.mem_cons, List.not_mem_nil, or_false] at hw
    rcases hw with hw | rfl | rfl
    · exact h w hw
    · exact .text tag
    · exact .tuple h
  | @call arguments hc hcalls h =>
    simp only [components, asSequence?, asTagged?, attributes?, Option.map_none, Option.getD_none,
      Option.getD_some, List.nil_append, List.map_cons, List.map_nil, List.mem_append,
      List.mem_cons, List.not_mem_nil, or_false] at hw
    rcases hw with rfl | hw
    · exact .tuple h
    · exact h w hw
  | _ => simp [components, asSequence?, asTagged?, attributes?] at hw

lemma Definite.mono {slotted' constructed' calls' : Prop} (hs : slotted → slotted')
    (hc : constructed → constructed') (hcalls : calls → calls')
    (hv : v.Definite slotted constructed calls) : v.Definite slotted' constructed' calls' := by
  induction hv with
  | absent => exact .absent
  | bool b => exact .bool b
  | number x => exact .number x
  | text s => exact .text s
  | bytes s => exact .bytes s
  | list _ ih => exact .list ih
  | tuple _ ih => exact .tuple ih
  | mapping _ ih => exact .mapping ih
  | object slots _ ih => exact .object (fun hidden => hs (slots hidden)) ih
  | tagged made _ ih => exact .tagged (hc made) ih
  | callable made => exact .callable (hc made)
  | call made applied _ ih => exact .call (hc made) (hcalls applied) ih

/-! ## Ordinary values -/

/-- A value without types among its parts.  Constructed values, calls and callables, which find
attributes in their classes, are admitted on a condition. -/
def Ordinary (classed : Prop) (v : Value) : Prop :=
  v.Definite True classed True

variable {classed : Prop} {name : String}

lemma Ordinary.component (hv : v.Ordinary classed) (hw : w ∈ v.components) :
    w.Ordinary classed :=
  Definite.component hv hw

lemma Definite.ordinary (hv : v.Definite slotted constructed calls) : v.Ordinary constructed :=
  hv.mono (fun _ => trivial) id fun _ => trivial

/-- An ordinary value finds nothing in a class, if only plain names are looked up where it has a
class. -/
lemma Ordinary.find?_inherited (hv : v.Ordinary classed)
    (plain : classed → isPlain name = true) : Field.find? v.inherited name = none := by
  cases hv with
  | tagged hc | callable hc | call hc => exact find?_inherited_of_isPlain _ (plain hc)
  | _ => rfl

end Value

end TypeNotation
