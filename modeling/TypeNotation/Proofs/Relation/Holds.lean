import TypeNotation.Proofs.Relation.Answers
import TypeNotation.Proofs.Relation.Concrete
import TypeNotation.Proofs.Value.Definite

/-!
# What a concrete type holds

Without bounds on variables, whether a value inhabits a concrete type is always answered in the end,
and the answer depends on the parts of the type and of the value only: `Holds` satisfies one
equivalence for each kind of type.  An answer that is given at some depth is the answer.
-/

namespace TypeNotation

open TypeExpr Query

/-- Two lists of fields with the same names. -/
lemma Field.sameNames_iff {α β : Type} {fs : List (Field α)} {gs : List (Field β)} :
    Field.sameNames fs gs = true ↔ ∀ name, name ∈ Field.names fs ↔ name ∈ Field.names gs := by
  simp only [sameNames, names, Bool.and_eq_true, List.all_eq_true, List.any_eq_true,
    decide_eq_true_eq, List.mem_map]
  constructor
  · rintro ⟨hleft, hright⟩ name
    constructor
    · rintro ⟨f, hf, rfl⟩
      exact hleft f hf
    · rintro ⟨g, hg, rfl⟩
      exact hright g hg
  · intro h
    exact ⟨fun f hf => (h f.name).1 ⟨f, hf, rfl⟩, fun g hg => (h g.name).2 ⟨g, hg, rfl⟩⟩

/-! ## More depth keeps an answer -/

namespace Matcher

section Kept

variable {holds holds' : Value → TypeExpr → Query Bool}
    (hkept : ∀ v t, (holds v t).Kept (holds' v t))
include hkept

lemma kept_holdsFields (entries : List (Field Value)) (fields : List (Field TypeExpr)) :
    (holdsFields holds entries fields).Kept (holdsFields holds' entries fields) := by
  refine .allM fun f _ => ?_
  cases Field.find? entries f.name with
  | none => exact .refl _
  | some v => exact hkept v f.type

lemma kept_holdsRecord (m : Matcher) (v : Value) (fields : List (Field TypeExpr)) :
    (m.holdsRecord holds v fields).Kept (m.holdsRecord holds' v fields) := by
  have attributes (attributes : List (Field Value)) (c : Bool) :
      (if c then .ok false else holdsFields holds attributes fields : Query Bool).Kept
        (if c then .ok false else holdsFields holds' attributes fields) := by
    cases c
    · exact kept_holdsFields hkept attributes fields
    · exact .refl _
  cases v with
  | mapping | object | tagged | call | callable | type => exact attributes _ _
  | _ => exact .refl _

lemma kept_holdsFunction (v : Value) (inputs : List (Parameter TypeExpr)) :
    (holdsFunction holds v inputs).Kept (holdsFunction holds' v inputs) := by
  cases v with
  | call arguments =>
    simp only [holdsFunction]
    split
    · refine .allM fun x _ => ?_
      cases Parameter.receiving? inputs x.2 with
      | none => exact .refl _
      | some p => exact hkept x.1 p.type
    · exact .refl _
  | callable slots => cases slots <;> exact .refl _
  | _ => exact .refl _

lemma kept_holdsTagged (v : Value) (tags : List (Tag TypeExpr)) :
    (holdsTagged holds v tags).Kept (holdsTagged holds' v tags) := by
  simp only [holdsTagged]
  cases v.asTagged? with
  | none => exact .refl _
  | some tagged =>
    obtain ⟨tag, fields⟩ := tagged
    dsimp only
    cases Tag.find? tags tag with
    | none => exact .refl _
    | some g =>
      dsimp only
      split
      · exact .allM fun p _ => hkept p.1 p.2
      · exact .refl _

end Kept

/-- Membership keeps an answer when more depth is allowed. -/
lemma kept_contains (m : Matcher) (depth : Nat) (v : Value) (t : TypeExpr) (bounds : Bounds) :
    (m.contains depth v t bounds).Kept (m.contains (depth + 1) v t bounds) := by
  induction depth generalizing v t bounds with
  | zero => exact fun _ h => by cases h
  | succ depth ih =>
    have hkept := fun v t => ih v t bounds
    unfold contains
    cases t with
    | named m' name args => exact (Kept.refl _).bind fun u => hkept v u
    | deferred m' target bindings => exact (Kept.refl _).bind fun u => hkept v u
    | tuple m' items =>
      dsimp only
      cases v.asSequence? with
      | none => exact .refl _
      | some vs =>
        dsimp only
        split
        · exact .allM fun p _ => hkept p.1 p.2
        · exact .refl _
    | list m' members =>
      dsimp only
      cases v.asSequence? with
      | none => exact .refl _
      | some vs => exact .allM fun w _ => .anyM fun t _ => hkept w t
    | record m' fields => exact kept_holdsRecord hkept m v fields
    | function m' inputs outputs => exact kept_holdsFunction hkept v inputs
    | tagged m' tags => exact kept_holdsTagged hkept v tags
    | union m' left right => exact (hkept v left).ite (.refl _) (hkept v right)
    | complement m' left right =>
      exact (hkept v left).ite ((hkept v right).bind fun _ => .refl _) (.refl _)
    | delegation m' base targets => exact hkept v base
    | predicate m' constraint body listed => exact ih v body _
    | typeVariable m' x =>
      dsimp only
      cases bounds.find? x with
      | none => exact .refl _
      | some bound => exact ih v bound _
    | _ => exact .refl _

/-! ## What types hold -/

/-- In the end the answer is that the value inhabits the type. -/
def Holds (m : Matcher) (v : Value) (t : TypeExpr) : Prop :=
  Answers (fun depth => m.contains depth v t []) true

variable {m : Matcher} {v : Value} {mk : Mark}

lemma holds_of_contains {depth : Nat} {t : TypeExpr}
    (h : m.contains depth v t [] = .ok true) : m.Holds v t :=
  answers_of_kept (fun depth => kept_contains m depth v t []) h

lemma holds_number {p : Option Position} {y : Number} :
    m.Holds v (.number (.literal p y)) ↔ ∃ x, v = .number x ∧ x.same y = true := by
  rw [Holds, ← answers_succ, ← holdsNumeral_eq_true (p := p)]
  exact answers_const

lemma holds_interval {p q : Option Position} {low high : Number} :
    m.Holds v (.interval mk (.literal p low) (.literal q high)) ↔
      ∃ x, v = .number x ∧ Number.Between low high x := by
  rw [Holds, ← answers_succ, ← holdsInterval_eq_true (p := p) (q := q)]
  exact answers_const

lemma holds_unit : m.Holds v (.unit mk) ↔ v = .absent := by
  rw [Holds, ← answers_succ]
  refine answers_const.trans ?_
  cases v <;> simp

lemma holds_primitive {name : String} :
    m.Holds v (.primitive mk name) ↔ (∃ s, v = .text s) ∨ name = "any" := by
  rw [Holds, ← answers_succ]
  refine answers_const.trans ?_
  cases v <;> simp

lemma holds_delegation {base : TypeExpr} {targets : List TypeExpr} :
    m.Holds v (.delegation mk base targets) ↔ m.Holds v base := by
  rw [Holds, ← answers_succ]
  rfl

lemma holds_named {name : String} {args : List TypeExpr} :
    m.Holds v (.named mk name args) ↔ m.Holds v (m.heap.unfold (.named mk name args)) := by
  rw [Holds, ← answers_succ]
  rfl

lemma holds_unfold {t : TypeExpr} : m.Holds v (m.heap.unfold t) ↔ m.Holds v t := by
  cases t with
  | named => exact holds_named.symm
  | _ =>
    rw [Heap.unfold_of_settles]
    trivial

/-- A callable that accepts every number of arguments that a function type does. -/
lemma holds_callable {slots : Option (List Slot)} {inputs : List (Parameter TypeExpr)}
    {outputs : List TypeExpr} :
    m.Holds (.callable slots) (.function mk inputs outputs) ↔
      ∃ known, slots = some known ∧
        acceptsCounts known (Parameter.least inputs) (Parameter.greatest? inputs) = true := by
  rw [Holds, ← answers_succ]
  cases slots with
  | none => exact answers_const.trans (by simp)
  | some known => exact answers_const.trans (by simp)

/-- Whatever inhabits a function type is a call or a callable. -/
lemma call_or_callable_of_holds {inputs : List (Parameter TypeExpr)} {outputs : List TypeExpr}
    (h : m.Holds v (.function mk inputs outputs)) :
    (∃ arguments, v = .call arguments) ∨ ∃ slots, v = .callable slots := by
  rw [Holds, ← answers_succ] at h
  cases v with
  | call arguments => exact .inl ⟨arguments, rfl⟩
  | callable slots => exact .inr ⟨slots, rfl⟩
  | _ => exact absurd (answers_const.1 h) (by simp)

/-! ## Types that are taken apart with the value -/

section Concrete

variable {K : TypeExpr → Prop} {classed : Prop} (concrete : m.heap.Concrete K classed)
  (hv : v.Ordinary classed)
include concrete hv

lemma terminates_of_concrete {t : TypeExpr} (ht : K t) :
    Terminates Halt.Never fun depth => m.contains depth v t [] :=
  terminates_contains concrete.toFirm concrete.ends m.openRecords hv t [] ht Bounds.all_nil

lemma terminates_of_part {t u : TypeExpr} (ht : K t) (href : t.isReferring = false)
    (hu : u ∈ t.valueParts) : Terminates Halt.Never fun depth => m.contains depth v u [] :=
  terminates_of_concrete concrete hv (concrete.part ht href hu)

lemma holds_union {left right : TypeExpr} (ht : K (.union mk left right)) :
    m.Holds v (.union mk left right) ↔ m.Holds v left ∨ m.Holds v right := by
  rw [Holds, ← answers_succ]
  exact answers_or (terminates_of_part concrete hv ht rfl (by simp [valueParts, parts]))
    (terminates_of_part concrete hv ht rfl (by simp [valueParts, parts]))

lemma holds_complement {left right : TypeExpr} (ht : K (.complement mk left right)) :
    m.Holds v (.complement mk left right) ↔ m.Holds v left ∧ ¬ m.Holds v right := by
  rw [Holds, ← answers_succ]
  exact answers_without (terminates_of_part concrete hv ht rfl (by simp [valueParts, parts]))
    (terminates_of_part concrete hv ht rfl (by simp [valueParts, parts]))

lemma holds_tuple {items : List TypeExpr} (ht : K (.tuple mk items)) :
    m.Holds v (.tuple mk items) ↔
      ∃ vs, v.asSequence? = some vs ∧ List.Forall₂ m.Holds vs items := by
  rw [Holds, ← answers_succ]
  simp only [contains]
  cases hvs : v.asSequence? with
  | none => exact answers_const.trans (by simp)
  | some vs =>
    simp only [Option.some.injEq, exists_eq_left']
    refine answers_allM_zip fun w hw u hu => ?_
    exact terminates_of_part concrete (hv.component (Value.mem_components_of_sequence hvs hw)) ht
      rfl hu

lemma holds_list {members : List TypeExpr} (ht : K (.list mk members)) :
    m.Holds v (.list mk members) ↔
      ∃ vs, v.asSequence? = some vs ∧ ∀ w ∈ vs, ∃ u ∈ members, m.Holds w u := by
  rw [Holds, ← answers_succ]
  simp only [contains]
  cases hvs : v.asSequence? with
  | none => exact answers_const.trans (by simp)
  | some vs =>
    have hterm : ∀ w ∈ vs, ∀ u ∈ members,
        Terminates Halt.Never fun depth => m.contains depth w u [] := fun w hw u hu =>
      terminates_of_part concrete (hv.component (Value.mem_components_of_sequence hvs hw)) ht rfl hu
    simp only [Option.some.injEq, exists_eq_left']
    rw [answers_allM fun w hw => .anyM (hterm w hw)]
    exact forall₂_congr fun w hw => answers_anyM (hterm w hw)

/-- Whether the names of a keyed value may stand against those of a record type. -/
def Admits (m : Matcher) (v : Value) (fields : List (Field TypeExpr)) : Prop :=
  m.openRecords = true ∨
    ∀ names, v.listed? = some names → ∀ name, name ∈ names ↔ name ∈ Field.names fields

omit concrete hv in
lemma admits_mapping {entries : List (Field Value)} {fields : List (Field TypeExpr)} :
    m.Admits (.mapping entries) fields ↔
      (!m.openRecords && !Field.sameNames entries fields) = false := by
  simp only [Admits, Value.listed?, Option.some.injEq, forall_eq', ← Field.sameNames_iff]
  cases m.openRecords <;> cases Field.sameNames entries fields <;> simp

omit concrete hv in
lemma admits_attributes {attributes : List (Field Value)} (h : v.attributes? = some attributes)
    {fields : List (Field TypeExpr)} :
    m.Admits v fields ↔
      (!m.openRecords && v.isInspectable &&
        !((Value.publicNames attributes).all (· ∈ Field.names fields) &&
          (Field.names fields).all (· ∈ Value.publicNames attributes))) = false := by
  have hlisted : v.listed? =
      if v.isInspectable then some (Value.publicNames attributes) else none := by
    cases v with
    | mapping => cases h
    | _ => simp only [Value.listed?, h, Option.map_some]
  have hcoincide : ((Value.publicNames attributes).all (· ∈ Field.names fields) &&
      (Field.names fields).all (· ∈ Value.publicNames attributes)) = true ↔
        ∀ name, name ∈ Value.publicNames attributes ↔ name ∈ Field.names fields := by
    simp only [Bool.and_eq_true, List.all_eq_true, decide_eq_true_eq]
    exact ⟨fun h name => ⟨h.1 name, h.2 name⟩,
      fun h => ⟨fun name => (h name).1, fun name => (h name).2⟩⟩
  rw [Admits, hlisted]
  cases m.openRecords <;> cases v.isInspectable <;> simp [← hcoincide]

/-- A record type holds a keyed value that has values of the right types under the names of the
fields. -/
lemma answers_holdsFields {fields : List (Field TypeExpr)} (ht : K (.record mk fields))
    {entries : List (Field Value)} (hentries : v.entries? = some entries) :
    Answers (fun depth => holdsFields (fun w u => m.contains depth w u []) entries fields) true ↔
      ∀ f ∈ fields, ∃ w, Field.find? entries f.name = some w ∧ m.Holds w f.type := by
  have hterm {f : Field TypeExpr} (hf : f ∈ fields) {w : Value}
      (hw : Field.find? entries f.name = some w) :
      Terminates Halt.Never fun depth => m.contains depth w f.type [] := by
    have own := concrete.ends.own ht hv hf
    exact terminates_of_part concrete (hv.component (Value.mem_components_of_entry hentries own hw))
      ht rfl (List.mem_map_of_mem hf)
  refine (answers_allM fun f hf => ?_).trans (forall₂_congr fun f hf => ?_)
  · cases hw : Field.find? entries f.name with
    | none => exact .ok false
    | some w => exact hterm hf hw
  · cases Field.find? entries f.name with
    | none => exact answers_const.trans (by simp)
    | some w => simp [Holds]

lemma holds_record {fields : List (Field TypeExpr)} (ht : K (.record mk fields)) :
    m.Holds v (.record mk fields) ↔
      ∃ entries, v.entries? = some entries ∧ m.Admits v fields ∧
        ∀ f ∈ fields, ∃ w, Field.find? entries f.name = some w ∧ m.Holds w f.type := by
  have admitted {entries : List (Field Value)} (hentries : v.entries? = some entries) (c : Bool) :
      Answers (fun depth => if c then .ok false
        else holdsFields (fun w u => m.contains depth w u []) entries fields) true ↔
      c = false ∧ ∀ f ∈ fields, ∃ w, Field.find? entries f.name = some w ∧ m.Holds w f.type := by
    rw [← answers_holdsFields concrete hv ht hentries]
    cases c with
    | true => exact answers_const.trans (by simp)
    | false => simp
  rw [Holds, ← answers_succ]
  cases v with
  | mapping entries =>
    refine (admitted rfl _).trans ?_
    rw [← admits_mapping]
    simp [Value.entries?]
  | object | tagged | call | callable | type =>
    refine (admitted rfl _).trans ?_
    rw [← admits_attributes rfl]
    simp [Value.entries?, Value.attributes?]
  | _ => exact answers_const.trans (by simp [Value.entries?, Value.attributes?])

omit hv in
/-- A call inhabits a function type that takes as many arguments, with types that hold them. -/
lemma holds_call {arguments : List Value} {inputs : List (Parameter TypeExpr)}
    {outputs : List TypeExpr} (harguments : ∀ w ∈ arguments, w.Ordinary classed)
    (hinputs : ∀ p ∈ inputs, K p.type) :
    m.Holds (.call arguments) (.function mk inputs outputs) ↔
      inRange arguments.length (Parameter.least inputs) (Parameter.greatest? inputs) = true ∧
        ∀ x ∈ arguments.zipIdx, ∃ p, Parameter.receiving? inputs x.2 = some p ∧
          m.Holds x.1 p.type := by
  have hterm {x : Value × Nat} (hx : x ∈ arguments.zipIdx) {p : Parameter TypeExpr}
      (hp : Parameter.receiving? inputs x.2 = some p) :
      Terminates Halt.Never fun depth => m.contains depth x.1 p.type [] :=
    terminates_of_concrete concrete (harguments x.1 (List.fst_mem_of_mem_zipIdx hx))
      (hinputs p (mem_of_receiving? hp))
  rw [Holds, ← answers_succ]
  simp only [contains, holdsFunction]
  cases inRange arguments.length (Parameter.least inputs) (Parameter.greatest? inputs) with
  | false => exact answers_const.trans (by simp)
  | true =>
    simp only [if_true, true_and]
    refine (answers_allM fun x hx => ?_).trans (forall₂_congr fun x _ => ?_)
    · cases hp : Parameter.receiving? inputs x.2 with
      | none => exact .ok false
      | some p => exact hterm hx hp
    · cases Parameter.receiving? inputs x.2 with
      | none => exact answers_const.trans (by simp)
      | some p => simp [Holds]

lemma holds_tagged {tags : List (Tag TypeExpr)} (ht : K (.tagged mk tags)) :
    m.Holds v (.tagged mk tags) ↔
      ∃ tag vs g, v.asTagged? = some (tag, vs) ∧ Tag.find? tags tag = some g ∧
        List.Forall₂ m.Holds vs g.fields := by
  rw [Holds, ← answers_succ]
  simp only [contains, holdsTagged]
  cases hvs : v.asTagged? with
  | none => exact answers_const.trans (by simp)
  | some tagged =>
    obtain ⟨tag, vs⟩ := tagged
    simp only [Option.some.injEq, Prod.mk.injEq, and_assoc, exists_and_left, exists_eq_left']
    cases hg : Tag.find? tags tag with
    | none => exact answers_const.trans (by simp)
    | some g =>
      have turn : (g.fields.length = vs.length) = (vs.length = g.fields.length) := propext eq_comm
      simp only [allHold, turn, Option.some.injEq, exists_eq_left']
      refine answers_allM_zip fun w hw u hu => ?_
      exact terminates_of_part concrete
        (hv.component (Value.mem_components_of_tagged hvs hw)) ht rfl
        (List.mem_flatMap.2 ⟨g, List.mem_of_find?_eq_some hg, hu⟩)

end Concrete

end Matcher

end TypeNotation
