import TypeNotation.Proofs.Relation.Demand
import TypeNotation.Proofs.Relation.Load
import TypeNotation.Proofs.Relation.Terminates
import TypeNotation.Proofs.Resolution.Height
import TypeNotation.Proofs.Value.Definite

/-!
# Matching terminates

Matching a value against a type is a descent in three ways.  Below a structure the value gets
lighter.  Between structures the type gets lower, since named types do not lead back to themselves
through unguarded positions.  Only a variable that is bound may lead up again, to the constraint of
a predicate; but there one bound less is left, and so the load of heights drops.

Suspended targets do not come up on the way: a value is matched against the base of a delegation
only.  But the first descent needs that no record type looks a field up in the class of a value.
-/

namespace TypeNotation

namespace TypeExpr

/-- The parts of a type that stand for types of values: all but the targets of delegations. -/
def valueParts : TypeExpr → List TypeExpr
  | delegation _ base _ => [base]
  | t => t.parts

lemma valueParts_subset (t : TypeExpr) : t.valueParts ⊆ t.parts := by
  cases t <;> simp [valueParts, parts]

/-- A node that is no record type with a field of a name that may be found in a class. -/
def PlainFields : TypeExpr → Prop
  | record _ fields => ∀ f ∈ fields, Value.isPlain f.name = true
  | _ => True

end TypeExpr

open TypeExpr Query

/-- A set of types that is closed under what a value may be matched against.  All named types in it
have bodies and are grounded, and no suspended target is among them. -/
structure Heap.Firm (h : Heap) (K : TypeExpr → Prop) : Prop where
  part : ∀ {t u}, K t → t.isReferring = false → u ∈ t.valueParts → K u
  body : ∀ {m name args}, K (.named m name args) → ∃ b, h.body? m.stamp = some b ∧ K b
  present : ∀ {m target bindings}, ¬ K (.deferred m target bindings)
  grounded : ∀ {t}, K t → h.Grounded t

namespace Heap.Firm

variable {h : Heap} {K : TypeExpr → Prop} (firm : h.Firm K)
include firm

lemma unfoldFrom (bound : Nat) (seen : List Nat) {t : TypeExpr} (ht : K t) :
    K (h.unfoldFrom bound seen t) := by
  induction bound generalizing seen t with
  | zero => exact ht
  | succ bound ih =>
    cases t with
    | named m name args =>
      obtain ⟨b, hb, hK⟩ := firm.body ht
      simp only [Heap.unfoldFrom, hb]
      split
      · exact ht
      · exact ih _ hK
    | _ => exact ht

lemma unfold {t : TypeExpr} (ht : K t) : K (h.unfold t) :=
  firm.unfoldFrom _ [] ht

end Heap.Firm

/-! ## Values that are taken apart -/

namespace Matcher

variable {allowed : Halt → Prop} {holds : Nat → Value → TypeExpr → Query Bool}

/-- The causes that arise at the nodes where matching ends, if it does not end with an answer, are
admitted for certain values.  These values are taken apart into such values only, and no field of a
record type is looked up in their classes. -/
structure Ends (allowed : Halt → Prop) (K : TypeExpr → Prop) (V : Value → Prop) : Prop where
  component : ∀ {v w}, V v → w ∈ v.components → V w
  own : ∀ {m fields v f}, K (.record m fields) → V v → f ∈ fields →
    Field.find? v.inherited f.name = none
  number : ∀ {n v}, K (.number n) → V v → (holdsNumeral v n).Final allowed
  interval : ∀ {m low high v}, K (.interval m low high) → V v →
    (holdsInterval v low high).Final allowed
  reference : ∀ {m name args}, K (.reference m name args) →
    allowed (.unresolved (.reference m name args))

lemma terminates_allHold {pairs : List (Value × TypeExpr)}
    (h : ∀ p ∈ pairs, Terminates allowed fun depth => holds depth p.1 p.2) :
    Terminates allowed fun depth => allHold (holds depth) pairs :=
  .allM h

lemma terminates_holdsFields {entries : List (Field Value)} {fields : List (Field TypeExpr)}
    (h : ∀ f ∈ fields, ∀ w, Field.find? entries f.name = some w →
      Terminates allowed fun depth => holds depth w f.type) :
    Terminates allowed fun depth => holdsFields (holds depth) entries fields := by
  refine .allM fun f hf => ?_
  cases hw : Field.find? entries f.name with
  | none => exact .ok false
  | some w => exact h f hf w hw

lemma terminates_holdsRecord (m : Matcher) {v : Value} {fields : List (Field TypeExpr)}
    (own : ∀ f ∈ fields, Field.find? v.inherited f.name = none)
    (h : ∀ w ∈ v.components, ∀ t ∈ fields.map (·.type),
      Terminates allowed fun depth => holds depth w t) :
    Terminates allowed fun depth => m.holdsRecord (holds depth) v fields := by
  have lookups {entries : List (Field Value)} (hentries : v.entries? = some entries) :
      Terminates allowed fun depth => holdsFields (holds depth) entries fields :=
    terminates_holdsFields fun f hf w hw =>
      h w (Value.mem_components_of_entry hentries (own f hf) hw) f.type (List.mem_map_of_mem hf)
  unfold holdsRecord
  cases v with
  | mapping | object | tagged | call | callable | type =>
    dsimp only [Value.attributes?]
    split
    · exact .ok false
    · exact lookups rfl
  | _ => exact .ok false

lemma terminates_holdsFunction {v : Value} {inputs : List (Parameter TypeExpr)}
    (h : ∀ w ∈ v.components, ∀ t ∈ inputs.map (·.type),
      Terminates allowed fun depth => holds depth w t) :
    Terminates allowed fun depth => holdsFunction (holds depth) v inputs := by
  cases v with
  | call arguments =>
    simp only [holdsFunction]
    split
    · refine .allM fun x hx => ?_
      cases hp : Parameter.receiving? inputs x.2 with
      | none => exact .ok false
      | some p =>
        refine h x.1 ?_ p.type (List.mem_map_of_mem (mem_of_receiving? hp))
        have := List.fst_mem_of_mem_zipIdx hx
        simp [Value.components, this]
    · exact .ok false
  | callable slots => cases slots <;> exact .ok _
  | _ => exact .ok false

lemma terminates_holdsTagged {v : Value} {tags : List (Tag TypeExpr)}
    (h : ∀ w ∈ v.components, ∀ t ∈ tags.flatMap (·.fields),
      Terminates allowed fun depth => holds depth w t) :
    Terminates allowed fun depth => holdsTagged (holds depth) v tags := by
  unfold holdsTagged
  cases hv : v.asTagged? with
  | none => exact .ok false
  | some tagged =>
    obtain ⟨tag, fields⟩ := tagged
    dsimp only
    cases hg : Tag.find? tags tag with
    | none => exact .ok false
    | some g =>
      dsimp only
      split
      · refine terminates_allHold fun p hp => ?_
        have hp := List.of_mem_zip hp
        refine h p.1 (Value.mem_components_of_tagged hv hp.1) p.2 ?_
        exact List.mem_flatMap.2 ⟨g, List.mem_of_find?_eq_some hg, hp.2⟩
      · exact .ok false

/-- Ordinary values find no field of a set of types in their classes, if the fields have plain names
where the values have classes. -/
lemma own_of_plain {K : TypeExpr → Prop} {classed : Prop}
    (plain : classed → ∀ {t}, K t → t.PlainFields) {m : Mark} {fields : List (Field TypeExpr)}
    {v : Value} {f : Field TypeExpr} (ht : K (.record m fields)) (hv : v.Ordinary classed)
    (hf : f ∈ fields) : Field.find? v.inherited f.name = none :=
  hv.find?_inherited fun hc => plain hc ht f hf

/-- Whatever the numbers and references, matching does not end because more depth is needed. -/
lemma ends_lasting {K : TypeExpr → Prop} {classed : Prop}
    (plain : classed → ∀ {t}, K t → t.PlainFields) :
    Ends Halt.Lasting K (Value.Ordinary classed) where
  component := .component
  own := own_of_plain plain
  number {n v} _ _ := by
    cases v <;> cases n <;> simp only [holdsNumeral] <;> first
      | trivial
      | (split <;> first | trivial | exact final_ofArithmetic _)
  interval {_ _ _ v} _ _ := by
    cases v <;> simp only [holdsInterval] <;> first
      | trivial
      | (split <;> first | trivial | exact final_ofArithmetic _)
  reference _ := trivial

end Matcher

/-! ## The descent -/

section Descent

variable {allowed : Halt → Prop} {h : Heap} {K : TypeExpr → Prop} {V : Value → Prop}
  {openRecords : Bool}

/-- Matching terminates at a type if it does at all lighter values, and for the value itself
wherever the load is less. -/
lemma terminates_contains_step (firm : h.Firm K) (ends : Matcher.Ends allowed K V) {v : Value}
    {t : TypeExpr} {bounds : Bounds} (hv : V v) (ht : K t) (hbounds : bounds.All K)
    (lighter : ∀ w ∈ v.components, ∀ u, K u →
      Terminates allowed fun depth => (Matcher.mk h openRecords).contains depth w u bounds)
    (lower : ∀ u bounds', K u → bounds'.All K →
      Multiset.IsDershowitzMannaLT (Bounds.load h.height u bounds')
        (Bounds.load h.height t bounds) →
        Terminates allowed fun depth => (Matcher.mk h openRecords).contains depth v u bounds') :
    Terminates allowed fun depth => (Matcher.mk h openRecords).contains depth v t bounds := by
  have parts (href : t.isReferring = false) : ∀ w ∈ v.components, ∀ u ∈ t.valueParts,
      Terminates allowed fun depth => (Matcher.mk h openRecords).contains depth w u bounds :=
    fun w hw u hu => lighter w hw u (firm.part ht href hu)
  have unguarded : ∀ u ∈ h.unguarded t, K u →
      Terminates allowed fun depth => (Matcher.mk h openRecords).contains depth v u bounds :=
    fun u hu hK => lower u bounds hK hbounds (Bounds.load_lt ((firm.grounded ht).height_lt hu))
  refine .of_succ ?_
  unfold Matcher.contains
  cases t with
  | named m name args =>
    obtain ⟨b, hb, -⟩ := firm.body ht
    exact lower _ bounds (firm.unfold ht) hbounds
      (Bounds.load_lt ((firm.grounded ht).height_unfold_lt hb))
  | deferred => exact (firm.present ht).elim
  | number n => exact .const (ends.number ht hv)
  | interval m low high => exact .const (ends.interval ht hv)
  | unit => cases v <;> exact .ok _
  | primitive => cases v <;> exact .ok _
  | tuple m items =>
    dsimp only
    cases hv : v.asSequence? with
    | none => exact .ok false
    | some vs =>
      dsimp only
      split
      · refine Matcher.terminates_allHold fun p hp => ?_
        have hp := List.of_mem_zip hp
        exact parts rfl p.1 (Value.mem_components_of_sequence hv hp.1) p.2 hp.2
      · exact .ok false
  | list m members =>
    dsimp only
    cases hv : v.asSequence? with
    | none => exact .ok false
    | some vs =>
      exact .allM fun w hw => .anyM fun u hu =>
        parts rfl w (Value.mem_components_of_sequence hv hw) u hu
  | record m fields =>
    exact Matcher.terminates_holdsRecord _ (fun f hf => ends.own ht hv hf) (parts rfl)
  | function m inputs outputs =>
    exact Matcher.terminates_holdsFunction fun w hw u hu =>
      parts rfl w hw u (List.mem_append_left _ hu)
  | tagged m tags => exact Matcher.terminates_holdsTagged (parts rfl)
  | union m left right =>
    have left := unguarded left (by simp [Heap.unguarded])
      (firm.part ht rfl (by simp [valueParts, TypeExpr.parts]))
    have right := unguarded right (by simp [Heap.unguarded])
      (firm.part ht rfl (by simp [valueParts, TypeExpr.parts]))
    exact left.ite (.ok true) right
  | complement m left right =>
    have left := unguarded left (by simp [Heap.unguarded])
      (firm.part ht rfl (by simp [valueParts, TypeExpr.parts]))
    have right := unguarded right (by simp [Heap.unguarded])
      (firm.part ht rfl (by simp [valueParts, TypeExpr.parts]))
    exact left.ite right.not (.ok false)
  | delegation m base targets =>
    exact unguarded base (by simp [Heap.unguarded]) (firm.part ht rfl (by simp [valueParts]))
  | predicate m constraint body listed =>
    have hc : K constraint := firm.part ht rfl (by simp [valueParts, TypeExpr.parts])
    have hb : K body := firm.part ht rfl (by simp [valueParts, TypeExpr.parts])
    exact lower body _ hb (hbounds.bind hc _) (Bounds.load_bind_lt
      ((firm.grounded ht).height_lt (by simp [Heap.unguarded]))
      ((firm.grounded ht).height_lt (by simp [Heap.unguarded])) _)
  | typeVariable m x =>
    dsimp only
    cases hx : bounds.find? x with
    | none => exact .ok true
    | some bound =>
      exact lower bound _ (hbounds.find? hx) (hbounds.without x) (Bounds.load_find_lt hx)
  | reference => exact .const (ends.reference ht)

/-- Matching a value against a type of a firm set terminates, under all bounds of that set. -/
lemma terminates_contains (firm : h.Firm K) (ends : Matcher.Ends allowed K V)
    (openRecords : Bool) {v : Value} (hv : V v) :
    ∀ (t : TypeExpr) (bounds : Bounds), K t → bounds.All K →
      Terminates allowed fun depth => (Matcher.mk h openRecords).contains depth v t bounds := by
  -- by the weight of the value, and for each value by the load
  induction hn : v.weight using Nat.strong_induction_on generalizing v with
  | _ n byWeight =>
    have lighter : ∀ w ∈ v.components, ∀ (u : TypeExpr) (bounds : Bounds), K u → bounds.All K →
        Terminates allowed fun depth => (Matcher.mk h openRecords).contains depth w u bounds :=
      fun w hw => byWeight w.weight (hn ▸ Value.weight_lt_of_mem_components hw)
        (ends.component hv hw) rfl
    refine Bounds.load_induction h.height fun t bounds byLoad ht hbounds => ?_
    exact terminates_contains_step firm ends hv ht hbounds
      (fun w hw u hu => lighter w hw u bounds hu hbounds)
      fun u bounds' hu hbounds' hlt => byLoad u bounds' hlt hu hbounds'

end Descent

end TypeNotation
