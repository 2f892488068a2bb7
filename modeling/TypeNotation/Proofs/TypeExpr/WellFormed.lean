import TypeNotation.Proofs.Token.Names
import TypeNotation.Proofs.TypeExpr.Cover
import TypeNotation.Proofs.TypeExpr.Parts

/-!
# Well-formed types

What the notation asks of a type beyond its grammar is asked of every node by itself, but for one
thing: constructors may only stand in an *open* place.  The body of a declaration and the type of a
field are open, both parts of a predicate are if the predicate stands in an open place, and no other
place is.  A type that is well formed in a closed place is so in every place.
-/

namespace TypeNotation

/-- A literal, as opposed to a power. -/
inductive Numeral.IsLiteral : Numeral → Prop
  | intro (p : Option Position) (x : Number) : IsLiteral (.literal p x)

namespace TypeExpr

/-- The parts of a type, each with whether its place is open. -/
def placedParts (opened : Bool) : TypeExpr → List (TypeExpr × Bool)
  | record _ fields => fields.map fun f => (f.type, true)
  | predicate _ constraint body _ => [(constraint, opened), (body, opened)]
  | t => t.parts.map (·, false)

/-- A type occurs in another one at an open place or at a closed one. -/
inductive Occurs (t : TypeExpr) (opened : Bool) : TypeExpr → Bool → Prop
  | whole : Occurs t opened t opened
  | part {u v : TypeExpr} {p q : Bool} (h : Occurs t opened u p) (hv : (v, q) ∈ u.placedParts p) :
    Occurs t opened v q

/-- What is asked of a node by itself. -/
def Proper (opened : Bool) : TypeExpr → Prop
  | number (.power _ base _) => base.IsLiteral
  | list _ members => Unrepeated members
  | function _ inputs outputs => outputs ≠ [] ∧ ∀ p ∈ inputs.dropLast, p.suffix ≠ .variadic
  | tagged _ tags =>
    opened = true ∧ 2 ≤ tags.length ∧ (tags.map (·.name)).Nodup ∧ ∀ g ∈ tags, Nameable g.name
  | reference _ name _ => Nameable name
  | _ => True

/-- A type all of whose nodes are as they should be, where they stand. -/
def WellFormed (opened : Bool) (t : TypeExpr) : Prop :=
  ∀ u p, Occurs t opened u p → u.Proper p

/-! ## Parts -/

lemma Occurs.trans {t u v : TypeExpr} {opened p q : Bool} (h : Occurs u p v q)
    (hu : Occurs t opened u p) : Occurs t opened v q := by
  induction h with
  | whole => exact hu
  | part _ hv ih => exact .part ih hv

lemma wellFormed_iff {t : TypeExpr} {opened : Bool} : t.WellFormed opened ↔
    t.Proper opened ∧ ∀ v p, (v, p) ∈ t.placedParts opened → v.WellFormed p := by
  constructor
  · intro h
    exact ⟨h t opened .whole, fun v p hv u q hu => h u q (hu.trans (.part .whole hv))⟩
  · rintro ⟨self, inside⟩ u p hu
    -- an occurrence is the whole or lies in one of the parts of the whole
    have cases : (u = t ∧ p = opened) ∨
        ∃ v q, (v, q) ∈ t.placedParts opened ∧ Occurs v q u p := by
      induction hu with
      | whole => exact .inl ⟨rfl, rfl⟩
      | part _ hw ih =>
        rcases ih with ⟨rfl, rfl⟩ | ⟨v, q, hv, hu⟩
        · exact .inr ⟨_, _, hw, .whole⟩
        · exact .inr ⟨v, q, hv, .part hu hw⟩
    rcases cases with ⟨rfl, rfl⟩ | ⟨v, q, hv, hu⟩
    · exact self
    · exact inside v q hv u p hu

lemma Proper.loosen {t : TypeExpr} (h : t.Proper false) (opened : Bool) : t.Proper opened := by
  cases t with
  | tagged m gs => exact absurd h.1 Bool.false_ne_true
  | number x => cases x <;> exact h
  | _ => exact h

/-- What is well formed in a closed place is so in every place. -/
lemma WellFormed.loosen {t : TypeExpr} (h : t.WellFormed false) (opened : Bool) :
    t.WellFormed opened := by
  induction t using parts_induction with
  | step t ih =>
    obtain ⟨self, inside⟩ := wellFormed_iff.1 h
    refine wellFormed_iff.2 ⟨self.loosen opened, fun v p hv => ?_⟩
    cases t with
    | predicate m c b listed =>
      simp only [placedParts, List.mem_cons, List.not_mem_nil, or_false, Prod.mk.injEq] at hv
      rcases hv with ⟨rfl, rfl⟩ | ⟨rfl, rfl⟩
      · exact ih v (by simp [parts]) (inside v false (by simp [placedParts]))
      · exact ih v (by simp [parts]) (inside v false (by simp [placedParts]))
    | _ => exact inside v p hv

/-! ## Nodes -/

/-- A node that has only closed places is well formed if it is as it should be and its parts are. -/
lemma wellFormed_of_closed {t : TypeExpr} {opened : Bool} (self : t.Proper opened)
    (closed : t.placedParts opened = t.parts.map (·, false))
    (inside : ∀ v ∈ t.parts, v.WellFormed false) : t.WellFormed opened := by
  refine wellFormed_iff.2 ⟨self, fun v p hv => ?_⟩
  rw [closed, List.mem_map] at hv
  obtain ⟨w, hw, hv⟩ := hv
  obtain ⟨rfl, rfl⟩ := Prod.mk.inj hv
  exact inside w hw

lemma wellFormed_literal {x : Numeral} (h : x.IsLiteral) (opened : Bool) :
    (number x).WellFormed opened := by
  obtain ⟨p, x⟩ := h
  exact wellFormed_of_closed trivial rfl (by simp [parts])

lemma wellFormed_record {m : Mark} {fs : List (Field TypeExpr)}
    (h : ∀ f ∈ fs, f.type.WellFormed true) : (record m fs).WellFormed false := by
  refine wellFormed_iff.2 ⟨trivial, fun v p hv => ?_⟩
  obtain ⟨f, hf, hv⟩ := List.mem_map.1 hv
  obtain ⟨rfl, rfl⟩ := Prod.mk.inj hv
  exact h f hf

lemma wellFormed_predicate {m : Mark} {c b : TypeExpr} {listed : List Binder} {opened : Bool}
    (hc : c.WellFormed opened) (hb : b.WellFormed opened) :
    (predicate m c b listed).WellFormed opened := by
  refine wellFormed_iff.2 ⟨trivial, fun v p hv => ?_⟩
  simp only [placedParts, List.mem_cons, List.not_mem_nil, or_false, Prod.mk.injEq] at hv
  rcases hv with ⟨rfl, rfl⟩ | ⟨rfl, rfl⟩
  · exact hc
  · exact hb

/-- Of equal members a list keeps one. -/
lemma wellFormed_listOf {m : Mark} {ts : List TypeExpr} (h : ∀ t ∈ ts, t.WellFormed false) :
    (listOf m ts).WellFormed false :=
  wellFormed_of_closed (unrepeated_withoutRepeats ts) rfl fun t ht =>
    h t (withoutRepeats_subset ts ht)

end TypeExpr

end TypeNotation
