import TypeNotation.TypeExpr.Printer
import TypeNotation.Proofs.Number.Place
import TypeNotation.Proofs.Relation.Descent

/-!
# Concrete types

A type is *concrete* if it decides by itself which values it holds: no type variable, predicate,
suspension or power that is not computed.  A set of concrete types is closed under what a value may
be matched against, so that every question about a value and such a type has an answer.
-/

namespace TypeNotation

open TypeExpr

namespace TypeExpr

/-- Whether a node decides membership by itself. -/
def isConcrete : TypeExpr → Bool
  | number (.power ..) | predicate .. | typeVariable .. | reference .. | deferred .. => false
  | _ => true

/-- Whether a node is the complement of a type in another. -/
def isComplement : TypeExpr → Bool
  | complement .. => true
  | _ => false

/-- Whether a node is a record type. -/
def isRecord : TypeExpr → Bool
  | record .. => true
  | _ => false

lemma plainFields_of_not_record {t : TypeExpr} (h : t.isRecord = false) : t.PlainFields := by
  cases t with
  | record => cases h
  | _ => trivial

end TypeExpr

/-- No cause of failure arises at the nodes where matching ends, if all numerals are literals. -/
lemma Matcher.ends_never {K : TypeExpr → Prop} {classed : Prop}
    (plain : classed → ∀ {t}, K t → t.PlainFields)
    (number : ∀ {x}, K (.number x) → ∃ p y, x = .literal p y)
    (interval : ∀ {m low high}, K (.interval m low high) →
      ∃ p q x y, low = .literal p x ∧ high = .literal q y ∧ x.place ≠ .nan ∧ y.place ≠ .nan)
    (reference : ∀ {m name args}, ¬ K (.reference m name args)) :
    Matcher.Ends Halt.Never K (Value.Ordinary classed) where
  component := .component
  own := own_of_plain plain
  number {n v} hn _ := by
    obtain ⟨p, y, rfl⟩ := number hn
    obtain ⟨r, hr⟩ : ∃ r, Matcher.holdsNumeral v (.literal p y) = .ok r := Matcher.holdsNumeral_ok
    rw [hr]
    trivial
  interval {m low high v} ht _ := by
    obtain ⟨p, q, x, y, rfl, rfl, -, -⟩ := interval ht
    obtain ⟨r, hr⟩ : ∃ r, Matcher.holdsInterval v (.literal p x) (.literal q y) = .ok r :=
      Matcher.holdsInterval_ok
    rw [hr]
    trivial
  reference ht := (reference ht).elim

namespace Heap

namespace Firm

variable {h : Heap} {K : TypeExpr → Prop} (firm : h.Firm K)
include firm

/-- A type of the set that refers to another is named. -/
lemma referring {t : TypeExpr} (ht : K t) (href : t.isReferring = true) :
    ∃ m name args, t = .named m name args := by
  cases t with
  | named m name args => exact ⟨m, name, args, rfl⟩
  | deferred => exact (firm.present ht).elim
  | _ => cases href

/-- A type of the set always reveals what it stands for. -/
lemma reveal {t : TypeExpr} (ht : K t) : h.reveal t = .ok (h.unfold t) := by
  cases t with
  | deferred => exact (firm.present ht).elim
  | _ => rfl

/-- The ends of an interval are literals, and numbers, if all numerals are literals. -/
lemma interval (number : ∀ {x}, K (.number x) → ∃ p y, x = .literal p y)
    (settled : ∀ {t}, K t → t.Settled fun _ => True) {m : Mark} {low high : Numeral}
    (ht : K (.interval m low high)) :
    ∃ p q x y, low = .literal p x ∧ high = .literal q y ∧ x.place ≠ .nan ∧ y.place ≠ .nan := by
  have hlow : K (.number low) := firm.part ht rfl (by simp [valueParts, parts])
  have hhigh : K (.number high) := firm.part ht rfl (by simp [valueParts, parts])
  obtain ⟨p, x, rfl⟩ := number hlow
  obtain ⟨q, y, rfl⟩ := number hhigh
  obtain ⟨hx, hy, -⟩ := settled ht
  exact ⟨p, q, x, y, rfl, rfl, Number.isNaN_eq_false.1 hx, Number.isNaN_eq_false.1 hy⟩

end Firm

/-- The types that a value may be matched against, starting from a type: parts of types that refer
to nothing, and bodies of named types. -/
inductive Reaches (h : Heap) (t : TypeExpr) : TypeExpr → Prop
  | refl : Reaches h t t
  | part {u v : TypeExpr} : Reaches h t u → u.isReferring = false → v ∈ u.valueParts → Reaches h t v
  | body {m : Mark} {name : String} {args : List TypeExpr} {v : TypeExpr} :
    Reaches h t (.named m name args) → h.body? m.stamp = some v → Reaches h t v

/-- What a type of a firm set reaches is in the set. -/
lemma Firm.holds {h : Heap} {K : TypeExpr → Prop} (firm : h.Firm K) {t u : TypeExpr} (ht : K t)
    (reaches : h.Reaches t u) : K u := by
  induction reaches with
  | refl => exact ht
  | part _ href hv ih => exact firm.part ih href hv
  | body _ hb ih =>
    obtain ⟨b, hb', hK⟩ := firm.body ih
    obtain rfl : b = _ := Option.some.inj (hb'.symm.trans hb)
    exact hK

/-- What a type of a firm set reaches is firm by itself. -/
lemma Firm.reached {h : Heap} {K : TypeExpr → Prop} (firm : h.Firm K) {t : TypeExpr} (ht : K t) :
    h.Firm (h.Reaches t) where
  part hu href hv := .part hu href hv
  body hu := by
    obtain ⟨b, hb, -⟩ := firm.body (firm.holds ht hu)
    exact ⟨b, hb, .body hu hb⟩
  present hu := firm.present (firm.holds ht hu)
  grounded hu := firm.grounded (firm.holds ht hu)

/-- The types that either of two types reaches. -/
def Near (h : Heap) (a b : TypeExpr) : TypeExpr → Prop :=
  fun t => h.Reaches a t ∨ h.Reaches b t

/-- Two types that reach concrete types only, and no named type without a body. -/
structure Plain (h : Heap) (a b : TypeExpr) : Prop where
  concrete : ∀ t, h.Near a b t → t.isConcrete = true
  body : ∀ m name args, h.Near a b (.named m name args) → (h.body? m.stamp).isSome

/-- The types that any of some types reach. -/
def From (h : Heap) (ts : List TypeExpr) : TypeExpr → Prop :=
  fun u => ∃ t ∈ ts, h.Reaches t u

/-- A set of concrete types, closed under what a value may be matched against, in which no named
type is without a body. -/
structure PlainOver (h : Heap) (N : TypeExpr → Prop) : Prop where
  part : ∀ {t u}, N t → t.isReferring = false → u ∈ t.valueParts → N u
  unfold : ∀ {m name args u}, N (.named m name args) → h.body? m.stamp = some u → N u
  concrete : ∀ {t}, N t → t.isConcrete = true
  body : ∀ {m name args}, N (.named m name args) → (h.body? m.stamp).isSome

lemma Plain.over {h : Heap} {a b : TypeExpr} (plain : h.Plain a b) :
    h.PlainOver (h.Near a b) where
  part ht href hu := ht.imp (.part · href hu) (.part · href hu)
  unfold ht hbody := ht.imp (.body · hbody) (.body · hbody)
  concrete ht := plain.concrete _ ht
  body ht := plain.body _ _ _ ht

lemma plainOver_from {h : Heap} {ts : List TypeExpr}
    (concrete : ∀ u, h.From ts u → u.isConcrete = true)
    (body : ∀ m name args, h.From ts (.named m name args) → (h.body? m.stamp).isSome) :
    h.PlainOver (h.From ts) where
  part := fun ⟨t, ht, reaches⟩ href hu => ⟨t, ht, reaches.part href hu⟩
  unfold := fun ⟨t, ht, reaches⟩ hbody => ⟨t, ht, reaches.body hbody⟩
  concrete hu := concrete _ hu
  body hu := body _ _ _ hu

/-- A closed set of concrete types, whose equal named types have equal bodies.  Its record types
have plain names on a condition. -/
structure Concrete (h : Heap) (K : TypeExpr → Prop) (classed : Prop) : Prop extends h.Firm K where
  plain : classed → ∀ {t}, K t → t.PlainFields
  concrete : ∀ {t}, K t → t.isConcrete = true
  settled : ∀ {t}, K t → t.Settled fun _ => True
  alike : ∀ {m m' name args args' b b'}, K (.named m name args) → K (.named m' name args') →
    EachSame args args' → h.body? m.stamp = some b → h.body? m'.stamp = some b' →
      b.same b' = true

namespace Concrete

variable {h : Heap} {K : TypeExpr → Prop} {classed : Prop} (concrete : h.Concrete K classed)
include concrete

lemma number {x : Numeral} (hx : K (.number x)) : ∃ p y, x = .literal p y := by
  cases x with
  | literal p y => exact ⟨p, y, rfl⟩
  | power => cases concrete.concrete hx

/-- The ends of an interval are literals, and numbers. -/
lemma interval {m : Mark} {low high : Numeral} (ht : K (.interval m low high)) :
    ∃ p q x y, low = .literal p x ∧ high = .literal q y ∧ x.place ≠ .nan ∧ y.place ≠ .nan :=
  concrete.toFirm.interval concrete.number concrete.settled ht

lemma primitive {m : Mark} {name : String} (ht : K (.primitive m name)) :
    name = "string" ∨ name = "any" :=
  concrete.settled ht

/-- A type of the set that refers to another is named. -/
lemma referring {t : TypeExpr} (ht : K t) (href : t.isReferring = true) :
    ∃ m name args, t = .named m name args :=
  concrete.toFirm.referring ht href

/-- A type of the set that refers to another is higher than what it unfolds to. -/
lemma height_unfold_lt {t : TypeExpr} (ht : K t) (href : t.isReferring = true) :
    h.height (h.unfold t) < h.height t := by
  obtain ⟨m, name, args, rfl⟩ := concrete.referring ht href
  obtain ⟨b, hb, -⟩ := concrete.body ht
  exact (concrete.grounded ht).height_unfold_lt hb

/-- A type of the set always reveals what it stands for. -/
lemma reveal {t : TypeExpr} (ht : K t) : h.reveal t = .ok (h.unfold t) :=
  concrete.toFirm.reveal ht

/-- No cause of failure arises at the nodes where matching ends. -/
lemma ends : Matcher.Ends Halt.Never K (Value.Ordinary classed) :=
  Matcher.ends_never concrete.plain concrete.number concrete.interval fun ht => by
    cases concrete.concrete ht

end Concrete

lemma unfold_of_not_referring {h : Heap} {t : TypeExpr} (href : t.isReferring = false) :
    h.unfold t = t := by
  refine unfold_of_settles ?_
  cases t with
  | named => cases href
  | _ => trivial

end Heap

end TypeNotation
