import Mathlib.Data.Set.Card
import TypeNotation.Proofs.Relation.Concrete
import TypeNotation.Proofs.Relation.Load
import TypeNotation.Proofs.Relation.Rules

/-!
# Comparing terminates in layers

Within one relation a comparison goes on to parts of the two types, which are smaller, to
constraints that bound their variables, or, where it comes to a type that refers to another, to a
pair that is assumed from then on.  There are only finitely many such pairs.

Across a complement the relations appeal to each other, and there the assumed pairs are forgotten.
So the types have to lie in layers: the right operand of a complement lies in a lower layer than the
complement, and nothing that a type leads to lies higher than the type.  Since a bounded variable
may lead to the constraint of a predicate on either side, constraints have to lie in the lowest
layer.
-/

namespace TypeNotation

open TypeExpr Query

/-- A finite set of types that is closed under what a comparison may go on to, in layers. -/
structure Heap.Layers (h : Heap) (F : Finset TypeExpr) (layer : TypeExpr → Nat) : Prop where
  part : ∀ {t u}, t ∈ F → t.isReferring = false → u ∈ t.parts → u ∈ F ∧ layer u ≤ layer t
  unfold : ∀ {t}, t ∈ F → h.unfold t ∈ F ∧ layer (h.unfold t) ≤ layer t
  direct : ∀ {t}, t ∈ F → t.isDelegation = false
  present : ∀ {m target bindings}, .deferred m target bindings ∉ F
  right : ∀ {m l r}, .complement m l r ∈ F → layer r < layer (.complement m l r)
  constraint : ∀ {m c body listed}, .predicate m c body listed ∈ F → ∀ t ∈ F, layer c ≤ layer t

/-- A type of the set that lies in the lowest layer. -/
def Lowest (F : Finset TypeExpr) (layer : TypeExpr → Nat) (t : TypeExpr) : Prop :=
  t ∈ F ∧ ∀ u ∈ F, layer t ≤ layer u

/-! ## What is left to be assumed -/

section Missing

variable {α : Type} [DecidableEq α] {F : Finset α} {known : List α} {x : α}

/-- The number of members of a finite set that are not on a list. -/
def missing (F : Finset α) (known : List α) : Nat :=
  (F.filter (· ∉ known)).card

lemma missing_le {known' : List α} (h : known ⊆ known') : missing F known' ≤ missing F known :=
  Finset.card_le_card fun y hy => by
    rw [Finset.mem_filter] at hy ⊢
    exact ⟨hy.1, fun hmem => hy.2 (h hmem)⟩

/-- Putting a new member on the list leaves fewer. -/
lemma missing_cons_lt (hx : x ∈ F) (h : x ∉ known) : missing F (x :: known) < missing F known := by
  refine Finset.card_lt_card (Finset.ssubset_iff_of_subset ?_ |>.2 ⟨x, ?_, by simp⟩)
  · intro y hy
    rw [Finset.mem_filter] at hy ⊢
    exact ⟨hy.1, fun hmem => hy.2 (List.mem_cons_of_mem _ hmem)⟩
  · exact Finset.mem_filter.2 ⟨hx, h⟩

end Missing

/-! ## The spans of a union -/

namespace Heap

variable {h : Heap} {F : Finset TypeExpr} {layer : TypeExpr → Nat}

/-- The walk for spans keeps the nodes that it has passed. -/
lemma subset_of_spansFrom {bound : Nat} {t : TypeExpr} {seen seen' : List TypeExpr}
    {found : List Span} (hspans : h.spansFrom bound t seen = .ok (found, seen')) :
    seen ⊆ seen' := by
  induction bound generalizing t seen seen' found with
  | zero => cases hspans
  | succ bound ih =>
    rw [spansFrom] at hspans
    by_cases hseen : t ∈ seen
    · simp only [hseen, if_true, Except.ok.injEq, Prod.mk.injEq] at hspans
      exact hspans.2 ▸ List.Subset.refl _
    · simp only [hseen, if_false] at hspans
      refine List.Subset.trans (List.subset_cons_self t seen) ?_
      cases t with
      | named => exact ih hspans
      | union m left right =>
        obtain ⟨⟨ls, seen₁⟩, hl, hspans⟩ := bind_eq_ok.1 hspans
        obtain ⟨⟨rs, seen₂⟩, hr, hspans⟩ := bind_eq_ok.1 hspans
        rw [pure_eq_ok, Prod.mk.injEq] at hspans
        exact hspans.2 ▸ List.Subset.trans (ih hl) (ih hr)
      | _ =>
        simp only [Except.ok.injEq, Prod.mk.injEq] at hspans
        exact hspans.2 ▸ List.Subset.refl _

namespace Layers

variable (layers : h.Layers F layer)
include layers

lemma reveal {t : TypeExpr} (ht : t ∈ F) : h.reveal t = .ok (h.unfold t) := by
  cases t with
  | deferred => exact (layers.present ht).elim
  | _ => rfl

/-- The walk for spans terminates, since it passes every node once. -/
lemma terminates_spansFrom {t : TypeExpr} (ht : t ∈ F) (seen : List TypeExpr) :
    Terminates Halt.Lasting fun bound => h.spansFrom bound t seen := by
  induction hn : missing F seen using Nat.strong_induction_on generalizing t seen with
  | _ n ih =>
    refine .of_succ ?_
    simp only [spansFrom]
    by_cases hseen : t ∈ seen
    · simp only [hseen, if_true]
      exact .const trivial
    · simp only [hseen, if_false]
      have fewer : missing F (t :: seen) < n := hn ▸ missing_cons_lt ht hseen
      cases t with
      | named => exact ih _ fewer (layers.unfold ht).1 _ rfl
      | union m left right =>
        have hl := (layers.part ht rfl (u := left) (by simp [parts])).1
        have hr := (layers.part ht rfl (u := right) (by simp [parts])).1
        refine (ih _ fewer hl _ rfl).bind_of
          (P := fun found => (.union m left right :: seen) ⊆ found.2)
          (fun _ _ h => subset_of_spansFrom h) fun found hfound => ?_
        refine (ih _ (Nat.lt_of_le_of_lt (missing_le hfound) fewer) hr _ rfl).bind fun _ => ?_
        exact .const trivial
      | _ => exact .const trivial

lemma terminates_covers {t : TypeExpr} (ht : t ∈ F) (low high : Numeral) :
    Terminates Halt.Lasting fun bound => h.covers bound low high t :=
  ((layers.terminates_spansFrom ht []).bind fun found => .ok found.1).bind
    fun _ => .const (final_ofArithmetic _)

end Layers

end Heap

/-! ## The relations -/

namespace Matcher

variable {m : Matcher} {F : Finset TypeExpr} {layer : TypeExpr → Nat} {assumed : Assumed}
  {left right : Bounds} {a b : TypeExpr}

/-- Comparing numbers and intervals is over at once. -/
lemma ending_subtype_numeric (ha : isNumeric a = true) (hb : isNumeric b = true) :
    Ending fun depth => m.subtype depth assumed left right a b := by
  refine .of_succ ?_
  unfold subtype
  cases a with
  | number x =>
    cases b with
    | number | interval =>
      simp only [isReferring, Bool.or_false, Bool.false_eq_true, if_false, subjectRule?,
        objectRule?, structureRule]
      split
      · exact .ok true
      · exact .const (final_numeralRule _ _)
    | _ => cases hb
  | interval =>
    cases b with
    | number | interval =>
      simp only [isReferring, Bool.or_false, Bool.false_eq_true, if_false, subjectRule?,
        objectRule?, structureRule]
      split
      · exact .ok true
      · first | exact .ok false | exact .const (final_ofArithmetic _)
    | _ => cases hb
  | _ => cases ha

variable (layers : m.heap.Layers F layer)
include layers

/-- Subtyping terminates if it does at pairs of types that are smaller or can be assumed, and
overlap does in lower layers. -/
lemma ending_subtype_step (ha : a ∈ F) (hb : b ∈ F)
    (hl : left.All (Lowest F layer)) (hr : right.All (Lowest F layer))
    (assume : (a, b) ∉ assumed → ∀ x ∈ F, ∀ y ∈ F, layer x + layer y ≤ layer a + layer b →
      Ending fun depth => m.subtype depth ((a, b) :: assumed) left right x y)
    (lighter : ∀ left' right' : Bounds, ∀ x ∈ F, ∀ y ∈ F,
      left'.All (Lowest F layer) → right'.All (Lowest F layer) →
      layer x + layer y ≤ layer a + layer b →
      Multiset.IsDershowitzMannaLT (Bounds.loads sizeOf left' right' x y)
        (Bounds.loads sizeOf left right a b) →
      Ending fun depth => m.subtype depth assumed left' right' x y)
    (lower : ∀ x ∈ F, ∀ y ∈ F, layer x + layer y < layer a + layer b →
      Ending fun depth => m.overlap depth [] x y) :
    Ending fun depth => m.subtype depth assumed left right a b := by
  refine .of_succ ?_
  unfold subtype
  cases href : a.isReferring || b.isReferring with
  | true =>
    simp only [if_true, layers.reveal ha, layers.reveal hb]
    split
    · exact .ok true
    · obtain ⟨hx, hlx⟩ := layers.unfold ha
      obtain ⟨hy, hly⟩ := layers.unfold hb
      exact assume ‹_› _ hx _ hy (Nat.add_le_add hlx hly)
  | false =>
    simp only [Bool.false_eq_true, if_false]
    rw [Bool.or_eq_false_iff] at href
    split
    · exact .ok true
    · have partA : ∀ x ∈ a.parts, x ∈ F ∧ layer x ≤ layer a := fun x hx => layers.part ha href.1 hx
      have partB : ∀ y ∈ b.parts, y ∈ F ∧ layer y ≤ layer b := fun y hy => layers.part hb href.2 hy
      have subject : ∀ x ∈ a.parts, Ending fun depth => m.subtype depth assumed left right x b :=
        fun x hx => lighter left right x (partA x hx).1 b hb hl hr
          (Nat.add_le_add_right (partA x hx).2 _)
          (Bounds.loads_lt_left (Bounds.load_lt (sizeOf_lt_of_mem_parts hx)))
      have object : ∀ y ∈ b.parts, Ending fun depth => m.subtype depth assumed left right a y :=
        fun y hy => lighter left right a ha y (partB y hy).1 hl hr
          (Nat.add_le_add_left (partB y hy).2 _)
          (Bounds.loads_lt_right (Bounds.load_lt (sizeOf_lt_of_mem_parts hy)))
      have both : ∀ x ∈ a.parts, ∀ y ∈ b.parts,
          (Ending fun depth => m.subtype depth assumed left right x y) ∧
            Ending fun depth => m.subtype depth assumed left right y x := by
        intro x hx y hy
        obtain ⟨hxF, hlx⟩ := partA x hx
        obtain ⟨hyF, hly⟩ := partB y hy
        have hsx := sizeOf_lt_of_mem_parts hx
        have hsy := sizeOf_lt_of_mem_parts hy
        exact ⟨lighter left right x hxF y hyF hl hr (Nat.add_le_add hlx hly)
            (Bounds.loads_lt_of_lt (.inl hsx) (.inr hsy)),
          lighter left right y hyF x hxF hl hr (by omega)
            (Bounds.loads_lt_of_lt (.inr hsy) (.inl hsx))⟩
      have subjectRule := uniform_subjectRule?
        (fun depth => ⟨m.subtype depth assumed, m.overlap depth []⟩) left right subject both
        (fun x hx mk l r hcomplement => by
          subst hcomplement
          exact lower x (partA x hx).1 r (partB r (by simp [parts])).1
            (Nat.add_lt_add_of_le_of_lt (partA x hx).2 (layers.right hb)))
        (fun mk constraint body listed hpredicate => by
          subst hpredicate
          have hc := (partA constraint (by simp [parts])).1
          have hbody := partA body (by simp [parts])
          exact lighter _ right body hbody.1 b hb (hl.bind ⟨hc, layers.constraint ha⟩ _) hr
            (Nat.add_le_add_right hbody.2 _)
            (Bounds.loads_lt_left (Bounds.load_bind_lt (sizeOf_lt_of_mem_parts (by simp [parts]))
              (sizeOf_lt_of_mem_parts (by simp [parts])) _)))
        (fun v t hv => by
          obtain ⟨htF, least⟩ := hl.find? hv
          exact lighter _ right t htF b hb (hl.without v) hr (Nat.add_le_add_right (least a ha) _)
            (Bounds.loads_lt_left (Bounds.load_find_lt hv)))
      have objectRule := uniform_objectRule?
        (fun depth => ⟨m.subtype depth assumed, m.overlap depth []⟩) left right m (layers.direct ha)
          (layers.direct hb) object
        (fun mk l r hcomplement => by
          subst hcomplement
          exact lower a ha r (partB r (by simp [parts])).1
            (Nat.add_lt_add_left (layers.right hb) _))
        (fun mk constraint body listed hpredicate => by
          subst hpredicate
          have hc := (partB constraint (by simp [parts])).1
          have hbody := partB body (by simp [parts])
          exact lighter left _ a ha body hbody.1 hl (hr.bind ⟨hc, layers.constraint hb⟩ _)
            (Nat.add_le_add_left hbody.2 _)
            (Bounds.loads_lt_right (Bounds.load_bind_lt (sizeOf_lt_of_mem_parts (by simp [parts]))
              (sizeOf_lt_of_mem_parts (by simp [parts])) _)))
        (fun v t hv => by
          obtain ⟨htF, least⟩ := hr.find? hv
          exact lighter left _ a ha t htF hl (hr.without v) (Nat.add_le_add_left (least b hb) _)
            (Bounds.loads_lt_right (Bounds.load_find_lt hv)))
        (layers.terminates_covers hb)
      rcases subjectRule with subjectRule | ⟨q, subjectRule, ending⟩
      · rcases objectRule with objectRule | ⟨q, objectRule, ending⟩
        · simp only [subjectRule, objectRule]
          exact ending_structureRule m both
        · simp only [subjectRule, objectRule]
          exact ending
      · simp only [subjectRule]
        exact ending

/-- Overlap terminates if it does at pairs of types that are smaller or can be assumed, and
subtyping does in lower layers. -/
lemma ending_overlap_step (ha : a ∈ F) (hb : b ∈ F)
    (assume : (a, b) ∉ assumed → ∀ x ∈ F, ∀ y ∈ F, layer x + layer y ≤ layer a + layer b →
      Ending fun depth => m.overlap depth ((a, b) :: assumed) x y)
    (lighter : ∀ x ∈ F, ∀ y ∈ F, layer x + layer y ≤ layer a + layer b →
      sizeOf x + sizeOf y < sizeOf a + sizeOf b → Ending fun depth => m.overlap depth assumed x y)
    (lower : ∀ x ∈ F, ∀ y ∈ F, layer x + layer y < layer a + layer b →
      Ending fun depth => m.subtype depth [] [] [] x y) :
    Ending fun depth => m.overlap depth assumed a b := by
  refine .of_succ ?_
  unfold overlap
  cases href : a.isReferring || b.isReferring with
  | true =>
    simp only [if_true, layers.reveal ha, layers.reveal hb]
    split
    · exact .ok true
    · obtain ⟨hx, hlx⟩ := layers.unfold ha
      obtain ⟨hy, hly⟩ := layers.unfold hb
      exact assume ‹_› _ hx _ hy (Nat.add_le_add hlx hly)
  | false =>
    simp only [Bool.false_eq_true, if_false]
    rw [Bool.or_eq_false_iff] at href
    have partA : ∀ x ∈ a.parts, x ∈ F ∧ layer x ≤ layer a := fun x hx => layers.part ha href.1 hx
    have partB : ∀ y ∈ b.parts, y ∈ F ∧ layer y ≤ layer b := fun y hy => layers.part hb href.2 hy
    have both : ∀ x ∈ a.parts, ∀ y ∈ b.parts,
        (Ending fun depth => m.overlap depth assumed x y) ∧
          Ending fun depth => m.overlap depth assumed y x := by
      intro x hx y hy
      obtain ⟨hxF, hlx⟩ := partA x hx
      obtain ⟨hyF, hly⟩ := partB y hy
      have hsx := sizeOf_lt_of_mem_parts hx
      have hsy := sizeOf_lt_of_mem_parts hy
      exact ⟨lighter x hxF y hyF (by omega) (by omega), lighter y hyF x hxF (by omega) (by omega)⟩
    have forth := uniform_overlapRule?
      (fun depth => ⟨m.subtype depth [], m.overlap depth []⟩)
      (fun depth => m.overlap depth assumed) (a := a) (b := b) (layers.direct ha)
      (fun x hx => lighter x (partA x hx).1 b hb (Nat.add_le_add_right (partA x hx).2 _)
        (Nat.add_lt_add_right (sizeOf_lt_of_mem_parts hx) _))
      (fun mk l r hcomplement => by
        subst hcomplement
        have hr := layers.right ha
        exact lower b hb r (partA r (by simp [parts])).1 (by omega))
    have back := uniform_overlapRule?
      (fun depth => ⟨m.subtype depth [], m.overlap depth []⟩)
      (fun depth => m.overlap depth assumed) (a := b) (b := a) (layers.direct hb)
      (fun y hy => lighter y (partB y hy).1 a ha (by have := (partB y hy).2; omega)
        (by have := sizeOf_lt_of_mem_parts hy; omega))
      (fun mk l r hcomplement => by
        subst hcomplement
        exact lower a ha r (partB r (by simp [parts])).1
          (Nat.add_lt_add_left (layers.right hb) _))
    rcases forth with forth | ⟨q, forth, ending⟩
    · rcases back with back | ⟨q, back, ending⟩
      · simp only [forth, back]
        exact ending_overlapStructure m both fun hna hnb =>
          ⟨ending_subtype_numeric hna hnb, ending_subtype_numeric hnb hna⟩
      · simp only [forth, back]
        exact ending
    · simp only [forth]
      exact ending

/-- Both relations terminate in a set of types that lie in layers. -/
lemma ending_relations (n : Nat) :
    (∀ assumed (left right : Bounds), ∀ a ∈ F, ∀ b ∈ F, layer a + layer b ≤ n →
      left.All (Lowest F layer) → right.All (Lowest F layer) →
      Ending fun depth => m.subtype depth assumed left right a b) ∧
    ∀ assumed, ∀ a ∈ F, ∀ b ∈ F, layer a + layer b ≤ n →
      Ending fun depth => m.overlap depth assumed a b := by
  -- by the layers, for each of them by the pairs that are left, and then by the load
  induction n using Nat.strong_induction_on with
  | _ n ih =>
    constructor
    · intro assumed
      induction hk : missing (F ×ˢ F) assumed using Nat.strong_induction_on
          generalizing assumed with
      | _ k byPairs =>
        intro left right a ha b hb hle hl hr
        revert ha hb hle hl hr
        refine Bounds.loads_induction sizeOf ?_ left right a b
        intro left right a b byLoad ha hb hle hl hr
        refine ending_subtype_step layers ha hb hl hr (fun hnew x hx y hy hxy => ?_)
          (fun left' right' x hx y hy hl' hr' hxy hlt => ?_) (fun x hx y hy hlt => ?_)
        · exact byPairs _ (hk ▸ missing_cons_lt (Finset.mk_mem_product ha hb) hnew) _ rfl left
            right x hx y hy (hxy.trans hle) hl hr
        · exact byLoad left' right' x y hlt hx hy (hxy.trans hle) hl' hr'
        · exact (ih _ (Nat.lt_of_lt_of_le hlt hle)).2 [] x hx y hy (Nat.le_refl _)
    · intro assumed
      induction hk : missing (F ×ˢ F) assumed using Nat.strong_induction_on
          generalizing assumed with
      | _ k byPairs =>
        intro a ha b hb hle
        induction hs : sizeOf a + sizeOf b using Nat.strong_induction_on generalizing a b with
        | _ size bySize =>
          refine ending_overlap_step layers ha hb (fun hnew x hx y hy hxy => ?_)
            (fun x hx y hy hxy hlt => ?_) (fun x hx y hy hlt => ?_)
          · exact byPairs _ (hk ▸ missing_cons_lt (Finset.mk_mem_product ha hb) hnew)
              _ rfl x hx y hy
              (hxy.trans hle)
          · exact bySize _ (hs ▸ hlt) x hx y hy (hxy.trans hle) rfl
          · exact (ih _ (Nat.lt_of_lt_of_le hlt hle)).1 [] [] [] x hx y hy (Nat.le_refl _)
              Bounds.all_nil Bounds.all_nil

end Matcher

/-! ## Layers by complements within reach -/

namespace Heap

/-- What a comparison of two types needs to terminate: no suspension within reach, no complement
within reach of its own right operand, and none within reach of the constraint of a predicate. -/
structure Layered (h : Heap) (a b : TypeExpr) : Prop where
  direct : ∀ t, h.Near a b t → t.isDelegation = false
  present : ∀ m target bindings, ¬ h.Near a b (.deferred m target bindings)
  right : ∀ m l r, h.Near a b (.complement m l r) → ¬ h.Reaches r (.complement m l r)
  constraint : ∀ m c body listed, h.Near a b (.predicate m c body listed) →
    ∀ t, h.Reaches c t → t.isComplement = false

variable {h : Heap} {a b t u v : TypeExpr}

lemma Reaches.trans (htu : h.Reaches t u) (huv : h.Reaches u v) : h.Reaches t v := by
  induction huv with
  | refl => exact htu
  | part _ href hv ih => exact ih.part href hv
  | body _ hbody ih => exact ih.body hbody

lemma reaches_unfold (t : TypeExpr) : h.Reaches t (h.unfold t) := by
  have walk : ∀ bound seen u, h.Reaches t u → h.Reaches t (h.unfoldFrom bound seen u) := by
    intro bound
    induction bound with
    | zero => exact fun _ _ hu => hu
    | succ bound ih =>
      intro seen u hu
      cases u with
      | named m name args =>
        simp only [unfoldFrom]
        cases hbody : h.body? m.stamp with
        | none => exact hu
        | some body =>
          dsimp only
          split
          · exact hu
          · exact ih _ _ (hu.body hbody)
      | _ => exact hu
  exact walk _ [] t .refl

lemma Near.trans (ht : h.Near a b t) (htu : h.Reaches t u) : h.Near a b u :=
  ht.imp (·.trans htu) (·.trans htu)

/-- What a type reaches is found in the type or in a body. -/
lemma Reaches.mem_subterms (htu : h.Reaches t u) :
    u ∈ t.subterms ∨ ∃ p ∈ h.bodies.toList, u ∈ p.2.subterms := by
  have inside {s : TypeExpr} {u v : TypeExpr} (hu : u ∈ s.subterms) (hv : v ∈ u.valueParts) :
      v ∈ s.subterms := by
    have all : s.Throughout (· ∈ s.subterms) := fun _ h => h
    exact ((all.subterm hu).part (valueParts_subset u hv)).self
  induction htu with
  | refl => exact .inl (mem_subterms_self t)
  | part _ _ hv ih =>
    exact ih.imp (inside · hv) fun ⟨p, hp, hu⟩ => ⟨p, hp, inside hu hv⟩
  | @body m name args v _ hbody _ =>
    exact .inr ⟨(m.stamp, v), Std.HashMap.mem_toList_iff_getElem?_eq_some.2 hbody,
      mem_subterms_self v⟩

lemma finite_near (h : Heap) (a b : TypeExpr) : {t | h.Near a b t}.Finite := by
  refine (List.finite_toSet (a.subterms ++ b.subterms ++
    h.bodies.toList.flatMap (·.2.subterms))).subset fun t ht => ?_
  simp only [List.mem_append, List.mem_flatMap, Set.mem_ofPred_eq]
  rcases ht with ht | ht
  · exact ht.mem_subterms.imp .inl id
  · exact ht.mem_subterms.imp .inr id

lemma mem_near : t ∈ (finite_near h a b).toFinset ↔ h.Near a b t :=
  Set.Finite.mem_toFinset _

/-- The complements that a type reaches, among those near two types. -/
def complements (h : Heap) (a b t : TypeExpr) : Set TypeExpr :=
  {u | h.Near a b u ∧ u.isComplement = true ∧ h.Reaches t u}

/-- The layer of a type: the number of complements that it reaches. -/
noncomputable def layer (h : Heap) (a b t : TypeExpr) : Nat :=
  (h.complements a b t).ncard

lemma finite_complements : (h.complements a b t).Finite :=
  (finite_near h a b).subset fun _ hu => hu.1

lemma complements_subset (htu : h.Reaches t u) : h.complements a b u ⊆ h.complements a b t :=
  fun _ hv => ⟨hv.1, hv.2.1, htu.trans hv.2.2⟩

lemma layer_le (htu : h.Reaches t u) : h.layer a b u ≤ h.layer a b t :=
  Set.ncard_le_ncard (complements_subset htu) finite_complements

lemma layer_lt {m : Mark} {l r : TypeExpr} (hnear : h.Near a b (.complement m l r))
    (hright : ¬ h.Reaches r (.complement m l r)) :
    h.layer a b r < h.layer a b (.complement m l r) := by
  have hr : h.Reaches (.complement m l r) r :=
    Reaches.refl.part rfl (by simp [valueParts, TypeExpr.parts])
  refine Set.ncard_lt_ncard ⟨complements_subset hr, fun hsub => ?_⟩ finite_complements
  exact hright (hsub ⟨hnear, rfl, .refl⟩).2.2

lemma layer_eq_zero (hnone : ∀ u, h.Reaches t u → u.isComplement = false) :
    h.layer a b t = 0 := by
  have empty : h.complements a b t = ∅ := Set.eq_empty_of_forall_notMem fun u hu => by
    rw [complements, Set.mem_ofPred_eq, hnone u hu.2.2] at hu
    cases hu.2.1
  rw [layer, empty, Set.ncard_empty]

lemma Layered.layers (layered : h.Layered a b) :
    h.Layers (finite_near h a b).toFinset (h.layer a b) where
  part {t u} ht href hu := by
    have hu : u ∈ t.valueParts := by
      have direct := layered.direct t (mem_near.1 ht)
      cases t with
      | delegation => cases direct
      | _ => exact hu
    have htu : h.Reaches t u := Reaches.refl.part href hu
    exact ⟨mem_near.2 ((mem_near.1 ht).trans htu), layer_le htu⟩
  unfold {t} ht :=
    ⟨mem_near.2 ((mem_near.1 ht).trans (reaches_unfold t)), layer_le (reaches_unfold t)⟩
  direct ht := layered.direct _ (mem_near.1 ht)
  present ht := layered.present _ _ _ (mem_near.1 ht)
  right ht := layer_lt (mem_near.1 ht) (layered.right _ _ _ (mem_near.1 ht))
  constraint ht u _ := by
    rw [layer_eq_zero (layered.constraint _ _ _ _ (mem_near.1 ht))]
    exact Nat.zero_le _

end Heap

/-- Comparing two types terminates, both for subtyping and for overlap, if they are layered. -/
lemma Matcher.ending_of_layered {m : Matcher} {a b : TypeExpr} (layered : m.heap.Layered a b) :
    (Ending fun depth => m.isSubtype depth a b) ∧ Ending fun depth => m.overlaps depth a b := by
  have ha : a ∈ (m.heap.finite_near a b).toFinset := Heap.mem_near.2 (.inl .refl)
  have hb : b ∈ (m.heap.finite_near a b).toFinset := Heap.mem_near.2 (.inr .refl)
  obtain ⟨subtype, overlap⟩ := ending_relations layered.layers
    (m.heap.layer a b a + m.heap.layer a b b)
  exact ⟨subtype [] [] [] a ha b hb (Nat.le_refl _) Bounds.all_nil Bounds.all_nil,
    overlap [] a ha b hb (Nat.le_refl _)⟩

end TypeNotation
