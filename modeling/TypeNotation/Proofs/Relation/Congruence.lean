import TypeNotation.Proofs.Relation.Holds
import TypeNotation.Proofs.Resolution.Occurrences

/-!
# Equal types hold the same values

Equality of types does not look into the bodies of named types.  Where equal names with equal
arguments have equal bodies, equal types hold the same values nevertheless: on the way down from two
equal types, either the value gets lighter or both types get lower.
-/

namespace TypeNotation

open TypeExpr

/-! ## Parts of equal types -/

/-- Among constructors that are equal one by one, the same name is found. -/
lemma Tag.find?_alike {gs hs : List (Tag TypeExpr)}
    (h : List.Forall₂ (fun g h => g.name = h.name ∧ EachSame g.fields h.fields) gs hs)
    {name : String} {g : Tag TypeExpr} (hg : Tag.find? gs name = some g) :
    ∃ g', Tag.find? hs name = some g' ∧ EachSame g.fields g'.fields := by
  induction h with
  | nil => cases hg
  | @cons g₁ h₁ gs hs hgh _ ih =>
    simp only [Tag.find?, List.find?_cons] at hg ⊢
    by_cases hname : g₁.name = name
    · have hname' : h₁.name = name := hgh.1 ▸ hname
      simp only [hname, decide_true, Option.some.injEq] at hg
      subst hg
      exact ⟨h₁, by simp [hname'], hgh.2⟩
    · have hname' : h₁.name ≠ name := fun h => hname (hgh.1.trans h)
      simp only [hname, decide_false] at hg
      obtain ⟨g', hg', hsame⟩ := ih hg
      exact ⟨g', by simpa [Tag.find?, hname'] using hg', hsame⟩

namespace Parameter

/-- Inputs that are equal one by one. -/
abbrev EachAlike (ps qs : List (Parameter TypeExpr)) : Prop :=
  List.Forall₂ (fun p q => p.type.same q.type = true ∧ p.suffix = q.suffix) ps qs

variable {ps qs : List (Parameter TypeExpr)}

lemma least_congr (h : EachAlike ps qs) : least ps = least qs := by
  induction h with
  | nil => rfl
  | cons hpq _ ih => simp only [least, ih, hpq.2]

lemma getElem?_congr (h : EachAlike ps qs) {i : Nat} {p : Parameter TypeExpr}
    (hp : ps[i]? = some p) :
    ∃ q, qs[i]? = some q ∧ p.type.same q.type = true ∧ p.suffix = q.suffix := by
  induction h generalizing i with
  | nil => cases hp
  | @cons p₁ q₁ ps qs hpq _ ih =>
    cases i with
    | zero =>
      obtain rfl : p₁ = p := by simpa using hp
      exact ⟨q₁, rfl, hpq⟩
    | succ i => exact ih hp

lemma isVariadic_congr (h : EachAlike ps qs) : isVariadic ps = isVariadic qs := by
  simp only [isVariadic, List.getLast?_eq_getElem?, ← h.length_eq]
  cases hp : ps[ps.length - 1]? with
  | none =>
    rw [List.getElem?_eq_none_iff, h.length_eq, ← List.getElem?_eq_none_iff, ← h.length_eq] at hp
    rw [hp]
  | some p =>
    obtain ⟨q, hq, -, hsuffix⟩ := getElem?_congr h hp
    simp [hq, hsuffix]

lemma greatest?_congr (h : EachAlike ps qs) : greatest? ps = greatest? qs := by
  simp only [greatest?, isVariadic_congr h, h.length_eq]

/-- The inputs that receive an argument are equal. -/
lemma receiving?_congr (h : EachAlike ps qs) {i : Nat} {p : Parameter TypeExpr}
    (hp : receiving? ps i = some p) :
    ∃ q, receiving? qs i = some q ∧ p.type.same q.type = true := by
  simp only [receiving?, ← h.length_eq, ← isVariadic_congr h, List.getLast?_eq_getElem?] at hp ⊢
  by_cases hlt : i < ps.length
  · simp only [hlt, if_true] at hp ⊢
    obtain ⟨q, hq, hsame, -⟩ := getElem?_congr h hp
    exact ⟨q, hq, hsame⟩
  · simp only [hlt, if_false] at hp ⊢
    cases hvariadic : isVariadic ps with
    | false => simp [hvariadic] at hp
    | true =>
      simp only [hvariadic, if_true] at hp ⊢
      obtain ⟨q, hq, hsame, -⟩ := getElem?_congr h hp
      exact ⟨q, hq, hsame⟩

end Parameter

/-- Equal types unfold to equal types, if equal named types have equal bodies. -/
lemma Heap.Firm.unfold_same {h : Heap} {K : TypeExpr → Prop} {t u : TypeExpr} (firm : h.Firm K)
    (alike : ∀ {m m' name args args' b b'}, K (.named m name args) → K (.named m' name args') →
      EachSame args args' → h.body? m.stamp = some b → h.body? m'.stamp = some b' →
        b.same b' = true)
    (ht : K t) (hu : K u) (same : t.same u = true) : (h.unfold t).same (h.unfold u) = true := by
  obtain ⟨n, hn⟩ := firm.grounded ht
  induction n generalizing t u with
  | zero => exact hn.elim
  | succ n ih =>
    by_cases href : t.isReferring = true
    · obtain ⟨m, name, args, rfl⟩ := firm.referring ht href
      obtain ⟨m', name', args', rfl⟩ := firm.referring hu (isReferring_congr same ▸ href)
      obtain ⟨rfl, hargs⟩ : name = name' ∧ EachSame args args' := by
        cases alike_iff.2 same with
        | named hargs => exact ⟨rfl, hargs⟩
      obtain ⟨b, hb, hKb⟩ := firm.body ht
      obtain ⟨b', hb', hKb'⟩ := firm.body hu
      rw [(firm.grounded ht).unfold_named hb, (firm.grounded hu).unfold_named hb']
      exact ih hKb hKb' (alike ht hu hargs hb hb') (hn b (by simp [unguarded, hb]))
    · have href : t.isReferring = false := by simpa using href
      rw [unfold_of_not_referring href, unfold_of_not_referring (isReferring_congr same ▸ href)]
      exact same

/-- Equal types unfold to equal types. -/
lemma Heap.Concrete.unfold_same {h : Heap} {K : TypeExpr → Prop} {t u : TypeExpr}
    {classed : Prop} (concrete : h.Concrete K classed) (ht : K t) (hu : K u)
    (same : t.same u = true) :
    (h.unfold t).same (h.unfold u) = true :=
  concrete.toFirm.unfold_same concrete.alike ht hu same

/-! ## Congruence -/

namespace Matcher

variable {m : Matcher} {K : TypeExpr → Prop} {classed : Prop} {t u : TypeExpr} {v : Value}

lemma Admits.congr {fields fields' : List (Field TypeExpr)} (h : m.Admits v fields)
    (names : ∀ name, name ∈ Field.names fields ↔ name ∈ Field.names fields') :
    m.Admits v fields' :=
  h.imp_right fun hlisted own hown name => (hlisted own hown name).trans (names name)

/-- Equal types hold a value alike if they do so for lighter values and lower types. -/
lemma holds_of_same_step (concrete : m.heap.Concrete K classed) (ordinary : v.Ordinary classed)
    (ht : K t) (hu : K u) (same : t.same u = true)
    (lighter : ∀ w ∈ v.components, ∀ {x y}, K x → K y → x.same y = true →
      (m.Holds w x → m.Holds w y))
    (lower : ∀ {x y}, K x → K y → x.same y = true → m.heap.height x < m.heap.height t →
      m.heap.height y < m.heap.height u → (m.Holds v x ↔ m.Holds v y))
    (hv : m.Holds v t) : m.Holds v u := by
  have partOf (href : t.isReferring = false) {x : TypeExpr} (hx : x ∈ t.valueParts) : K x :=
    concrete.part ht href hx
  have partOf' (href : u.isReferring = false) {y : TypeExpr} (hy : y ∈ u.valueParts) : K y :=
    concrete.part hu href hy
  have below {x : TypeExpr} (hx : x ∈ m.heap.unguarded t) : m.heap.height x < m.heap.height t :=
    (concrete.grounded ht).height_lt hx
  have below' {y : TypeExpr} (hy : y ∈ m.heap.unguarded u) : m.heap.height y < m.heap.height u :=
    (concrete.grounded hu).height_lt hy
  cases alike_iff.2 same with
  | @number x y hxy =>
    obtain ⟨p, x, rfl⟩ := concrete.number ht
    obtain ⟨q, y, rfl⟩ := concrete.number hu
    obtain ⟨z, rfl, hz⟩ := holds_number.1 hv
    have hplace : x.place = y.place := by simpa [Numeral.same, Number.same] using hxy
    have hzx : z.place = x.place := by simpa [Number.same] using hz
    exact holds_number.2 ⟨z, rfl, by simp [Number.same, hzx, hplace]⟩
  | interval hl hh =>
    obtain ⟨p, q, x, y, rfl, rfl, -, -⟩ := concrete.interval ht
    obtain ⟨p', q', x', y', rfl, rfl, -, -⟩ := concrete.interval hu
    obtain ⟨z, rfl, hz⟩ := holds_interval.1 hv
    have hx : x.place = x'.place := by simpa [Numeral.same, Number.same] using hl
    have hy : y.place = y'.place := by simpa [Numeral.same, Number.same] using hh
    exact holds_interval.2 ⟨z, rfl, hz.place, hx ▸ hz.low, hy ▸ hz.high⟩
  | unit => exact holds_unit.2 (holds_unit.1 hv)
  | primitive => exact holds_primitive.2 (holds_primitive.1 hv)
  | tuple hitems =>
    obtain ⟨vs, hvs, hall⟩ := (holds_tuple concrete ordinary ht).1 hv
    refine (holds_tuple concrete ordinary hu).2 ⟨vs, hvs, ?_⟩
    exact forall₂_trans_mem hall hitems fun w hw x hx y hy h hxy =>
      lighter w (Value.mem_components_of_sequence hvs hw) (partOf rfl hx) (partOf' rfl hy) hxy h
  | list hmembers =>
    obtain ⟨vs, hvs, hall⟩ := (holds_list concrete ordinary ht).1 hv
    refine (holds_list concrete ordinary hu).2 ⟨vs, hvs, fun w hw => ?_⟩
    obtain ⟨x, hx, hwx⟩ := hall w hw
    obtain ⟨y, hy, hxy⟩ := exists_right_of_matchAll (rectangular_same _ _) hmembers hx
    exact ⟨y, hy, lighter w (Value.mem_components_of_sequence hvs hw) (partOf rfl hx)
      (partOf' rfl hy) hxy hwx⟩
  | @record _ _ fields fields' hfields =>
    obtain ⟨entries, hentries, hadmits, hall⟩ := (holds_record concrete ordinary ht).1 hv
    have hleft {g} (hg : g ∈ fields') :=
      exists_left_of_matchAll (rectangular_sameField _ _) hfields hg
    simp only [sameField, Bool.and_eq_true, decide_eq_true_eq] at hleft
    refine (holds_record concrete ordinary hu).2
      ⟨entries, hentries, hadmits.congr (Field.mem_names_congr hfields), fun g hg => ?_⟩
    obtain ⟨f, hf, hname, hfg⟩ := hleft hg
    obtain ⟨w, hw, hwf⟩ := hall f hf
    have own := concrete.ends.own ht ordinary hf
    exact ⟨w, hname ▸ hw, lighter w (Value.mem_components_of_entry hentries own hw)
      (partOf rfl (List.mem_map_of_mem hf)) (partOf' rfl (List.mem_map_of_mem hg)) hfg hwf⟩
  | @function _ _ inputs inputs' _ _ hinputs =>
    have takes : ∀ p ∈ inputs, K p.type := fun p hp =>
      partOf rfl (List.mem_append_left _ (List.mem_map_of_mem hp))
    have takes' : ∀ p ∈ inputs', K p.type := fun p hp =>
      partOf' rfl (List.mem_append_left _ (List.mem_map_of_mem hp))
    rcases call_or_callable_of_holds hv with ⟨arguments, rfl⟩ | ⟨slots, rfl⟩
    · have among {w : Value} (hw : w ∈ arguments) : w ∈ (Value.call arguments).components := by
        simp [Value.components, hw]
      have passed : ∀ w ∈ arguments, w.Ordinary classed := fun w hw => ordinary.component (among hw)
      obtain ⟨hrange, hall⟩ := (holds_call concrete passed takes).1 hv
      rw [Parameter.least_congr hinputs, Parameter.greatest?_congr hinputs] at hrange
      refine (holds_call concrete passed takes').2 ⟨hrange, fun x hx => ?_⟩
      obtain ⟨p, hp, hxp⟩ := hall x hx
      obtain ⟨q, hq, hpq⟩ := Parameter.receiving?_congr hinputs hp
      exact ⟨q, hq, lighter x.1 (among (List.fst_mem_of_mem_zipIdx hx))
        (takes p (mem_of_receiving? hp)) (takes' q (mem_of_receiving? hq)) hpq hxp⟩
    · obtain ⟨known, hknown, hcounts⟩ := holds_callable.1 hv
      rw [Parameter.least_congr hinputs, Parameter.greatest?_congr hinputs] at hcounts
      exact holds_callable.2 ⟨known, hknown, hcounts⟩
  | tagged hgs =>
    obtain ⟨tag, vs, g, hvs, hg, hall⟩ := (holds_tagged concrete ordinary ht).1 hv
    obtain ⟨g', hg', hsame⟩ := Tag.find?_alike hgs hg
    refine (holds_tagged concrete ordinary hu).2 ⟨tag, vs, g', hvs, hg', ?_⟩
    exact forall₂_trans_mem hall hsame fun w hw x hx y hy h hxy =>
      lighter w (Value.mem_components_of_tagged hvs hw)
        (partOf rfl (List.mem_flatMap.2 ⟨g, List.mem_of_find?_eq_some hg, hx⟩))
        (partOf' rfl (List.mem_flatMap.2 ⟨g', List.mem_of_find?_eq_some hg', hy⟩)) hxy h
  | @union _ _ left left' right right' hl hr =>
    have left := lower (partOf rfl (by simp [valueParts, parts]))
      (partOf' rfl (by simp [valueParts, parts])) hl (below (by simp [Heap.unguarded]))
      (below' (by simp [Heap.unguarded]))
    have right := lower (partOf rfl (by simp [valueParts, parts]))
      (partOf' rfl (by simp [valueParts, parts])) hr (below (by simp [Heap.unguarded]))
      (below' (by simp [Heap.unguarded]))
    rw [holds_union concrete ordinary ht, left, right] at hv
    exact (holds_union concrete ordinary hu).2 hv
  | @complement _ _ left left' right right' hl hr =>
    have left := lower (partOf rfl (by simp [valueParts, parts]))
      (partOf' rfl (by simp [valueParts, parts])) hl (below (by simp [Heap.unguarded]))
      (below' (by simp [Heap.unguarded]))
    have right := lower (partOf rfl (by simp [valueParts, parts]))
      (partOf' rfl (by simp [valueParts, parts])) hr (below (by simp [Heap.unguarded]))
      (below' (by simp [Heap.unguarded]))
    rw [holds_complement concrete ordinary ht, left, right] at hv
    exact (holds_complement concrete ordinary hu).2 hv
  | delegation hb =>
    have base := lower (partOf rfl (by simp [valueParts])) (partOf' rfl (by simp [valueParts])) hb
      (below (by simp [Heap.unguarded])) (below' (by simp [Heap.unguarded]))
    rw [holds_delegation, base] at hv
    exact holds_delegation.2 hv
  | named =>
    obtain ⟨b, hb, -⟩ := concrete.body ht
    obtain ⟨b', hb', -⟩ := concrete.body hu
    rw [holds_named] at hv ⊢
    exact (lower (concrete.unfold ht) (concrete.unfold hu) (concrete.unfold_same ht hu same)
      ((concrete.grounded ht).height_unfold_lt hb)
      ((concrete.grounded hu).height_unfold_lt hb')).1 hv
  | reference | predicate | typeVariable | deferred => cases concrete.concrete ht

/-- Equal types hold the same ordinary values. -/
lemma holds_congr (concrete : m.heap.Concrete K classed) (ht : K t) (hu : K u)
    (same : t.same u = true) {v : Value} (ordinary : v.Ordinary classed) :
    m.Holds v t ↔ m.Holds v u := by
  -- by the weight of the value, and for each value by the height of one of the types
  induction hn : v.weight using Nat.strong_induction_on generalizing v t u with
  | _ n byWeight =>
    have lighter : ∀ w ∈ v.components, ∀ {x y}, K x → K y → x.same y = true →
        (m.Holds w x → m.Holds w y) := fun w hw x y hx hy hxy =>
      (byWeight w.weight (hn ▸ Value.weight_lt_of_mem_components hw) hx hy hxy
        (ordinary.component hw) rfl).1
    clear byWeight
    induction hk : m.heap.height t using Nat.strong_induction_on generalizing t u with
    | _ k byHeight =>
      have lower {x y : TypeExpr} (hx : K x) (hy : K y) (hxy : x.same y = true)
          (hlt : m.heap.height x < m.heap.height t) : m.Holds v x ↔ m.Holds v y :=
        byHeight (m.heap.height x) (hk ▸ hlt) hx hy hxy rfl
      constructor
      · exact holds_of_same_step concrete ordinary ht hu same lighter fun hx hy hxy hlt _ =>
          lower hx hy hxy hlt
      · exact holds_of_same_step concrete ordinary hu ht
          (same_symm same) lighter fun hx hy hxy _ hlt =>
          (lower hy hx (same_symm hxy) hlt).symm

end Matcher

end TypeNotation
