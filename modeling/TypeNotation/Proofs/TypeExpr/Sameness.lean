import TypeNotation.Declaration
import TypeNotation.Proofs.TypeExpr.Matching
import TypeNotation.Proofs.TypeExpr.Parts

/-!
# Equality of types is an equivalence

Memoized expansions are found up to equality of types, so everything that is said of an expansion
must be said of all types equal to it.  `Alike` lists what it means for two nodes to be equal, kind
by kind.  From it symmetry and transitivity follow together by induction on the size of types:
greedy matching of members needs both for the members.
-/

namespace TypeNotation

namespace Numeral

lemma same_self (x : Numeral) : x.same x = true := by
  induction x with
  | literal _ v => exact v.same_refl
  | power _ b e hb he => simp [same, hb, he]

lemma same_comm (x y : Numeral) : x.same y = y.same x := by
  induction x generalizing y with
  | literal _ v =>
    cases y with
    | literal _ w => exact v.same_comm w
    | power => rfl
  | power _ b e hb he =>
    cases y with
    | literal => rfl
    | power _ b' e' => simp only [same, hb b', he e']

lemma same_trans {x y z : Numeral} (hxy : x.same y = true) (hyz : y.same z = true) :
    x.same z = true := by
  induction x generalizing y z with
  | literal _ u =>
    cases y <;> cases z <;> simp_all [same, Number.same]
  | power _ b e hb he =>
    cases y with
    | literal => simp [same] at hxy
    | power _ b' e' =>
      cases z with
      | literal => simp [same] at hyz
      | power _ b'' e'' =>
        simp only [same, Bool.and_eq_true] at hxy hyz ⊢
        exact ⟨hb hxy.1 hyz.1, he hxy.2 hyz.2⟩

end Numeral

namespace TypeExpr

/-! ## Equality of lists -/

/-- Types that are equal one by one. -/
abbrev EachSame : List TypeExpr → List TypeExpr → Prop :=
  List.Forall₂ fun t u => t.same u = true

lemma sameAll_iff {ts us : List TypeExpr} :
    sameAll ts us = true ↔ EachSame ts us := by
  induction ts generalizing us with
  | nil => cases us <;> simp [sameAll]
  | cons t ts ih => cases us <;> simp [sameAll, ih]

lemma sameMembers_eq (ts us : List TypeExpr) : sameMembers ts us = matchAll same ts us := by
  induction ts generalizing us with
  | nil => simp only [sameMembers, matchAll]
  | cons t ts ih =>
    rw [sameMembers, matchAll]
    cases us.findIdx? fun t' => t.same t' with
    | none => rfl
    | some i => exact ih _

/-- Fields of the same name with equal types. -/
def sameField (f g : Field TypeExpr) : Bool :=
  f.name = g.name && f.type.same g.type

lemma sameFields_eq (fs gs : List (Field TypeExpr)) :
    sameFields fs gs = matchAll sameField fs gs := by
  induction fs generalizing gs with
  | nil => simp only [sameFields, matchAll]
  | cons f fs ih =>
    obtain ⟨name, t⟩ := f
    have test : sameField ⟨name, t⟩ = fun g => name = g.name && t.same g.type := rfl
    rw [sameFields, matchAll, test]
    cases gs.findIdx? fun g => name = g.name && t.same g.type with
    | none => rfl
    | some i => exact ih _

lemma sameInputs_iff {ps qs : List (Parameter TypeExpr)} :
    sameInputs ps qs = true ↔
      List.Forall₂ (fun p q => p.type.same q.type = true ∧ p.suffix = q.suffix) ps qs := by
  induction ps generalizing qs with
  | nil => cases qs <;> simp [sameInputs]
  | cons p ps ih =>
    obtain ⟨t, suffix, position⟩ := p
    rcases qs with _ | ⟨⟨t', suffix', position'⟩, qs⟩ <;> simp [sameInputs, ih]

lemma sameTags_iff {gs hs : List (Tag TypeExpr)} :
    sameTags gs hs = true ↔
      List.Forall₂ (fun g h => g.name = h.name ∧ sameAll g.fields h.fields = true) gs hs := by
  induction gs generalizing hs with
  | nil => cases hs <;> simp [sameTags]
  | cons g gs ih =>
    obtain ⟨name, fields⟩ := g
    rcases hs with _ | ⟨⟨name', fields'⟩, hs⟩ <;> simp [sameTags, ih]

/-! ## Equality of nodes -/

/-- What equality of types looks into: the parts of a node and, other than for the parts, the target
and the bindings of a suspension.  Numerals are compared as a whole. -/
def components : TypeExpr → List TypeExpr
  | number _ | interval .. => []
  | deferred _ target bindings => target :: bindings.map (·.type)
  | t => t.parts

lemma sizeOf_lt_of_mem_components {t u : TypeExpr} (h : u ∈ t.components) :
    sizeOf u < sizeOf t := by
  cases t with
  | number | interval => simp [components] at h
  | deferred m target bindings =>
    simp only [components, List.mem_cons, List.mem_map] at h
    rcases h with rfl | ⟨f, hf, rfl⟩
    · simp
      omega
    · have := sizeOf_type_lt_of_mem_fields hf
      simp
      omega
  | _ => exact sizeOf_lt_of_mem_parts h

/-- Equal types are of the same kind and equal in what they hold. -/
inductive Alike : TypeExpr → TypeExpr → Prop
  | number {x y} (h : x.same y = true) : Alike (number x) (number y)
  | interval {m m' low high low' high'} (hl : low.same low' = true) (hh : high.same high' = true) :
    Alike (interval m low high) (interval m' low' high')
  | unit {m m'} : Alike (unit m) (unit m')
  | primitive {m m' name} : Alike (primitive m name) (primitive m' name)
  | tuple {m m' items items'} (h : EachSame items items') :
    Alike (tuple m items) (tuple m' items')
  | list {m m' members members'} (h : matchAll same members members' = true) :
    Alike (list m members) (list m' members')
  | record {m m' fields fields'} (h : matchAll sameField fields fields' = true) :
    Alike (record m fields) (record m' fields')
  | function {m m' inputs inputs' outputs outputs'}
    (hi : List.Forall₂ (fun p q => p.type.same q.type = true ∧ p.suffix = q.suffix) inputs inputs')
    (ho : EachSame outputs outputs') :
    Alike (function m inputs outputs) (function m' inputs' outputs')
  | delegation {m m' base base' targets targets'} (hb : base.same base' = true)
    (ht : EachSame targets targets') :
    Alike (delegation m base targets) (delegation m' base' targets')
  | predicate {m m' constraint constraint' body body' listed listed'}
    (hc : constraint.same constraint' = true) (hb : body.same body' = true)
    (hl : listed.map (·.var) = listed'.map (·.var)) :
    Alike (predicate m constraint body listed) (predicate m' constraint' body' listed')
  | tagged {m m' tags tags'}
    (h : List.Forall₂ (fun g h => g.name = h.name ∧
      EachSame g.fields h.fields) tags tags') :
    Alike (tagged m tags) (tagged m' tags')
  | union {m m' left left' right right'} (hl : left.same left' = true)
    (hr : right.same right' = true) : Alike (union m left right) (union m' left' right')
  | complement {m m' left left' right right'} (hl : left.same left' = true)
    (hr : right.same right' = true) : Alike (complement m left right) (complement m' left' right')
  | reference {m m' name args args'} (h : EachSame args args') :
    Alike (reference m name args) (reference m' name args')
  | typeVariable {m m' v} : Alike (typeVariable m v) (typeVariable m' v)
  | named {m m' name args args'} (h : EachSame args args') :
    Alike (named m name args) (named m' name args')
  | deferred {m m' target target' bindings bindings'} (ht : target.same target' = true)
    (hb : matchAll sameField bindings bindings' = true) :
    Alike (deferred m target bindings) (deferred m' target' bindings')

lemma alike_iff {t u : TypeExpr} : Alike t u ↔ t.same u = true := by
  constructor
  · intro h
    cases h <;>
      simp_all [same, sameAll_iff, sameMembers_eq, sameFields_eq, sameInputs_iff, sameTags_iff]
  · intro h
    cases t <;> cases u <;>
      simp only [same, sameAll_iff, sameMembers_eq, sameFields_eq, sameInputs_iff, sameTags_iff,
        Bool.and_eq_true, decide_eq_true_eq, Bool.false_eq_true] at h
    case number => exact .number h
    case interval => exact .interval h.1 h.2
    case unit => exact .unit
    case primitive => exact h ▸ .primitive
    case tuple => exact .tuple h
    case list => exact .list h
    case record => exact .record h
    case function => exact .function h.1 h.2
    case delegation => exact .delegation h.1 h.2
    case predicate => exact .predicate h.1.1 h.1.2 h.2
    case tagged => exact .tagged h
    case union => exact .union h.1 h.2
    case complement => exact .complement h.1 h.2
    case reference => exact h.1 ▸ .reference h.2
    case typeVariable => exact h ▸ .typeVariable
    case named => exact h.1 ▸ .named h.2
    case deferred => exact .deferred h.1 h.2

/-! ## Symmetry and transitivity -/

/-- A set of types on which equality is symmetric and transitive. -/
structure EquivalenceOn (S : TypeExpr → Prop) : Prop where
  comm : ∀ {t u}, S t → S u → t.same u = u.same t
  trans : ∀ {t u v}, S t → S u → S v → t.same u = true → u.same v = true → t.same v = true

namespace EquivalenceOn

variable {S : TypeExpr → Prop} (h : EquivalenceOn S)
include h

lemma rectangular {ts us : List TypeExpr} (ht : ∀ t ∈ ts, S t) (hu : ∀ u ∈ us, S u) :
    Rectangular same ts us := by
  intro t mt t' mt' u mu u' mu' h₁ h₂ h₃
  rw [h.comm (ht t mt) (hu u mu)] at h₁
  exact h.trans (ht t' mt') (hu u mu) (hu u' mu') h₃
    (h.trans (hu u mu) (ht t mt) (hu u' mu') h₁ h₂)

lemma rectangular_fields {fs gs : List (Field TypeExpr)} (hf : ∀ f ∈ fs, S f.type)
    (hg : ∀ g ∈ gs, S g.type) : Rectangular sameField fs gs := by
  intro f mf f' mf' g mg g' mg' h₁ h₂ h₃
  simp only [sameField, Bool.and_eq_true, decide_eq_true_eq] at h₁ h₂ h₃ ⊢
  refine ⟨by rw [h₃.1, ← h₁.1, h₂.1], ?_⟩
  have h₁' := h₁.2
  rw [h.comm (hf f mf) (hg g mg)] at h₁'
  exact h.trans (hf f' mf') (hg g mg) (hg g' mg') h₃.2
    (h.trans (hg g mg) (hf f mf) (hg g' mg') h₁' h₂.2)

lemma forall₂_comm {ts us : List TypeExpr} (ht : ∀ t ∈ ts, S t) (hu : ∀ u ∈ us, S u)
    (htu : EachSame ts us) :
    EachSame us ts :=
  (forall₂_imp_mem (S := flip fun t u => t.same u = true) htu fun t mt u mu e => by
    rw [flip, h.comm (hu u mu) (ht t mt)]
    exact e).flip

lemma forall₂_trans {ts us vs : List TypeExpr} (ht : ∀ t ∈ ts, S t) (hu : ∀ u ∈ us, S u)
    (hv : ∀ v ∈ vs, S v) (htu : EachSame ts us)
    (huv : EachSame us vs) :
    EachSame ts vs :=
  forall₂_trans_mem htu huv fun t mt u mu v mv => h.trans (ht t mt) (hu u mu) (hv v mv)

lemma fields_comm {fs gs : List (Field TypeExpr)} (hf : ∀ f ∈ fs, S f.type)
    (hg : ∀ g ∈ gs, S g.type) (hfg : matchAll sameField fs gs = true) :
    matchAll sameField gs fs = true := by
  rw [← hfg]
  refine (matchAll_swap (h.rectangular_fields hf hg) fun f mf g mg => ?_).symm
  simp only [sameField, h.comm (hf f mf) (hg g mg), eq_comm (a := f.name)]

lemma fields_trans {es fs gs : List (Field TypeExpr)} (he : ∀ e ∈ es, S e.type)
    (hf : ∀ f ∈ fs, S f.type) (hg : ∀ g ∈ gs, S g.type) (hef : matchAll sameField es fs = true)
    (hfg : matchAll sameField fs gs = true) : matchAll sameField es gs = true := by
  refine matchAll_trans (h.rectangular_fields he hf) (h.rectangular_fields hf hg)
    (h.rectangular_fields he hg) (fun e me f mf g mg h₁ h₂ => ?_) hef hfg
  simp only [sameField, Bool.and_eq_true, decide_eq_true_eq] at h₁ h₂ ⊢
  exact ⟨h₁.1.trans h₂.1, h.trans (he e me) (hf f mf) (hg g mg) h₁.2 h₂.2⟩

/-- Equality is symmetric one level up. -/
lemma alike_comm {t u : TypeExpr} (ht : ∀ c ∈ t.components, S c) (hu : ∀ c ∈ u.components, S c)
    (htu : Alike t u) : Alike u t := by
  cases htu with
  | number e => exact .number (by rwa [Numeral.same_comm])
  | interval hl hh => exact .interval (by rwa [Numeral.same_comm]) (by rwa [Numeral.same_comm])
  | unit => exact .unit
  | primitive => exact .primitive
  | tuple e => exact .tuple (h.forall₂_comm ht hu e)
  | list e =>
    refine .list ?_
    rw [← e]
    exact (matchAll_swap (h.rectangular ht hu) fun t mt u mu => h.comm (ht t mt) (hu u mu)).symm
  | record e =>
    simp only [components, parts, List.forall_mem_map] at ht hu
    exact .record (h.fields_comm ht hu e)
  | function hi ho =>
    simp only [components, parts, List.forall_mem_append, List.forall_mem_map] at ht hu
    refine .function (forall₂_imp_mem (S := flip _) hi fun p mp q mq e => ?_).flip
      (h.forall₂_comm ht.2 hu.2 ho)
    exact ⟨by rw [h.comm (hu.1 q mq) (ht.1 p mp)]; exact e.1, e.2.symm⟩
  | delegation hb hts =>
    simp only [components, parts, List.forall_mem_cons] at ht hu
    exact .delegation (by rw [h.comm hu.1 ht.1]; exact hb) (h.forall₂_comm ht.2 hu.2 hts)
  | predicate hc hb hl =>
    simp only [components, parts, List.forall_mem_cons] at ht hu
    exact .predicate (by rw [h.comm hu.1 ht.1]; exact hc) (by rw [h.comm hu.2.1 ht.2.1]; exact hb)
      hl.symm
  | tagged e =>
    simp only [components, parts, List.mem_flatMap, forall_exists_index, and_imp] at ht hu
    refine .tagged (forall₂_imp_mem (S := flip _) e fun g mg k mk e => ?_).flip
    exact ⟨e.1.symm, h.forall₂_comm (fun t => ht t g mg) (fun u => hu u k mk) e.2⟩
  | union hl hr =>
    simp only [components, parts, List.forall_mem_cons] at ht hu
    exact .union (by rw [h.comm hu.1 ht.1]; exact hl) (by rw [h.comm hu.2.1 ht.2.1]; exact hr)
  | complement hl hr =>
    simp only [components, parts, List.forall_mem_cons] at ht hu
    exact .complement (by rw [h.comm hu.1 ht.1]; exact hl) (by rw [h.comm hu.2.1 ht.2.1]; exact hr)
  | reference e => exact .reference (h.forall₂_comm ht hu e)
  | typeVariable => exact .typeVariable
  | named e => exact .named (h.forall₂_comm ht hu e)
  | deferred e hb =>
    simp only [components, List.forall_mem_cons, List.forall_mem_map] at ht hu
    exact .deferred (by rw [h.comm hu.1 ht.1]; exact e) (h.fields_comm ht.2 hu.2 hb)

/-- Equality is transitive one level up. -/
lemma alike_trans {t u v : TypeExpr} (ht : ∀ c ∈ t.components, S c)
    (hu : ∀ c ∈ u.components, S c) (hv : ∀ c ∈ v.components, S c) (htu : Alike t u)
    (huv : Alike u v) : Alike t v := by
  cases htu with
  | number e => cases huv with | number e' => exact .number (Numeral.same_trans e e')
  | interval hl hh =>
    cases huv with
    | interval hl' hh' => exact .interval (Numeral.same_trans hl hl') (Numeral.same_trans hh hh')
  | unit => cases huv; exact .unit
  | primitive => cases huv; exact .primitive
  | tuple e => cases huv with | tuple e' => exact .tuple (h.forall₂_trans ht hu hv e e')
  | list e =>
    cases huv with
    | list e' =>
      exact .list (matchAll_trans (h.rectangular ht hu) (h.rectangular hu hv)
        (h.rectangular ht hv)
        (fun t mt u mu v mv => h.trans (ht t mt) (hu u mu) (hv v mv)) e e')
  | record e =>
    cases huv with
    | record e' =>
      simp only [components, parts, List.forall_mem_map] at ht hu hv
      exact .record (h.fields_trans ht hu hv e e')
  | function hi ho =>
    cases huv with
    | function hi' ho' =>
      simp only [components, parts, List.forall_mem_append, List.forall_mem_map] at ht hu hv
      refine .function (forall₂_trans_mem hi hi' fun p mp q mq r mr e e' => ?_)
        (h.forall₂_trans ht.2 hu.2 hv.2 ho ho')
      exact ⟨h.trans (ht.1 p mp) (hu.1 q mq) (hv.1 r mr) e.1 e'.1, e.2.trans e'.2⟩
  | delegation hb hts =>
    cases huv with
    | delegation hb' hts' =>
      simp only [components, parts, List.forall_mem_cons] at ht hu hv
      exact .delegation (h.trans ht.1 hu.1 hv.1 hb hb') (h.forall₂_trans ht.2 hu.2 hv.2 hts hts')
  | predicate hc hb hl =>
    cases huv with
    | predicate hc' hb' hl' =>
      simp only [components, parts, List.forall_mem_cons] at ht hu hv
      exact .predicate (h.trans ht.1 hu.1 hv.1 hc hc') (h.trans ht.2.1 hu.2.1 hv.2.1 hb hb')
        (hl.trans hl')
  | tagged e =>
    cases huv with
    | tagged e' =>
      simp only [components, parts, List.mem_flatMap, forall_exists_index, and_imp] at ht hu hv
      refine .tagged (forall₂_trans_mem e e' fun g mg k mk l ml e e' => ?_)
      exact ⟨e.1.trans e'.1, h.forall₂_trans (fun t => ht t g mg) (fun u => hu u k mk)
        (fun v => hv v l ml) e.2 e'.2⟩
  | union hl hr =>
    cases huv with
    | union hl' hr' =>
      simp only [components, parts, List.forall_mem_cons] at ht hu hv
      exact .union (h.trans ht.1 hu.1 hv.1 hl hl') (h.trans ht.2.1 hu.2.1 hv.2.1 hr hr')
  | complement hl hr =>
    cases huv with
    | complement hl' hr' =>
      simp only [components, parts, List.forall_mem_cons] at ht hu hv
      exact .complement (h.trans ht.1 hu.1 hv.1 hl hl') (h.trans ht.2.1 hu.2.1 hv.2.1 hr hr')
  | reference e =>
    cases huv with | reference e' => exact .reference (h.forall₂_trans ht hu hv e e')
  | typeVariable => cases huv; exact .typeVariable
  | named e => cases huv with | named e' => exact .named (h.forall₂_trans ht hu hv e e')
  | deferred e hb =>
    cases huv with
    | deferred e' hb' =>
      simp only [components, List.forall_mem_cons, List.forall_mem_map] at ht hu hv
      exact .deferred (h.trans ht.1 hu.1 hv.1 e e') (h.fields_trans ht.2 hu.2 hv.2 hb hb')

end EquivalenceOn

lemma equivalenceOn_smaller (n : Nat) : EquivalenceOn fun t => sizeOf t < n := by
  induction n with
  | zero => exact ⟨fun h => absurd h (Nat.not_lt_zero _), fun h => absurd h (Nat.not_lt_zero _)⟩
  | succ n ih =>
    have smaller : ∀ t : TypeExpr, sizeOf t < n + 1 → ∀ c ∈ t.components, sizeOf c < n :=
      fun t ht c hc => by have := sizeOf_lt_of_mem_components hc; omega
    constructor
    · intro t u ht hu
      rw [Bool.eq_iff_iff, ← alike_iff, ← alike_iff]
      exact ⟨ih.alike_comm (smaller t ht) (smaller u hu), ih.alike_comm (smaller u hu)
        (smaller t ht)⟩
    · intro t u v ht hu hv htu huv
      rw [← alike_iff] at htu huv ⊢
      exact ih.alike_trans (smaller t ht) (smaller u hu) (smaller v hv) htu huv

lemma equivalenceOn_all : EquivalenceOn fun _ => True where
  comm {t u} _ _ :=
    (equivalenceOn_smaller (max (sizeOf t) (sizeOf u) + 1)).comm (by omega) (by omega)
  trans {t u v} _ _ _ :=
    (equivalenceOn_smaller (max (sizeOf t) (max (sizeOf u) (sizeOf v)) + 1)).trans
      (by omega) (by omega) (by omega)

lemma same_comm (t u : TypeExpr) : t.same u = u.same t :=
  equivalenceOn_all.comm trivial trivial

lemma same_symm {t u : TypeExpr} (h : t.same u = true) : u.same t = true := by
  rwa [same_comm]

lemma same_trans {t u v : TypeExpr} : t.same u = true → u.same v = true → t.same v = true :=
  equivalenceOn_all.trans trivial trivial trivial

/-- Equal types are equal to the same types. -/
lemma same_congr {t t' : TypeExpr} (h : t.same t' = true) (u : TypeExpr) :
    t.same u = t'.same u := by
  rw [Bool.eq_iff_iff]
  exact ⟨same_trans (same_symm h), same_trans h⟩

lemma rectangular_same (ts us : List TypeExpr) : Rectangular same ts us :=
  equivalenceOn_all.rectangular (fun _ _ => trivial) fun _ _ => trivial

lemma rectangular_sameField (fs gs : List (Field TypeExpr)) : Rectangular sameField fs gs :=
  equivalenceOn_all.rectangular_fields (fun _ _ => trivial) fun _ _ => trivial

lemma matchAll_same {ts us : List TypeExpr} (h : EachSame ts us) : matchAll same ts us = true :=
  (matchAll_iff (rectangular_same ts us)).2 ⟨us, h, .refl us⟩

lemma matchAll_sameField {fs gs : List (Field TypeExpr)}
    (h : List.Forall₂ (fun f g => f.name = g.name ∧ f.type.same g.type = true) fs gs) :
    matchAll sameField fs gs = true :=
  (matchAll_iff (rectangular_sameField fs gs)).2 ⟨gs, h.imp fun _ _ e => by
    simp [sameField, e.1, e.2], .refl gs⟩

/-! ## Reflexivity -/

lemma same_self (t : TypeExpr) : t.same t = true := by
  have h : ∀ c ∈ t.components, c.same c = true := fun c _hc => same_self c
  have each : ∀ {ts : List TypeExpr}, (∀ c ∈ ts, c.same c = true) → EachSame ts ts :=
    fun hts => List.forall₂_same.2 hts
  have fields : ∀ {fs : List (Field TypeExpr)}, (∀ f ∈ fs, f.type.same f.type = true) →
      matchAll sameField fs fs = true :=
    fun hfs => matchAll_sameField (List.forall₂_same.2 fun f hf => ⟨rfl, hfs f hf⟩)
  rw [← alike_iff]
  cases t with
  | number x => exact .number x.same_self
  | interval _ low high => exact .interval low.same_self high.same_self
  | unit => exact .unit
  | primitive => exact .primitive
  | tuple => exact .tuple (each h)
  | list => exact .list (matchAll_same (each h))
  | record =>
    simp only [components, parts, List.forall_mem_map] at h
    exact .record (fields h)
  | function =>
    simp only [components, parts, List.forall_mem_append, List.forall_mem_map] at h
    exact .function (List.forall₂_same.2 fun p hp => ⟨h.1 p hp, rfl⟩) (each h.2)
  | delegation =>
    simp only [components, parts, List.forall_mem_cons] at h
    exact .delegation h.1 (each h.2)
  | predicate =>
    simp only [components, parts, List.forall_mem_cons] at h
    exact .predicate h.1 h.2.1 rfl
  | tagged =>
    simp only [components, parts, List.mem_flatMap, forall_exists_index, and_imp] at h
    exact .tagged (List.forall₂_same.2 fun g hg => ⟨rfl, each fun c hc => h c g hg hc⟩)
  | union =>
    simp only [components, parts, List.forall_mem_cons] at h
    exact .union h.1 h.2.1
  | complement =>
    simp only [components, parts, List.forall_mem_cons] at h
    exact .complement h.1 h.2.1
  | reference => exact .reference (each h)
  | typeVariable => exact .typeVariable
  | named => exact .named (each h)
  | deferred =>
    simp only [components, List.forall_mem_cons, List.forall_mem_map] at h
    exact .deferred h.1 (fields h.2)
termination_by sizeOf t
decreasing_by exact sizeOf_lt_of_mem_components _hc

lemma eachSame_self (ts : List TypeExpr) : EachSame ts ts :=
  List.forall₂_same.2 fun t _ => same_self t

/-! ## Members without repetitions -/

/-- Add a member to those that are kept, unless it repeats one of them. -/
def keep (kept : List TypeExpr) (t : TypeExpr) : List TypeExpr :=
  if kept.any (fun k => t.same k) then kept else kept ++ [t]

lemma withoutRepeats_eq (ts : List TypeExpr) : withoutRepeats ts = ts.foldl keep [] := rfl

lemma keep_congr {kept kept' : List TypeExpr} {t t' : TypeExpr} (hk : EachSame kept kept')
    (h : t.same t' = true) : EachSame (keep kept t) (keep kept' t') := by
  have hany : kept.any (fun k => t.same k) = kept'.any (fun k => t'.same k) := by
    induction hk with
    | nil => rfl
    | @cons k k' _ _ hkk' _ ih =>
      have : t.same k = t'.same k' := by
        rw [same_congr h, same_comm t' k, same_congr hkk', same_comm]
      simp [this, ih]
  unfold keep
  rw [hany]
  split
  · exact hk
  · exact List.rel_append hk (.cons h .nil)

lemma foldl_keep_congr {ts us kept kept' : List TypeExpr} (hk : EachSame kept kept')
    (h : EachSame ts us) : EachSame (ts.foldl keep kept) (us.foldl keep kept') := by
  induction h generalizing kept kept' with
  | nil => exact hk
  | cons htu _ ih => exact ih (keep_congr hk htu)

lemma withoutRepeats_congr {ts us : List TypeExpr} (h : EachSame ts us) :
    EachSame (withoutRepeats ts) (withoutRepeats us) :=
  foldl_keep_congr .nil h

lemma listOf_congr {m m' : Mark} {ts us : List TypeExpr} (h : EachSame ts us) :
    (listOf m ts).same (listOf m' us) = true :=
  alike_iff.1 (.list (matchAll_same (withoutRepeats_congr h)))

lemma foldl_keep_subset (ts kept : List TypeExpr) : ts.foldl keep kept ⊆ kept ++ ts := by
  induction ts generalizing kept with
  | nil => simp
  | cons t ts ih =>
    refine List.Subset.trans (ih (keep kept t)) ?_
    unfold keep
    split <;> simp

lemma withoutRepeats_subset (ts : List TypeExpr) : withoutRepeats ts ⊆ ts := by
  rw [withoutRepeats_eq]
  simpa using foldl_keep_subset ts []

end TypeExpr

/-! ## Declarations -/

namespace Declaration

variable {d e f : Declaration}

lemma same_iff : d.same e = true ↔
    d.name = e.name ∧ d.letters = e.letters ∧ d.body.same e.body = true := by
  simp [same, and_assoc]

lemma same_self (d : Declaration) : d.same d = true :=
  same_iff.2 ⟨rfl, rfl, d.body.same_self⟩

lemma same_symm (h : d.same e = true) : e.same d = true := by
  obtain ⟨name, letters, body⟩ := same_iff.1 h
  exact same_iff.2 ⟨name.symm, letters.symm, TypeExpr.same_symm body⟩

lemma same_trans (h : d.same e = true) (h' : e.same f = true) : d.same f = true := by
  obtain ⟨name, letters, body⟩ := same_iff.1 h
  obtain ⟨name', letters', body'⟩ := same_iff.1 h'
  exact same_iff.2 ⟨name.trans name', letters.trans letters', TypeExpr.same_trans body body'⟩

end Declaration

end TypeNotation
