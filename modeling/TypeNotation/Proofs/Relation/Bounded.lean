import Mathlib.Logic.Relation
import TypeNotation.Proofs.Relation.Congruence
import TypeNotation.Proofs.Relation.Layers

/-!
# Variables with one bound

A predicate bounds the variables that it quantifies by its constraint, for as far as its body
reaches: bodies of named types are read under the bounds of whatever leads to them.  Which bounds a
type is read under therefore depends on the way to it, unless every variable has one bound: all
predicates that quantify it agree on its constraint, and it does not occur outside of them.

If in addition bounds do not go round in circles, then for every type of such a set the bounds that
matter are known from the set alone.  `Covers` says that some bounds are all that a type needs; it
is kept on every way that membership and subtyping take.
-/

namespace TypeNotation

open TypeExpr

/-! ## Looking up bounds -/

namespace Bounds

variable {bounds : Bounds} {x y : Variable}

lemma find?_without : (bounds.without y).find? x = if x = y then none else bounds.find? x := by
  induction bounds with
  | nil => simp [find?, without]
  | cons p bounds ih =>
    simp only [find?, without, List.filter_cons, List.find?_cons] at ih ⊢
    by_cases hp : p.1 = y
    · by_cases hx : x = y
      · simp [hp, hx]
      · have hpx : p.1 ≠ x := fun h => hx (h.symm.trans hp)
        simpa [hp, hx, hpx, Ne.symm hx] using ih
    · by_cases hpx : p.1 = x
      · have hx : x ≠ y := fun h => hp (hpx.trans h)
        simp [hpx, hx]
      · simpa [hp, hpx] using ih

/-- A predicate bounds the variables that it quantifies, and leaves the bounds of all others. -/
lemma find?_bind {constraint : TypeExpr} {binders : List Binder} :
    (bounds.bind constraint binders).find? x =
      if ∃ b ∈ binders, b.var = x then some constraint else bounds.find? x := by
  unfold bind
  induction binders generalizing bounds with
  | nil => simp
  | cons b binders ih =>
    rw [List.foldl_cons, ih]
    by_cases hrest : ∃ b ∈ binders, b.var = x
    · simp [hrest]
    · by_cases hb : b.var = x
      · simp [hrest, hb, find?]
      · have hfind : find? ((b.var, constraint) :: bounds.without b.var) x =
            (bounds.without b.var).find? x := by
          simp [find?, hb]
        simp [hrest, hb, hfind, find?_without, Ne.symm hb]

end Bounds

/-! ## Quantified variables -/

namespace TypeExpr

variable {x : Variable}

/-- A predicate quantifies a variable. -/
def Quantifies (listed : List Binder) (body : TypeExpr) (x : Variable) : Prop :=
  ∃ b ∈ quantified listed body, b.var = x

/-- Equal predicates quantify the same variables. -/
lemma Quantifies.of_same {listed listed' : List Binder} {body body' : TypeExpr}
    (hlisted : listed.map (·.var) = listed'.map (·.var)) (hbody : body.same body' = true)
    (h : Quantifies listed body x) : Quantifies listed' body' x := by
  have hempty : listed.isEmpty = listed'.isEmpty := by
    have := congrArg List.isEmpty hlisted
    simpa using this
  unfold Quantifies quantified at h ⊢
  rw [← hempty]
  split at h
  · rename_i hnone
    rw [if_pos hnone]
    obtain ⟨m, hm⟩ := mem_typeVariables.1 h
    exact mem_typeVariables.2 (exists_variable_of_same hbody hm)
  · rename_i hsome
    rw [if_neg hsome]
    obtain ⟨b, hb, rfl⟩ := h
    have hmem : b.var ∈ listed'.map (·.var) := hlisted ▸ List.mem_map_of_mem hb
    exact List.mem_map.1 hmem

/-- Whether a node is a predicate. -/
def isPredicate : TypeExpr → Bool
  | predicate .. => true
  | _ => false

/-- Whether a node decides membership, without a denial and without an appeal to other members. -/
def isPositive : TypeExpr → Bool
  | number (.power ..) | function .. | delegation .. | complement .. | reference .. | deferred .. =>
    false
  | _ => true

end TypeExpr

/-! ## Variables that a type needs -/

namespace Heap

variable {h : Heap} {K : TypeExpr → Prop} {x y : Variable} {t u c c' : TypeExpr}

/-- A variable occurs in a type, or in a body that the type leads to, and no predicate on the way
quantifies it.  A predicate does not quantify anything in its own constraint. -/
inductive Frees (h : Heap) (x : Variable) : TypeExpr → Prop
  | occurs {m : Mark} : Frees h x (.typeVariable m x)
  | part {t u : TypeExpr} (settled : t.isReferring = false) (plain : t.isPredicate = false)
    (hu : u ∈ t.valueParts) (free : Frees h x u) : Frees h x t
  | body {m : Mark} {name : String} {args : List TypeExpr} {b : TypeExpr}
    (hb : h.body? m.stamp = some b) (free : Frees h x b) : Frees h x (.named m name args)
  | constraint {m : Mark} {c body : TypeExpr} {listed : List Binder} (free : Frees h x c) :
    Frees h x (.predicate m c body listed)
  | scope {m : Mark} {c body : TypeExpr} {listed : List Binder}
    (unbound : ¬ Quantifies listed body x) (free : Frees h x body) :
    Frees h x (.predicate m c body listed)

/-- A predicate of a set bounds a variable by a constraint. -/
def BoundBy (K : TypeExpr → Prop) (x : Variable) (c : TypeExpr) : Prop :=
  ∃ m body listed, K (.predicate m c body listed) ∧ Quantifies listed body x

/-- A variable is free in a type, or in a bound of a variable that the type needs. -/
inductive Needs (h : Heap) (K : TypeExpr → Prop) (x : Variable) : TypeExpr → Prop
  | free {t : TypeExpr} (free : h.Frees x t) : Needs h K x t
  | bound {t c : TypeExpr} {y : Variable} (free : h.Frees y t) (hc : BoundBy K y c)
    (rest : Needs h K x c) : Needs h K x t

/-- A variable occurs in a bound of another, at a place that a value may be matched against. -/
def Precedes (h : Heap) (K : TypeExpr → Prop) (x y : Variable) : Prop :=
  ∃ c m, BoundBy K y c ∧ h.Reaches c (.typeVariable m x)

/-- A closed set of types without denials, in which every variable has one bound. -/
structure Bounded (h : Heap) (K : TypeExpr → Prop) : Prop extends h.Firm K where
  positive : ∀ {t}, K t → t.isPositive = true
  settled : ∀ {t}, K t → t.Settled fun _ => True
  alike : ∀ {m m' name args args' b b'}, K (.named m name args) → K (.named m' name args') →
    EachSame args args' → h.body? m.stamp = some b → h.body? m'.stamp = some b' →
      b.same b' = true
  agree : ∀ {x c c'}, BoundBy K x c → BoundBy K x c' → c.same c' = true
  acyclic : WellFounded (h.Precedes K)

lemma Frees.reaches (hx : h.Frees x t) : ∃ m, h.Reaches t (.typeVariable m x) := by
  induction hx with
  | @occurs m => exact ⟨m, .refl⟩
  | part settled _ hu _ ih =>
    obtain ⟨m, reaches⟩ := ih
    exact ⟨m, (Reaches.refl.part settled hu).trans reaches⟩
  | body hb _ ih =>
    obtain ⟨m, reaches⟩ := ih
    exact ⟨m, (Reaches.refl.body hb).trans reaches⟩
  | constraint _ ih =>
    obtain ⟨m, reaches⟩ := ih
    exact ⟨m, (Reaches.refl.part rfl (by simp [valueParts, parts])).trans reaches⟩
  | scope _ _ ih =>
    obtain ⟨m, reaches⟩ := ih
    exact ⟨m, (Reaches.refl.part rfl (by simp [valueParts, parts])).trans reaches⟩

lemma not_frees_number (n : Numeral) : ¬ h.Frees x (.number n) := by
  intro hx
  obtain ⟨m, reaches⟩ := hx.reaches
  -- only numbers are reached from a number
  suffices ∀ t, h.Reaches (.number n) t → ∃ n', t = .number n' by
    obtain ⟨n', heq⟩ := this _ reaches
    cases heq
  intro t reaches
  induction reaches with
  | refl => exact ⟨n, rfl⟩
  | part _ _ hv ih =>
    obtain ⟨n', rfl⟩ := ih
    cases n' <;> simp only [valueParts, parts, List.mem_cons, List.not_mem_nil, or_false] at hv
    rcases hv with rfl | rfl <;> exact ⟨_, rfl⟩
  | body _ _ ih =>
    obtain ⟨n', heq⟩ := ih
    cases heq

namespace Bounded

variable (bounded : h.Bounded K)
include bounded

lemma constraint (hc : BoundBy K x c) : K c := by
  obtain ⟨m, body, listed, hK, -⟩ := hc
  exact bounded.part hK rfl (by simp [valueParts, parts])

lemma number {n : Numeral} (hn : K (.number n)) : ∃ p y, n = .literal p y := by
  cases n with
  | literal p y => exact ⟨p, y, rfl⟩
  | power => cases bounded.positive hn

lemma interval {m : Mark} {low high : Numeral} (ht : K (.interval m low high)) :
    ∃ p q x y, low = .literal p x ∧ high = .literal q y ∧ x.place ≠ .nan ∧ y.place ≠ .nan :=
  bounded.toFirm.interval bounded.number bounded.settled ht

/-- No cause of failure arises at the nodes where matching ends. -/
lemma ends {classed : Prop} (plain : classed → ∀ {t}, K t → t.PlainFields) :
    Matcher.Ends Halt.Never K (Value.Ordinary classed) :=
  Matcher.ends_never plain bounded.number bounded.interval fun ht => by cases bounded.positive ht

lemma unfold_same (ht : K t) (hu : K u) (same : t.same u = true) :
    (h.unfold t).same (h.unfold u) = true :=
  bounded.toFirm.unfold_same bounded.alike ht hu same

/-- A variable that is free in a type is free in an equal type. -/
lemma frees_of_same (ht : K t) (hu : K u) (same : t.same u = true) (hx : h.Frees x t) :
    h.Frees x u := by
  induction hx generalizing u with
  | occurs =>
    cases alike_iff.2 same
    exact .occurs
  | @part t p settled plain hp free ih =>
    have settled' : u.isReferring = false := isReferring_congr same ▸ settled
    rcases exists_valuePart_of_alike (alike_iff.2 same) hp with ⟨n, rfl⟩ | ⟨q, hq, hpq⟩
    · exact (not_frees_number n free).elim
    · have plain' : u.isPredicate = false := by
        cases alike_iff.2 same <;> first | rfl | cases plain
      exact .part settled' plain' hq
        (ih (bounded.part ht settled hp) (bounded.part hu settled' hq) hpq)
  | @body m name args b hb _ ih =>
    cases alike_iff.2 same with
    | @named _ m' _ _ args' hargs =>
      obtain ⟨b₁, hb₁, hK⟩ := bounded.body ht
      obtain rfl : b₁ = b := Option.some.inj (hb₁.symm.trans hb)
      obtain ⟨b', hb', hK'⟩ := bounded.body hu
      exact .body hb' (ih hK hK' (bounded.alike ht hu hargs hb hb'))
  | constraint _ ih =>
    cases alike_iff.2 same with
    | predicate hc hb hl =>
      exact .constraint (ih (bounded.part ht rfl (by simp [valueParts, parts]))
        (bounded.part hu rfl (by simp [valueParts, parts])) hc)
  | scope unbound _ ih =>
    cases alike_iff.2 same with
    | predicate hc hb hl =>
      refine .scope (fun hq => unbound (hq.of_same hl.symm (same_symm hb))) ?_
      exact ih (bounded.part ht rfl (by simp [valueParts, parts]))
        (bounded.part hu rfl (by simp [valueParts, parts])) hb

lemma needs_of_same (ht : K t) (hu : K u) (same : t.same u = true) (hx : h.Needs K x t) :
    h.Needs K x u := by
  cases hx with
  | free free => exact .free (bounded.frees_of_same ht hu same free)
  | bound free hc rest => exact .bound (bounded.frees_of_same ht hu same free) hc rest

omit bounded in
/-- What the bound of a variable needs precedes the variable. -/
lemma precedes_of_needs (hx : h.Needs K x c) (hc : BoundBy K y c) :
    Relation.TransGen (h.Precedes K) x y := by
  induction hx generalizing y with
  | free free =>
    obtain ⟨m, reaches⟩ := free.reaches
    exact .single ⟨_, m, hc, reaches⟩
  | bound free hc' _ ih =>
    obtain ⟨m, reaches⟩ := free.reaches
    exact .tail (ih hc') ⟨_, m, hc, reaches⟩

lemma not_needs_self (hc : BoundBy K x c) : ¬ h.Needs K x c := by
  intro hx
  have loop := precedes_of_needs hx hc
  exact bounded.acyclic.transGen.irrefl.irrefl x loop

end Bounded

/-! ## Bounds that cover a type -/

/-- Bounds that predicates of a set put on their variables. -/
def Right (K : TypeExpr → Prop) (bounds : Bounds) : Prop :=
  ∀ ⦃x c⦄, bounds.find? x = some c → BoundBy K x c

lemma Right.nil : Right K [] := fun _ _ hx => by cases hx

lemma Right.bind {bounds : Bounds} (hbounds : Right K bounds) {m : Mark} {body : TypeExpr}
    {listed : List Binder} (ht : K (.predicate m c body listed)) :
    Right K (bounds.bind c (quantified listed body)) := by
  intro x c' hx
  rw [Bounds.find?_bind] at hx
  split at hx
  · rename_i hquantified
    obtain rfl : c = c' := Option.some.inj hx
    exact ⟨m, body, listed, ht, hquantified⟩
  · exact hbounds hx

lemma Right.without {bounds : Bounds} (hbounds : Right K bounds) (x : Variable) :
    Right K (bounds.without x) := by
  intro y d hy
  rw [Bounds.find?_without] at hy
  split at hy
  · cases hy
  · exact hbounds hy

/-- Bounds of the set that are all that a type needs. -/
structure Covers (h : Heap) (K : TypeExpr → Prop) (bounds : Bounds) (t : TypeExpr) : Prop where
  right : Right K bounds
  bound : ∀ {x c}, h.Needs K x t → BoundBy K x c → ∃ c', bounds.find? x = some c'

namespace Covers

variable {bounds : Bounds} {m : Mark} (covers : h.Covers K bounds t)

/-- No bounds are needed where no variable is free that a predicate bounds. -/
lemma nil (outside : ∀ x c, BoundBy K x c → ¬ h.Frees x t) : h.Covers K [] t where
  right := .nil
  bound hx hc := by
    cases hx with
    | free free => exact (outside _ _ hc free).elim
    | bound free hc' _ => exact (outside _ _ hc' free).elim

include covers

lemma of_frees (hfrees : ∀ x, h.Frees x u → h.Frees x t) : h.Covers K bounds u where
  right := covers.right
  bound hx hc := by
    refine covers.bound ?_ hc
    cases hx with
    | free free => exact .free (hfrees _ free)
    | bound free hc rest => exact .bound (hfrees _ free) hc rest

lemma part (settled : t.isReferring = false) (plain : t.isPredicate = false)
    (hu : u ∈ t.valueParts) : h.Covers K bounds u :=
  covers.of_frees fun _ free => .part settled plain hu free

omit covers in
lemma body {name : String} {args : List TypeExpr} {b : TypeExpr}
    (covers : h.Covers K bounds (.named m name args)) (hb : h.body? m.stamp = some b) :
    h.Covers K bounds b :=
  covers.of_frees fun _ free => .body hb free

lemma unfold (bounded : h.Bounded K) (ht : K t) : h.Covers K bounds (h.unfold t) := by
  obtain ⟨n, hn⟩ := bounded.grounded ht
  induction n generalizing t with
  | zero => exact hn.elim
  | succ n ih =>
    by_cases href : t.isReferring = true
    · obtain ⟨m, name, args, rfl⟩ := bounded.toFirm.referring ht href
      obtain ⟨b, hb, hK⟩ := bounded.body ht
      rw [(bounded.grounded ht).unfold_named hb]
      exact ih (covers.body hb) hK (hn b (by simp [unguarded, hb]))
    · rw [unfold_of_not_referring (by simpa using href)]
      exact covers

omit covers in
/-- Below a predicate its variables are bound as well. -/
lemma bind (bounded : h.Bounded K) {body : TypeExpr} {listed : List Binder}
    (ht : K (.predicate m c body listed))
    (covers : h.Covers K bounds (.predicate m c body listed)) :
    h.Covers K (bounds.bind c (quantified listed body)) body where
  right := covers.right.bind ht
  bound {x c'} hx hc := by
    rw [Bounds.find?_bind]
    split
    · exact ⟨c, rfl⟩
    · rename_i hquantified
      refine covers.bound ?_ hc
      cases hx with
      | free free => exact .free (.scope hquantified free)
      | @bound _ d y free hd rest =>
        by_cases hy : Quantifies listed body y
        · -- the constraint needs what any bound of the variable needs
          have hby : BoundBy K y c := ⟨m, body, listed, ht, hy⟩
          have rest := bounded.needs_of_same (bounded.constraint hd) (bounded.constraint hby)
            (bounded.agree hd hby) rest
          cases rest with
          | free free => exact .free (.constraint free)
          | bound free hd rest => exact .bound (.constraint free) hd rest
        · exact .bound (.scope hy free) hd rest

omit covers in
/-- A bound is read under the bounds of all other variables. -/
lemma without (bounded : h.Bounded K) (covers : h.Covers K bounds (.typeVariable m x))
    (hx : bounds.find? x = some c) : h.Covers K (bounds.without x) c where
  right := covers.right.without x
  bound {y d} hy hd := by
    have hc := covers.right hx
    rw [Bounds.find?_without, if_neg]
    · exact covers.bound (.bound .occurs hc hy) hd
    · rintro rfl
      exact bounded.not_needs_self hc hy

end Covers

/-! ## Steps that do not take a value apart -/

/-- What a type leads to while the value stays: an unguarded position, or a bound. -/
def Descends (h : Heap) (K : TypeExpr → Prop) (u t : TypeExpr) : Prop :=
  u ∈ h.unguarded t ∨ ∃ m x, t = .typeVariable m x ∧ BoundBy K x u

namespace Bounded

variable (bounded : h.Bounded K)
include bounded

omit bounded in
lemma reaches_of_unguarded (hu : u ∈ h.unguarded t) : h.Reaches t u := by
  cases t with
  | named m name args => exact Reaches.refl.body (by simpa [unguarded] using hu)
  | union | complement | delegation | predicate =>
    exact Reaches.refl.part rfl (by simpa [valueParts, parts, unguarded] using hu)
  | _ => cases hu

/-- From a type no way is endless if none is from the variables that the type reaches. -/
lemma acc_descends_of_variables (ht : K t)
    (ground : ∀ m x, h.Reaches t (.typeVariable m x) → Acc (h.Descends K) (.typeVariable m x)) :
    Acc (h.Descends K) t := by
  induction hn : h.height t using Nat.strong_induction_on generalizing t with
  | _ n ih =>
    refine ⟨t, fun u hu => ?_⟩
    rcases hu with hu | ⟨m, x, rfl, hc⟩
    · have reaches := reaches_of_unguarded hu
      exact ih (h.height u) (hn ▸ (bounded.grounded ht).height_lt hu) (bounded.holds ht reaches)
        (fun m x hx => ground m x (reaches.trans hx)) rfl
    · exact (ground m x .refl).inv (.inr ⟨m, x, rfl, hc⟩)

/-- No way is endless along which the value stays. -/
lemma acc_descends (ht : K t) : Acc (h.Descends K) t := by
  have ground (x : Variable) : ∀ m, Acc (h.Descends K) (.typeVariable m x) := by
    induction x using bounded.acyclic.induction with
    | _ x ih =>
      refine fun m => ⟨_, fun c hc => ?_⟩
      rcases hc with hc | ⟨_, _, heq, hc⟩
      · cases hc
      · cases heq
        refine bounded.acc_descends_of_variables (bounded.constraint hc) fun m' y reaches => ?_
        exact ih y ⟨c, m', hc, reaches⟩ m'
  exact bounded.acc_descends_of_variables ht fun m x _ => ground x m

/-- No type leads to itself while the value stays. -/
lemma not_descends_self (ht : K t) : ¬ Relation.TransGen (h.Descends K) t t := by
  intro loop
  have acc := (bounded.acc_descends ht).transGen
  clear ht
  induction acc with
  | intro t _ ih => exact ih t loop loop

/-- A named type leads to what it unfolds to. -/
lemma descends_unfold (ht : K t) (href : t.isReferring = true) :
    Relation.TransGen (h.Descends K) (h.unfold t) t := by
  obtain ⟨n, hn⟩ := bounded.grounded ht
  induction n generalizing t with
  | zero => exact hn.elim
  | succ n ih =>
    obtain ⟨m, name, args, rfl⟩ := bounded.toFirm.referring ht href
    obtain ⟨b, hb, hK⟩ := bounded.body ht
    have hmem : b ∈ h.unguarded (.named m name args) := by simp [unguarded, hb]
    rw [(bounded.grounded ht).unfold_named hb]
    by_cases hbody : b.isReferring = true
    · exact .tail (ih hK hbody (hn b hmem)) (.inl hmem)
    · rw [unfold_of_not_referring (by simpa using hbody)]
      exact .single (.inl hmem)

end Bounded

end Heap

end TypeNotation
