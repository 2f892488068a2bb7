import Mathlib.Data.List.Perm.Basic

/-!
# Matching in any order

The members of a list type and the fields of a record are compared in any order, greedily: each
element of the one side takes the first element of the other side that it is related to.  Greedy
matching finds a match whenever there is one, provided that the relation is *rectangular*; equality
of types is, since it is an equivalence.
-/

namespace TypeNotation

variable {α β γ : Type}

/-! ## Lists related one by one -/

lemma forall₂_imp_mem {R S : α → β → Prop} {xs : List α} {ys : List β}
    (h : List.Forall₂ R xs ys) (hRS : ∀ x ∈ xs, ∀ y ∈ ys, R x y → S x y) :
    List.Forall₂ S xs ys := by
  induction h with
  | nil => exact .nil
  | cons hxy _ ih =>
    exact .cons (hRS _ (by simp) _ (by simp) hxy)
      (ih fun x hx y hy => hRS x (by simp [hx]) y (by simp [hy]))

lemma forall₂_trans_mem {R : α → β → Prop} {S : β → γ → Prop} {Q : α → γ → Prop}
    {xs : List α} {ys : List β} {zs : List γ} (hxy : List.Forall₂ R xs ys)
    (hyz : List.Forall₂ S ys zs)
    (h : ∀ x ∈ xs, ∀ y ∈ ys, ∀ z ∈ zs, R x y → S y z → Q x z) : List.Forall₂ Q xs zs := by
  induction hxy generalizing zs with
  | nil =>
    cases hyz
    exact .nil
  | cons hxy _ ih =>
    cases hyz with
    | cons hyz hrest =>
      exact .cons (h _ (by simp) _ (by simp) _ (by simp) hxy hyz)
        (ih hrest fun x hx y hy z hz => h x (by simp [hx]) y (by simp [hy]) z (by simp [hz]))

lemma forall₂_exists_left {R : α → β → Prop} {xs : List α} {ys : List β}
    (h : List.Forall₂ R xs ys) : ∀ y ∈ ys, ∃ x ∈ xs, R x y := by
  induction h with
  | nil => simp
  | cons hxy _ ih =>
    rintro y (_ | ⟨_, hy⟩)
    · exact ⟨_, List.mem_cons_self, hxy⟩
    · obtain ⟨x, hx, h⟩ := ih y hy
      exact ⟨x, List.mem_cons_of_mem _ hx, h⟩

/-! ## Greedy matching -/

variable {r : α → β → Bool}

/-- Match the elements of one list with those of another, in any order: each element of the first
list takes the first element of the second that it is related to. -/
def matchAll (r : α → β → Bool) : List α → List β → Bool
  | [], ys => ys.isEmpty
  | x :: xs, ys =>
    match ys.findIdx? (r x) with
    | some i => matchAll r xs (ys.eraseIdx i)
    | none => false

/-- Three corners of a rectangle of related elements give the fourth. -/
def Rectangular (r : α → β → Bool) (xs : List α) (ys : List β) : Prop :=
  ∀ x ∈ xs, ∀ x' ∈ xs, ∀ y ∈ ys, ∀ y' ∈ ys, r x y → r x y' → r x' y → r x' y'

/-- In a list related to another, an element may be replaced. -/
lemma forall₂_replace {xs : List α} {before after : List β} {y z : β}
    (h : List.Forall₂ (fun x z => r x z = true) xs (before ++ y :: after))
    (hz : ∀ x ∈ xs, r x y → r x z) :
    List.Forall₂ (fun x z => r x z = true) xs (before ++ z :: after) := by
  induction before generalizing xs with
  | nil =>
    cases h with
    | cons hxy hrest => exact .cons (hz _ (by simp) hxy) hrest
  | cons b before ih =>
    cases h with
    | cons hxb hrest => exact .cons hxb (ih hrest fun x hx => hz x (by simp [hx]))

/-- Greedy matching succeeds exactly if the second list can be put in an order in which it is
related to the first one by one. -/
lemma matchAll_iff {xs : List α} {ys : List β}
    (hr : Rectangular r xs ys) :
    matchAll r xs ys = true ↔
      ∃ zs, List.Forall₂ (fun x z => r x z = true) xs zs ∧ zs.Perm ys := by
  induction xs generalizing ys with
  | nil =>
    simp only [matchAll, List.isEmpty_iff, List.forall₂_nil_left_iff, exists_eq_left]
    exact ⟨fun h => h ▸ .nil, fun h => h.nil_eq.symm⟩
  | cons x xs ih =>
    have hsub : ∀ i, Rectangular r xs (ys.eraseIdx i) := fun i a ha b hb c hc d hd =>
      hr a (by simp [ha]) b (by simp [hb]) c (List.mem_of_mem_eraseIdx hc) d
        (List.mem_of_mem_eraseIdx hd)
    cases hfind : ys.findIdx? (r x) with
    | none =>
      simp only [matchAll, hfind, Bool.false_eq_true, false_iff]
      rintro ⟨zs, hzs, hperm⟩
      cases hzs with
      | cons hxz _ =>
        have := List.findIdx?_eq_none_iff.1 hfind _ (hperm.subset List.mem_cons_self)
        simp [hxz] at this
    | some i =>
      obtain ⟨hi, hxi, -⟩ := List.findIdx?_eq_some_iff_getElem.1 hfind
      have hys : (ys[i] :: ys.eraseIdx i).Perm ys := List.getElem_cons_eraseIdx_perm hi
      simp only [matchAll, hfind, ih (hsub i)]
      constructor
      · rintro ⟨zs, hzs, hperm⟩
        exact ⟨ys[i] :: zs, .cons hxi hzs, (hperm.cons _).trans hys⟩
      · rintro ⟨zs, hzs, hperm⟩
        cases hzs with
        | @cons _ z _ zs hxz hzs =>
        have hz : z ∈ ys := hperm.subset (by simp)
        have hboth : (z :: zs).Perm (ys[i] :: ys.eraseIdx i) := hperm.trans hys.symm
        rcases List.mem_cons.1 (hboth.symm.subset List.mem_cons_self) with heq | hmem
        · exact ⟨zs, hzs, by rw [heq] at hboth; exact hboth.cons_inv⟩
        · obtain ⟨before, after, rfl⟩ := List.append_of_mem hmem
          refine ⟨before ++ z :: after, forall₂_replace hzs fun x' hx' hx'i =>
            hr x (by simp) x' (by simp [hx']) _ (List.getElem_mem hi) _ hz hxi hxz hx'i, ?_⟩
          refine List.perm_middle.trans ?_
          have : (ys[i] :: z :: (before ++ after)).Perm (ys[i] :: ys.eraseIdx i) :=
            (List.Perm.swap _ _ _).trans ((List.perm_middle.symm.cons z).trans hboth)
          exact this.cons_inv

lemma exists_right_of_matchAll {xs : List α} {ys : List β} (hr : Rectangular r xs ys)
    (h : matchAll r xs ys = true) {x : α} (hx : x ∈ xs) : ∃ y ∈ ys, r x y = true := by
  obtain ⟨zs, hzs, hperm⟩ := (matchAll_iff hr).1 h
  obtain ⟨z, hz, hxz⟩ := forall₂_exists_left hzs.flip x hx
  exact ⟨z, hperm.subset hz, hxz⟩

lemma exists_left_of_matchAll {xs : List α} {ys : List β} (hr : Rectangular r xs ys)
    (h : matchAll r xs ys = true) {y : β} (hy : y ∈ ys) : ∃ x ∈ xs, r x y = true := by
  obtain ⟨zs, hzs, hperm⟩ := (matchAll_iff hr).1 h
  exact forall₂_exists_left hzs y (hperm.symm.subset hy)

/-- A match can be read from the other side. -/
lemma matchAll_swap {s : β → α → Bool} {xs : List α} {ys : List β}
    (hr : Rectangular r xs ys) (hrs : ∀ x ∈ xs, ∀ y ∈ ys, r x y = s y x) :
    matchAll r xs ys = matchAll s ys xs := by
  have hs : Rectangular s ys xs := fun y hy y' hy' x hx x' hx' h₁ h₂ h₃ => by
    rw [← hrs _ ‹_› _ ‹_›] at h₁ h₂ h₃ ⊢
    exact hr x hx x' hx' y hy y' hy' h₁ h₃ h₂
  have turn : ∀ {γ δ : Type} {p : γ → δ → Bool} {q : δ → γ → Bool} {us : List γ} {vs : List δ},
      (∀ u ∈ us, ∀ v ∈ vs, p u v = q v u) →
      (∃ zs, List.Forall₂ (fun u z => p u z = true) us zs ∧ zs.Perm vs) →
      ∃ ws, List.Forall₂ (fun v w => q v w = true) vs ws ∧ ws.Perm us := by
    rintro γ δ p q us vs hpq ⟨zs, hzs, hperm⟩
    have hback : List.Forall₂ (fun z u => q z u = true) zs us :=
      (forall₂_imp_mem (S := flip fun z u => q z u = true) hzs fun u hu z hz h => by
        rw [flip, ← hpq u hu z (hperm.subset hz)]
        exact h).flip
    obtain ⟨ws, hws, hws'⟩ := List.perm_comp_forall₂ hperm.symm hback
    exact ⟨ws, hws, hws'⟩
  rw [Bool.eq_iff_iff, matchAll_iff hr, matchAll_iff hs]
  exact ⟨turn hrs, turn fun y hy x hx => (hrs x hx y hy).symm⟩

/-- Matches can be put one after the other. -/
lemma matchAll_trans {s : β → γ → Bool} {q : α → γ → Bool} {xs : List α}
    {ys : List β} {zs : List γ} (hr : Rectangular r xs ys) (hs : Rectangular s ys zs)
    (hq : Rectangular q xs zs)
    (hrs : ∀ x ∈ xs, ∀ y ∈ ys, ∀ z ∈ zs, r x y → s y z → q x z)
    (hxy : matchAll r xs ys = true) (hyz : matchAll s ys zs = true) :
    matchAll q xs zs = true := by
  obtain ⟨ys', hxy, hys⟩ := (matchAll_iff hr).1 hxy
  obtain ⟨zs', hyz, hzs⟩ := (matchAll_iff hs).1 hyz
  obtain ⟨zs'', hyz', hzs'⟩ := List.perm_comp_forall₂ hys hyz
  refine (matchAll_iff hq).2 ⟨zs'', ?_, hzs'.trans hzs⟩
  exact forall₂_trans_mem hxy hyz' fun x hx y hy z hz =>
    hrs x hx y (hys.subset hy) z (hzs.subset (hzs'.subset hz))

end TypeNotation
