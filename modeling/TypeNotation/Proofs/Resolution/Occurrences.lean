import TypeNotation.Proofs.Resolution.Direct

/-!
# Occurrences in equal types

Equal types consist of equal nodes, apart from numbers, which are compared by their values.  So what
occurs in a type, such as a variable or a name that is referred to, occurs in every equal type as
well.
-/

namespace TypeNotation

open TypeExpr

/-- Fields that are equal in some order have the same names. -/
lemma Field.mem_names_congr {fs gs : List (Field TypeExpr)}
    (h : matchAll sameField fs gs = true) (name : String) : name ∈ names fs ↔ name ∈ names gs := by
  have hright {f} (hf : f ∈ fs) := exists_right_of_matchAll (rectangular_sameField _ _) h hf
  have hleft {g} (hg : g ∈ gs) := exists_left_of_matchAll (rectangular_sameField _ _) h hg
  simp only [sameField, Bool.and_eq_true, decide_eq_true_eq] at hright hleft
  simp only [names, List.mem_map]
  constructor
  · rintro ⟨f, hf, rfl⟩
    obtain ⟨g, hg, hname, -⟩ := hright hf
    exact ⟨g, hg, hname.symm⟩
  · rintro ⟨g, hg, rfl⟩
    obtain ⟨f, hf, hname, -⟩ := hleft hg
    exact ⟨f, hf, hname⟩

namespace TypeExpr

variable {t u : TypeExpr} {x : Variable}

lemma isReferring_congr (h : t.same u = true) : t.isReferring = u.isReferring := by
  cases alike_iff.2 h <;> rfl

/-- The parts of a type equal parts of an equal type, unless they are numbers. -/
lemma exists_part_of_same (h : t.same u = true) {p : TypeExpr} (hp : p ∈ t.parts) :
    (∃ n, p = number n) ∨ ∃ q ∈ u.parts, p.same q = true := by
  have alike := alike_iff.2 h
  by_cases hvalue : p ∈ t.valueParts
  · refine (exists_valuePart_of_alike alike hvalue).imp_right ?_
    rintro ⟨q, hq, hpq⟩
    exact ⟨q, valueParts_subset u hq, hpq⟩
  · -- only the targets of a delegation do not stand for types of values
    cases alike with
    | delegation hb ht =>
      rcases List.mem_cons.1 hp with rfl | hp
      · simp [valueParts] at hvalue
      · obtain ⟨q, hq, hpq⟩ := forall₂_exists_left ht.flip p hp
        exact .inr ⟨q, List.mem_cons_of_mem _ hq, hpq⟩
    | _ => exact (hvalue hp).elim

/-- The subterms of a type equal subterms of an equal type, unless they are numbers. -/
lemma exists_subterm_of_same (h : t.same u = true) {s : TypeExpr} (hs : s ∈ t.subterms) :
    (∃ n, s = number n) ∨ ∃ s' ∈ u.subterms, s.same s' = true := by
  induction t using parts_induction generalizing u with
  | step t ih =>
    rw [subterms_eq, List.mem_cons, List.mem_flatMap] at hs
    rcases hs with rfl | ⟨p, hp, hs⟩
    · exact .inr ⟨u, mem_subterms_self u, h⟩
    · rcases exists_part_of_same h hp with ⟨n, rfl⟩ | ⟨q, hq, hpq⟩
      · obtain ⟨n', -, rfl⟩ := List.mem_map.1 hs
        exact .inl ⟨n', rfl⟩
      · exact (ih p hp hpq hs).imp_right fun ⟨s', hs', same⟩ =>
          ⟨s', mem_subterms_of_part hq hs', same⟩

lemma exists_variable_of_same (h : t.same u = true) {m : Mark}
    (hx : typeVariable m x ∈ t.subterms) : ∃ m', typeVariable m' x ∈ u.subterms := by
  rcases exists_subterm_of_same h hx with ⟨n, hn⟩ | ⟨s, hs, same⟩
  · cases hn
  · cases alike_iff.2 same with
    | @typeVariable _ m' => exact ⟨m', hs⟩

lemma HasLetter.of_same {letter : String} (h : t.same u = true) (ht : t.HasLetter letter) :
    u.HasLetter letter := by
  obtain ⟨m, v, hv, rfl⟩ := ht
  obtain ⟨m', hv'⟩ := exists_variable_of_same h hv
  exact ⟨m', v, hv', rfl⟩

/-! ## The variables of a type -/

lemma mem_firstOccurrences {binders : List Binder} :
    (∃ b ∈ firstOccurrences binders, b.var = x) ↔ ∃ b ∈ binders, b.var = x := by
  suffices ∀ kept : List Binder,
      (∃ b ∈ binders.foldl (fun kept b =>
        if kept.any (·.var = b.var) then kept else kept ++ [b]) kept,
        b.var = x) ↔ (∃ b ∈ kept, b.var = x) ∨ ∃ b ∈ binders, b.var = x by
    exact (this []).trans (by simp)
  induction binders with
  | nil => simp
  | cons b binders ih =>
    intro kept
    rw [List.foldl_cons, ih, List.exists_mem_cons_iff, ← or_assoc]
    refine or_congr_left ?_
    by_cases hkept : kept.any (·.var = b.var) = true
    · obtain ⟨k, hk, hkb⟩ : ∃ k ∈ kept, k.var = b.var := by simpa using hkept
      simp only [hkept, if_true]
      refine ⟨.inl, fun h => h.elim id fun hb => ⟨k, hk, hkb.trans hb⟩⟩
    · simp [hkept, or_and_right, exists_or]

/-- The variables of a type are the nodes among its subterms that are variables. -/
lemma mem_typeVariables :
    (∃ b ∈ t.typeVariables, b.var = x) ↔ ∃ m, typeVariable m x ∈ t.subterms := by
  rw [typeVariables, mem_firstOccurrences]
  constructor
  · rintro ⟨b, hb, rfl⟩
    obtain ⟨s, hs, hsb⟩ := List.mem_filterMap.1 hb
    cases s with
    | typeVariable m v =>
      obtain rfl : (⟨m.position, v⟩ : Binder) = b := by simpa [binder?] using hsb
      exact ⟨m, hs⟩
    | _ => cases hsb
  · rintro ⟨m, hm⟩
    exact ⟨⟨m.position, x⟩, List.mem_filterMap.2 ⟨_, hm, rfl⟩, rfl⟩

/-- What a suspended target binds: its letters, to what the environment binds them to. -/
lemma mem_targetBindings {env : Env} {f : Field TypeExpr} :
    f ∈ targetBindings env t ↔ t.HasLetter f.name ∧ Field.find? env f.name = some f.type := by
  have letters : (∃ b ∈ t.typeVariables, b.var.letter = f.name) ↔ t.HasLetter f.name := by
    constructor
    · rintro ⟨b, hb, hletter⟩
      obtain ⟨m, hm⟩ := mem_typeVariables.1 ⟨b, hb, rfl⟩
      exact ⟨m, b.var, hm, hletter⟩
    · rintro ⟨m, v, hv, hletter⟩
      obtain ⟨b, hb, rfl⟩ := mem_typeVariables.2 ⟨m, hv⟩
      exact ⟨b, hb, hletter⟩
  simp only [targetBindings, List.mem_filterMap, List.mem_eraseDups, List.mem_map]
  constructor
  · rintro ⟨_, ⟨b, hb, rfl⟩, hf⟩
    obtain ⟨u, hu, rfl⟩ := Option.map_eq_some_iff.1 hf
    exact ⟨letters.1 ⟨b, hb, rfl⟩, hu⟩
  · rintro ⟨hletter, hfind⟩
    obtain ⟨b, hb, hname⟩ := letters.2 hletter
    exact ⟨f.name, ⟨b, hb, hname⟩, by rw [hfind]; rfl⟩

end TypeExpr

end TypeNotation
