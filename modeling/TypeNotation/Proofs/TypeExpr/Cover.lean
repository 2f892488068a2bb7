import TypeNotation.Proofs.TypeExpr.Sameness

/-!
# Members as a set

A list type keeps one of equal members, and its members have no order.  So two list types are equal
as soon as each member of one equals a member of the other, however often.
-/

namespace TypeNotation

namespace TypeExpr

/-- Types no two of which are equal. -/
abbrev Unrepeated (ts : List TypeExpr) : Prop :=
  ts.Pairwise fun t u => t.same u = false

/-- Each of some types equals one of some others. -/
def Covered (ts us : List TypeExpr) : Prop :=
  ∀ t ∈ ts, ∃ u ∈ us, t.same u = true

lemma unrepeated_foldl_keep {ts kept : List TypeExpr} (h : Unrepeated kept) :
    Unrepeated (ts.foldl keep kept) := by
  induction ts generalizing kept with
  | nil => exact h
  | cons t ts ih =>
    refine ih ?_
    unfold keep
    split
    · exact h
    · rename_i new
      refine List.pairwise_append.2 ⟨h, List.pairwise_singleton _ _, fun k hk u hu => ?_⟩
      obtain rfl := List.mem_singleton.1 hu
      rw [same_comm]
      exact Bool.eq_false_iff.2 fun repeats => new (List.any_eq_true.2 ⟨k, hk, repeats⟩)

lemma unrepeated_withoutRepeats (ts : List TypeExpr) : Unrepeated (withoutRepeats ts) :=
  unrepeated_foldl_keep .nil

lemma covered_foldl_keep (ts kept : List TypeExpr) : Covered (kept ++ ts) (ts.foldl keep kept) := by
  induction ts generalizing kept with
  | nil =>
    intro t ht
    exact ⟨t, by simpa using ht, same_self t⟩
  | cons t ts ih =>
    intro u hu
    have kept' : ∃ v ∈ keep kept t ++ ts, u.same v = true := by
      simp only [List.mem_append, List.mem_cons] at hu
      unfold keep
      split
      · rename_i repeats
        obtain ⟨k, hk, same⟩ := List.any_eq_true.1 repeats
        rcases hu with hu | rfl | hu
        · exact ⟨u, by simp [hu], same_self u⟩
        · exact ⟨k, by simp [hk], same⟩
        · exact ⟨u, by simp [hu], same_self u⟩
      · exact ⟨u, by simpa [or_assoc] using hu, same_self u⟩
    obtain ⟨v, hv, huv⟩ := kept'
    obtain ⟨w, hw, hvw⟩ := ih (keep kept t) v hv
    exact ⟨w, hw, same_trans huv hvw⟩

/-- Every one of some types equals one that is kept. -/
lemma covered_withoutRepeats (ts : List TypeExpr) : Covered ts (withoutRepeats ts) := by
  have all := covered_foldl_keep ts []
  rwa [List.nil_append, ← withoutRepeats_eq] at all

lemma covered_of_subset {ts us : List TypeExpr} (h : ts ⊆ us) : Covered ts us :=
  fun t ht => ⟨t, h ht, same_self t⟩

lemma Covered.trans {ts us vs : List TypeExpr} (h : Covered ts us) (h' : Covered us vs) :
    Covered ts vs := by
  intro t ht
  obtain ⟨u, hu, htu⟩ := h t ht
  obtain ⟨v, hv, huv⟩ := h' u hu
  exact ⟨v, hv, same_trans htu huv⟩

/-- Types that cover each other can be matched one by one if there are no repetitions. -/
lemma matchAll_of_covered {ts us : List TypeExpr} (hts : Unrepeated ts) (hus : Unrepeated us)
    (h : Covered ts us) (h' : Covered us ts) : matchAll same ts us = true := by
  induction ts generalizing us with
  | nil =>
    cases us with
    | nil => rfl
    | cons u us =>
      obtain ⟨t, ht, -⟩ := h' u List.mem_cons_self
      cases ht
  | cons t ts ih =>
    rw [Unrepeated, List.pairwise_cons] at hts
    obtain ⟨u, hu, htu⟩ := h t List.mem_cons_self
    cases found : us.findIdx? (t.same ·) with
    | none =>
      have none := List.findIdx?_eq_none_iff.1 found u hu
      rw [htu] at none
      cases none
    | some i =>
      obtain ⟨hi, taken, -⟩ := List.findIdx?_eq_some_iff_getElem.1 found
      have split : (us[i] :: us.eraseIdx i).Perm us := List.getElem_cons_eraseIdx_perm hi
      have rest : Unrepeated (us[i] :: us.eraseIdx i) :=
        split.symm.pairwise hus fun {v w} hvw => by rwa [same_comm]
      rw [Unrepeated, List.pairwise_cons] at rest
      simp only [matchAll, found]
      refine ih hts.2 rest.2 (fun v hv => ?_) fun v hv => ?_
      · obtain ⟨w, hw, hvw⟩ := h v (List.mem_cons_of_mem _ hv)
        rcases List.mem_cons.1 (split.symm.subset hw) with rfl | hw
        · have other := hts.1 v hv
          rw [same_trans taken (same_symm hvw)] at other
          cases other
        · exact ⟨w, hw, hvw⟩
      · obtain ⟨w, hw, hvw⟩ := h' v (split.subset (List.mem_cons_of_mem _ hv))
        rcases List.mem_cons.1 hw with rfl | hw
        · have other := rest.1 v hv
          rw [same_trans (same_symm taken) (same_symm hvw)] at other
          cases other
        · exact ⟨w, hw, hvw⟩

/-- List types are equal if the members that they are made of cover each other. -/
lemma same_listOf {m m' : Mark} {ts us : List TypeExpr} (h : Covered ts us) (h' : Covered us ts) :
    (listOf m ts).same (listOf m' us) = true := by
  have kept (ts : List TypeExpr) : Covered (withoutRepeats ts) ts :=
    covered_of_subset (withoutRepeats_subset ts)
  exact alike_iff.1 (.list (matchAll_of_covered (unrepeated_withoutRepeats ts)
    (unrepeated_withoutRepeats us) (((kept ts).trans h).trans (covered_withoutRepeats us))
    (((kept us).trans h').trans (covered_withoutRepeats ts))))

end TypeExpr

end TypeNotation
