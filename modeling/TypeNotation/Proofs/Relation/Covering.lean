import TypeNotation.Relation.Interval
import TypeNotation.Proofs.Relation.Holds

/-!
# What an interval is covered by

If a number lies in none of the intervals of a union, then following these intervals does not lead
past the number: each interval that is followed starts no later than where the one before ends.
-/

namespace TypeNotation

open TypeExpr

namespace Span

/-- A span between two literals, neither of them being what is not a number. -/
structure Literal (s : Span) (x y : Number) : Prop where
  low : ∃ p, s.low = .literal p x
  high : ∃ p, s.high = .literal p y
  lowPlace : x.place ≠ .nan
  highPlace : y.place ≠ .nan

/-- A span of literals that does not hold a number. -/
def Misses (s : Span) (z : Number) : Prop :=
  ∃ low high, s.Literal low high ∧ ¬ Number.Between low high z

lemma mapM_keyed {spans : List Span} {keyed : List (LogScale × Span)}
    (h : (spans.mapM fun s => do return (← s.low.scale, s)) = .ok keyed) :
    keyed.map (·.2) = spans := by
  induction spans generalizing keyed with
  | nil =>
    rw [List.mapM_nil, pure_eq_ok] at h
    rw [← h]
    rfl
  | cons s spans ih =>
    rw [List.mapM_cons] at h
    obtain ⟨k, hk, h⟩ := bind_eq_ok.1 h
    obtain ⟨ks, hks, h⟩ := bind_eq_ok.1 h
    rw [pure_eq_ok] at h
    obtain ⟨scale, -, hk⟩ := bind_eq_ok.1 hk
    rw [pure_eq_ok] at hk
    rw [← h, ← hk, List.map_cons, ih hks]

/-- Putting spans in order adds none. -/
lemma subset_of_sortByLow {spans sorted : List Span} (h : sortByLow spans = .ok sorted) :
    sorted ⊆ spans := by
  obtain ⟨keyed, hkeyed, h⟩ := bind_eq_ok.1 h
  rw [pure_eq_ok] at h
  intro s hs
  rw [← h] at hs
  obtain ⟨p, hp, rfl⟩ := List.mem_map.1 hs
  rw [← mapM_keyed hkeyed]
  exact List.mem_map_of_mem (List.mem_mergeSort.1 hp)

/-- From a number on that is not greater than one that all spans miss, and to one that is greater,
there is no way along the spans. -/
lemma not_reach {spans : List Span} {target current z : Number} {p q : Option Position}
    (misses : ∀ s ∈ spans, s.Misses z) (hz : z.place ≠ .nan) (hcurrent : current.place ≠ .nan)
    (le : z.place.isLeftOf current.place = false) (lt : z.place.isLeftOf target.place = true) :
    reach (.literal p target) (.literal q current) spans ≠ .ok true := by
  induction spans generalizing current q with
  | nil => simp [reach]
  | cons s spans ih =>
    rw [List.forall_mem_cons] at misses
    obtain ⟨⟨low, high, lit, hnot⟩, misses⟩ := misses
    obtain ⟨p₁, hlow⟩ := lit.low
    obtain ⟨p₂, hhigh⟩ := lit.high
    have skip := ih misses hcurrent le (q := q)
    simp only [reach, hlow, hhigh, Numeral.compare_literal, bind, Except.bind]
    by_cases hstart : low.compare current = .gt
    · simpa [hstart] using skip
    · simp only [hstart, if_false]
      by_cases hend : high.compare current = .gt
      · have hstart : current.place.isLeftOf low.place = false := by
          rw [← Bool.not_eq_true, ← Place.compare_eq_gt]
          exact hstart
        have hle : z.place.isLeftOf low.place = false :=
          Place.not_isLeftOf_trans hcurrent hstart le
        have hpast : z.place.isLeftOf high.place = false := by
          rw [← Bool.not_eq_true]
          exact fun h => hnot ⟨hz, hle, h⟩
        have hshort : high.compare target = .lt :=
          Place.compare_eq_lt.2 (Place.isLeftOf_of_not_of_isLeftOf lit.highPlace hpast lt)
        simpa [hend, hshort] using ih misses lit.highPlace hpast (q := p₂)
      · simpa [hend] using skip

end Span

/-- An interval is covered where the spans of the union, put in order, lead to its end. -/
lemma Heap.reach_of_covers {h : Heap} {bound : Nat} {low high : Numeral} {t : TypeExpr}
    (covers : h.covers bound low high t = .ok true) :
    ∃ found seen sorted, h.spansFrom bound t [] = .ok (found, seen) ∧
      Span.sortByLow found = .ok sorted ∧ Span.reach high low sorted = .ok true := by
  obtain ⟨spans, hspans, covers⟩ := bind_eq_ok.1 covers
  obtain ⟨⟨found, seen⟩, hfrom, hspans⟩ := bind_eq_ok.1 hspans
  rw [pure_eq_ok] at hspans
  subst hspans
  cases hsorted : Span.sortByLow found with
  | error fault =>
    simp only [hsorted, bind, Except.bind, Query.ofArithmetic] at covers
    cases covers
  | ok sorted =>
    simp only [hsorted, bind, Except.bind] at covers
    cases hreach : Span.reach high low sorted with
    | error fault =>
      rw [hreach] at covers
      cases covers
    | ok r =>
      rw [hreach] at covers
      cases covers
      exact ⟨found, seen, sorted, hfrom, hsorted, hreach⟩

/-- A number that is out of a union is missed by all spans of the union, if what a number is out of
is known from the spans. -/
lemma Heap.misses_of_spansFrom {h : Heap} {Out : TypeExpr → Prop} {z : Number}
    (named : ∀ {m name args}, Out (.named m name args) → Out (h.unfold (.named m name args)))
    (union : ∀ {m left right}, Out (.union m left right) → Out left ∧ Out right)
    (interval : ∀ {m low high}, Out (.interval m low high) → Span.Misses ⟨low, high⟩ z)
    {bound : Nat} {t : TypeExpr} {seen seen' : List TypeExpr} {spans : List Span}
    (hspans : h.spansFrom bound t seen = .ok (spans, seen')) (hout : Out t) :
    ∀ s ∈ spans, s.Misses z := by
  induction bound generalizing t seen seen' spans with
  | zero => cases hspans
  | succ bound ih =>
    rw [Heap.spansFrom] at hspans
    by_cases hseen : t ∈ seen
    · simp only [hseen, if_true, Except.ok.injEq, Prod.mk.injEq] at hspans
      simp [← hspans.1]
    · simp only [hseen, if_false] at hspans
      cases t with
      | named mk name args => exact ih hspans (named hout)
      | union mk left right =>
        obtain ⟨⟨ls, seen₁⟩, hl, hspans⟩ := bind_eq_ok.1 hspans
        obtain ⟨⟨rs, seen₂⟩, hr, hspans⟩ := bind_eq_ok.1 hspans
        rw [pure_eq_ok, Prod.mk.injEq] at hspans
        rw [← hspans.1, List.forall_mem_append]
        exact ⟨ih hl (union hout).1, ih hr (union hout).2⟩
      | interval mk low high =>
        simp only [Except.ok.injEq, Prod.mk.injEq] at hspans
        rw [← hspans.1, List.forall_mem_singleton]
        exact interval hout
      | _ =>
        simp only [Except.ok.injEq, Prod.mk.injEq] at hspans
        simp [← hspans.1]

/-- A number of an interval is not out of what covers the interval. -/
lemma Heap.not_out_of_covers {h : Heap} (Out : TypeExpr → Prop) {low high z : Number}
    (named : ∀ {m name args}, Out (.named m name args) → Out (h.unfold (.named m name args)))
    (union : ∀ {m left right}, Out (.union m left right) → Out left ∧ Out right)
    (interval : ∀ {m low high}, Out (.interval m low high) → Span.Misses ⟨low, high⟩ z)
    {p q : Option Position} {t : TypeExpr} (hlow : low.place ≠ .nan) {bound : Nat}
    (covers : h.covers bound (.literal p low) (.literal q high) t = .ok true)
    (between : Number.Between low high z) : ¬ Out t := by
  intro hout
  obtain ⟨found, seen, sorted, hfrom, hsorted, hreach⟩ := Heap.reach_of_covers covers
  have misses := misses_of_spansFrom named union interval hfrom hout
  exact Span.not_reach (fun s hs => misses s (Span.subset_of_sortByLow hsorted hs)) between.place
    hlow between.low between.high hreach

namespace Matcher

variable {m : Matcher} {K : TypeExpr → Prop} {t : TypeExpr}

/-- A number of an interval that is covered by a union inhabits the union. -/
lemma holds_of_covers {classed : Prop} (concrete : m.heap.Concrete K classed)
    {p q : Option Position} {low high z : Number} (ht : K t) (hlow : low.place ≠ .nan) {bound : Nat}
    (covers : m.heap.covers bound (.literal p low) (.literal q high) t = .ok true)
    (between : Number.Between low high z) : m.Holds (.number z) t := by
  by_contra hout
  refine Heap.not_out_of_covers (fun t => K t ∧ ¬ m.Holds (.number z) t) ?_ ?_ ?_ hlow covers
    between ⟨ht, hout⟩
  · rintro mk name args ⟨ht, hout⟩
    exact ⟨concrete.unfold ht, fun h => hout (holds_named.2 h)⟩
  · rintro mk left right ⟨ht, hout⟩
    rw [holds_union concrete (.number z) ht, not_or] at hout
    exact ⟨⟨concrete.part ht rfl (by simp [valueParts, parts]), hout.1⟩,
      ⟨concrete.part ht rfl (by simp [valueParts, parts]), hout.2⟩⟩
  · rintro mk low high ⟨ht, hout⟩
    obtain ⟨p, q, x, y, rfl, rfl, hx, hy⟩ := concrete.interval ht
    exact ⟨x, y, ⟨⟨p, rfl⟩, ⟨q, rfl⟩, hx, hy⟩, fun between =>
      hout (holds_interval.2 ⟨z, rfl, between⟩)⟩

end Matcher

end TypeNotation
