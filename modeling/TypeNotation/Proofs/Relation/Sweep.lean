import TypeNotation.Proofs.Number.Comparison
import TypeNotation.Proofs.Relation.Answers
import TypeNotation.Proofs.Relation.Covering

/-!
# Intervals that are covered together

The intervals at the leaves of a union are put in the order of the measures of their lower ends, and
then followed.  If none starts earlier than one before it, following them finds out whether they
hold all numbers of an interval: where the next one starts too late, the number at hand is held by
none. So the answer depends neither on the order nor on the nesting in which a union is written.

Measures are logarithms that have been rounded, and lower ends that are close together may have one
measure.  Intervals with such ends stay in the order in which they are written, and then an interval
may be covered without being found below the union.  What is found is right even then.
-/

namespace TypeNotation

open TypeExpr Query

namespace TypeExpr

/-- The intervals at the leaves of a union, from left to right. -/
def leaves : TypeExpr → List Span
  | union _ left right => left.leaves ++ right.leaves
  | interval _ low high => [⟨low, high⟩]
  | _ => []

/-- A union of intervals between literals. -/
inductive Spread : TypeExpr → Prop
  | interval (m : Mark) {low high : Numeral} {x y : Number} :
    Span.Literal ⟨low, high⟩ x y → Spread (.interval m low high)
  | union (m : Mark) {left right : TypeExpr} : Spread left → Spread right →
    Spread (.union m left right)

end TypeExpr

namespace Number

/-- A number from which on there are others is one of those. -/
lemma between_self {low high : Number} (h : low.place.isLeftOf high.place = true) :
    Between low high low := by
  refine ⟨?_, ?_, h⟩
  · intro nan
    rw [nan] at h
    cases h
  · exact Place.isLeftOf_self low.place

end Number

namespace Span

variable {s t : Span} {spans : List Span} {x y z low high : Number}

/-- A span of literals that holds a number. -/
def Has (s : Span) (z : Number) : Prop :=
  ∃ low high, s.Literal low high ∧ Number.Between low high z

/-- Spans that together hold all numbers from one on up to, but not including, another. -/
def Cover (spans : List Span) (low high : Number) : Prop :=
  ∀ z, Number.Between low high z → ∃ s ∈ spans, s.Has z

lemma Cover.mono {spans' : List Span} (h : Cover spans low high) (sub : spans ⊆ spans') :
    Cover spans' low high := by
  intro z hz
  obtain ⟨s, hs, has⟩ := h z hz
  exact ⟨s, sub hs, has⟩

lemma Literal.has_iff (h : s.Literal low high) : s.Has z ↔ Number.Between low high z := by
  constructor
  · rintro ⟨low', high', ⟨⟨p, hp⟩, ⟨q, hq⟩, -, -⟩, hz⟩
    obtain ⟨p', hp'⟩ := h.low
    obtain ⟨q', hq'⟩ := h.high
    cases hp.symm.trans hp'
    cases hq.symm.trans hq'
    exact hz
  · exact fun hz => ⟨low, high, h, hz⟩

/-- Where a span starts; a span from no place on is taken to start at the lower end. -/
def start (s : Span) : Place :=
  match s.low with
  | .literal _ x => if x.isNaN then .below else x.place
  | .power .. => .below

lemma start_ne_nan (s : Span) : s.start ≠ .nan := by
  rw [start]
  split
  · split_ifs with number
    · simp
    · exact Number.isNaN_eq_false.1 (by simpa using number)
  · simp

lemma Literal.start (h : s.Literal low high) : s.start = low.place := by
  obtain ⟨p, hp⟩ := h.low
  simp [Span.start, hp, Number.isNaN, h.lowPlace]

/-! ## Following spans in order -/

section Following

variable {target current : Number}

/-- Where all spans start later, the number at hand is not covered. -/
lemma not_cover_of_later (literal : ∀ s ∈ spans, ∃ x y, s.Literal x y)
    (h : current.place.isLeftOf target.place = true)
    (later : ∀ s ∈ spans, current.place.isLeftOf s.start = true) :
    ¬ Cover spans current target := by
  intro cover
  obtain ⟨s, hs, has⟩ := cover current (Number.between_self h)
  obtain ⟨low, high, lit⟩ := literal s hs
  have starts := (lit.has_iff.1 has).low
  rw [← lit.start, later s hs] at starts
  cases starts

/-- A span that has ended does not count. -/
lemma cover_cons_of_ended (lit : s.Literal low high) (number : current.place ≠ .nan)
    (ended : current.place.isLeftOf high.place = false) :
    Cover (s :: spans) current target ↔ Cover spans current target := by
  refine ⟨fun cover z hz => ?_, fun cover => cover.mono (List.subset_cons_self s spans)⟩
  obtain ⟨t, ht, has⟩ := cover z hz
  rcases List.mem_cons.1 ht with rfl | ht
  · have past := Place.not_isLeftOf_trans number ended hz.low
    rw [(lit.has_iff.1 has).high] at past
    cases past
  · exact ⟨t, ht, has⟩

/-- A span that has started holds all numbers up to its end. -/
lemma cover_cons_of_started (lit : s.Literal low high) (number : current.place ≠ .nan)
    (started : current.place.isLeftOf low.place = false)
    (ends : current.place.isLeftOf high.place = true) :
    Cover (s :: spans) current target ↔ Cover spans high target := by
  constructor
  · intro cover z hz
    have hcurrent := Place.not_isLeftOf_trans lit.highPlace (Place.not_isLeftOf_of_isLeftOf ends)
      hz.low
    obtain ⟨t, ht, has⟩ := cover z ⟨hz.place, hcurrent, hz.high⟩
    rcases List.mem_cons.1 ht with rfl | ht
    · have within := (lit.has_iff.1 has).high
      rw [hz.low] at within
      cases within
    · exact ⟨t, ht, has⟩
  · intro cover z hz
    cases past : z.place.isLeftOf high.place with
    | true =>
      have hlow := Place.not_isLeftOf_trans number started hz.low
      exact ⟨s, List.mem_cons_self, lit.has_iff.2 ⟨hz.place, hlow, past⟩⟩
    | false =>
      obtain ⟨t, ht, has⟩ := cover z ⟨hz.place, past, hz.high⟩
      exact ⟨t, List.mem_cons_of_mem s ht, has⟩

/-- Spans none of which starts left of one that stands before it. -/
def Sorted (spans : List Span) : Prop :=
  spans.Pairwise fun s t => t.start.isLeftOf s.start = false

/-- Following spans that are sorted leads from one number to another just if all numbers between are
in one of the spans. -/
lemma reach_iff {p q : Option Position} (literal : ∀ s ∈ spans, ∃ x y, s.Literal x y)
    (sorted : Sorted spans) (h : current.place.isLeftOf target.place = true) :
    ∃ r, reach (.literal p target) (.literal q current) spans = .ok r ∧
      (r = true ↔ Cover spans current target) := by
  induction spans generalizing current q with
  | nil =>
    refine ⟨false, rfl, ?_⟩
    simpa using not_cover_of_later (by simp) h (by simp)
  | cons s spans ih =>
    have gap := not_cover_of_later literal h
    rw [List.forall_mem_cons] at literal
    obtain ⟨⟨low, high, lit⟩, literal⟩ := literal
    obtain ⟨first, sorted⟩ := List.pairwise_cons.1 sorted
    obtain ⟨p₁, hlow⟩ := lit.low
    obtain ⟨p₂, hhigh⟩ := lit.high
    have number := (Number.between_self h).place
    obtain ⟨r, hr, passed⟩ := ih (q := q) literal sorted h
    simp only [reach, hlow, hhigh, Numeral.compare_literal, bind, Except.bind]
    by_cases hstart : low.compare current = .gt
    · -- all later spans start no earlier, so nothing holds the number at hand
      have before : current.place.isLeftOf s.start = true := by
        rw [lit.start]
        exact Place.compare_eq_gt.1 hstart
      have uncovered : ¬ Cover (s :: spans) current target := by
        refine gap (List.forall_mem_cons.2 ⟨before, fun t ht => ?_⟩)
        exact Place.isLeftOf_of_isLeftOf_of_not t.start_ne_nan before (first t ht)
      refine ⟨r, by simpa [hstart] using hr, ?_⟩
      refine ⟨fun reached => ?_, fun cover => (uncovered cover).elim⟩
      exact (passed.1 reached).mono (List.subset_cons_self s spans)
    · have started : current.place.isLeftOf low.place = false := by
        rw [← Bool.not_eq_true, ← Place.compare_eq_gt]
        exact hstart
      by_cases hend : high.compare current = .gt
      · have ends := Place.compare_eq_gt.1 hend
        rw [cover_cons_of_started lit number started ends]
        by_cases hshort : high.compare target = .lt
        · simpa [hstart, hend, hshort] using ih (q := p₂) literal sorted
            (Place.compare_eq_lt.1 hshort)
        · have reached : high.place.isLeftOf target.place = false := by
            rw [← Bool.not_eq_true, ← Place.compare_eq_lt]
            exact hshort
          refine ⟨true, by simp [hstart, hend, hshort, pure, Except.pure], ?_⟩
          refine ⟨fun _ z hz => ?_, fun _ => rfl⟩
          have := Place.isLeftOf_of_not_of_isLeftOf lit.highPlace hz.low hz.high
          rw [reached] at this
          cases this
      · have ended : current.place.isLeftOf high.place = false := by
          rw [← Bool.not_eq_true, ← Place.compare_eq_gt]
          exact hend
        rw [cover_cons_of_ended lit number ended]
        exact ⟨r, by simpa [hstart, hend] using hr, passed⟩

end Following

/-! ## Sorting by measure -/

/-- The measures by which spans are sorted: each span has one for where it starts, and they are in
the order of the starts. -/
structure Keyed (spans : List Span) : Prop where
  measured : ∀ s ∈ spans, s.low.Measured
  consistent : ∀ s ∈ spans, ∀ t ∈ spans, Numeral.Consistent s.low t.low

lemma Keyed.subset {spans' : List Span} (h : Keyed spans) (sub : spans' ⊆ spans) :
    Keyed spans' :=
  ⟨fun s hs => h.measured s (sub hs), fun s hs t ht => h.consistent s (sub hs) t (sub ht)⟩

lemma exists_keyed (measured : ∀ s ∈ spans, s.low.Measured) :
    ∃ keyed, (spans.mapM fun s => do return (← s.low.scale, s) :
        Except ArithmeticFault (List (LogScale × Span))) = .ok keyed ∧
      ∀ k ∈ keyed, k.2.low.scale = .ok k.1 := by
  induction spans with
  | nil => exact ⟨[], rfl, by simp⟩
  | cons s spans ih =>
    rw [List.forall_mem_cons] at measured
    obtain ⟨⟨k, hk⟩, measured⟩ := measured
    obtain ⟨keyed, hkeyed, scales⟩ := ih measured
    refine ⟨(k, s) :: keyed, ?_, List.forall_mem_cons.2 ⟨hk, scales⟩⟩
    rw [List.mapM_cons, hk, hkeyed]
    rfl

/-- Measures of starts that are in order tell which span starts first. -/
lemma before_eq {x y : Number} (hs : s.Literal low high) (ht : t.Literal x y)
    (consistent : Numeral.Consistent s.low t.low) {k l : LogScale} (hk : s.low.scale = .ok k)
    (hl : t.low.scale = .ok l) : k.before l = s.start.isLeftOf t.start := by
  rw [hs.start, ht.start, Bool.eq_iff_iff, LogScale.before, decide_eq_true_iff,
    ← Place.compare_eq_lt]
  obtain ⟨p, hp⟩ := hs.low
  obtain ⟨q, hq⟩ := ht.low
  rw [hp] at hk consistent
  rw [hq] at hl consistent
  rw [Numeral.compare_scale (.inl ⟨p, low, rfl, Number.isNaN_eq_false.2 hs.lowPlace⟩)
    (.inl ⟨q, x, rfl, Number.isNaN_eq_false.2 ht.lowPlace⟩) consistent hk hl
      Numeral.compare_literal]
  rfl

/-- Spans that have measures are sorted by them. -/
lemma exists_sorted (literal : ∀ s ∈ spans, ∃ x y, s.Literal x y) (keys : Keyed spans) :
    ∃ sorted, sortByLow spans = .ok sorted ∧ sorted.Perm spans ∧ Sorted sorted := by
  obtain ⟨keyed, hkeyed, scales⟩ := exists_keyed keys.measured
  have members := mapM_keyed hkeyed
  have order : ∀ k ∈ keyed, ∀ l ∈ keyed,
      (!l.1.before k.1) = !l.2.start.isLeftOf k.2.start := by
    intro k hk l hl
    have hk' : k.2 ∈ spans := members ▸ List.mem_map_of_mem hk
    have hl' : l.2 ∈ spans := members ▸ List.mem_map_of_mem hl
    obtain ⟨x, y, hx⟩ := literal _ hl'
    obtain ⟨x', y', hx'⟩ := literal _ hk'
    rw [before_eq hx hx' (keys.consistent _ hl' _ hk') (scales l hl) (scales k hk)]
  refine ⟨spans.mergeSort fun s t => !t.start.isLeftOf s.start, ?_, List.mergeSort_perm _ _, ?_⟩
  · rw [sortByLow, hkeyed]
    show Except.ok _ = Except.ok _
    rw [List.map_mergeSort (s := fun s t => !t.start.isLeftOf s.start) order, members]
  · refine (List.pairwise_mergeSort (fun s t u h h' => ?_) (fun s t => ?_) spans).imp fun h => ?_
    · rw [Bool.not_eq_true'] at h h' ⊢
      exact Place.not_isLeftOf_trans t.start_ne_nan h h'
    · cases h : t.start.isLeftOf s.start with
      | false => rfl
      | true => rw [Place.not_isLeftOf_of_isLeftOf h]; rfl
    · simpa using h

/-- Spans that lead from one number to another hold what is between, in whatever order they
stand. -/
lemma cover_of_reach {target current : Number} {p q : Option Position}
    (literal : ∀ s ∈ spans, ∃ x y, s.Literal x y)
    (h : current.place.isLeftOf target.place = true)
    (reached : reach (.literal p target) (.literal q current) spans = .ok true) :
    Cover spans current target := by
  intro z hz
  by_contra hout
  have misses : ∀ s ∈ spans, s.Misses z := by
    intro s hs
    obtain ⟨low, high, lit⟩ := literal s hs
    exact ⟨low, high, lit, fun between => hout ⟨s, hs, lit.has_iff.2 between⟩⟩
  exact not_reach misses hz.place (Number.between_self h).place hz.low hz.high reached

end Span

namespace TypeExpr

/-- The leaves of a union of intervals are intervals between literals. -/
lemma Spread.literal {t : TypeExpr} (ht : t.Spread) : ∀ s ∈ t.leaves, ∃ x y, s.Literal x y := by
  induction ht with
  | interval m lit => exact List.forall_mem_singleton.2 ⟨_, _, lit⟩
  | union m _ _ ihl ihr => exact List.forall_mem_append.2 ⟨ihl, ihr⟩

end TypeExpr

namespace Heap

variable {h : Heap} {t : TypeExpr} {low high : Number} {p q : Option Position}

/-- The walk for spans finds none but the leaves of a union. -/
lemma spansFrom_subset (ht : t.Spread) {bound : Nat} {seen seen' : List TypeExpr}
    {found : List Span} (hspans : h.spansFrom bound t seen = .ok (found, seen')) :
    found ⊆ t.leaves := by
  induction ht generalizing bound seen seen' found with
  | interval m lit =>
    cases bound with
    | zero => cases hspans
    | succ bound =>
      rw [spansFrom] at hspans
      split at hspans
      · cases hspans
        simp
      · cases hspans
        simp [leaves]
  | union m _ _ ihl ihr =>
    cases bound with
    | zero => cases hspans
    | succ bound =>
      rw [spansFrom] at hspans
      split at hspans
      · cases hspans
        simp
      · obtain ⟨⟨ls, seen₁⟩, hl, hspans⟩ := bind_eq_ok.1 hspans
        obtain ⟨⟨rs, seen₂⟩, hr, hspans⟩ := bind_eq_ok.1 hspans
        rw [pure_eq_ok, Prod.mk.injEq] at hspans
        rw [← hspans.1, leaves]
        exact List.append_subset.2 ⟨List.subset_append_of_subset_left _ (ihl hl),
          List.subset_append_of_subset_right _ (ihr hr)⟩

/-- The walk finds all leaves of a union, if those of the nodes that it is not to enter again have
been found before.  A node is among these nodes while its parts are walked, but it is larger. -/
lemma spansFrom_complete (ht : t.Spread) (bound : Nat) (seen : List TypeExpr)
    (before : List Span) (hbound : sizeOf t ≤ bound)
    (complete : ∀ u ∈ seen, sizeOf u ≤ sizeOf t → u.leaves ⊆ before) :
    ∃ found seen', h.spansFrom bound t seen = .ok (found, seen') ∧ t.leaves ⊆ before ++ found ∧
      ∀ u ∈ seen', u ∈ seen ∨ u.leaves ⊆ before ++ found := by
  induction ht generalizing bound seen before with
  | interval m lit =>
    obtain ⟨bound, rfl⟩ : ∃ k, bound = k + 1 := ⟨bound - 1, by simp at hbound; omega⟩
    rw [spansFrom]
    split
    · next entered =>
      exact ⟨[], seen, rfl, by simpa using complete _ entered le_rfl, fun u hu => .inl hu⟩
    · refine ⟨_, _, rfl, by simp [leaves], fun u hu => ?_⟩
      rcases List.mem_cons.1 hu with rfl | hu
      · exact .inr (by simp [leaves])
      · exact .inl hu
  | @union m left right _ _ ihl ihr =>
    have size : sizeOf (TypeExpr.union m left right) = 1 + sizeOf m + sizeOf left +
      sizeOf right := by
      simp
    obtain ⟨bound, rfl⟩ : ∃ k, bound = k + 1 := ⟨bound - 1, by omega⟩
    rw [spansFrom]
    split
    · next entered =>
      exact ⟨[], seen, rfl, by simpa using complete _ entered le_rfl, fun u hu => .inl hu⟩
    · have smaller : ∀ u ∈ TypeExpr.union m left right :: seen,
          sizeOf u < sizeOf (TypeExpr.union m left right) → u.leaves ⊆ before := by
        intro u hu hlt
        rcases List.mem_cons.1 hu with rfl | hu
        · exact absurd hlt (lt_irrefl _)
        · exact complete u hu hlt.le
      obtain ⟨ls, seen₁, hl, lefts, known₁⟩ :=
        ihl bound _ before (by omega) fun u hu hle => smaller u hu (by omega)
      obtain ⟨rs, seen₂, hr, rights, known₂⟩ :=
        ihr bound seen₁ (before ++ ls) (by omega) fun u hu hle => by
          rcases known₁ u hu with hu | hu
          · exact List.Subset.trans (smaller u hu (by omega)) (List.subset_append_left _ _)
          · exact hu
      rw [List.append_assoc] at rights
      have all : (TypeExpr.union m left right).leaves ⊆ before ++ (ls ++ rs) := by
        rw [leaves]
        refine List.append_subset.2 ⟨List.Subset.trans lefts ?_, rights⟩
        rw [← List.append_assoc]
        exact List.subset_append_left _ _
      refine ⟨ls ++ rs, seen₂, bind_eq_ok.2 ⟨_, hl, bind_eq_ok.2 ⟨_, hr, rfl⟩⟩, all, fun u hu => ?_⟩
      rcases known₂ u hu with hu | hu
      · rcases known₁ u hu with hu | hu
        · rcases List.mem_cons.1 hu with rfl | hu
          · exact .inr all
          · exact .inl hu
        · refine .inr (List.Subset.trans hu ?_)
          rw [← List.append_assoc]
          exact List.subset_append_left _ _
      · exact .inr (by rwa [← List.append_assoc])

/-- The spans of a union of intervals are its leaves. -/
lemma spans_eq_ok (ht : t.Spread) {bound : Nat} (hbound : sizeOf t ≤ bound) :
    ∃ found, h.spans bound t = .ok found ∧ found ⊆ t.leaves ∧ t.leaves ⊆ found := by
  obtain ⟨found, seen, hspans, all, -⟩ :=
    spansFrom_complete (h := h) ht bound [] [] hbound (by simp)
  refine ⟨found, ?_, spansFrom_subset ht hspans, all⟩
  rw [spans, hspans]
  rfl

/-- Whether an interval is covered by a union of intervals is answered. -/
lemma covers_eq_ok (ht : t.Spread) (keys : Span.Keyed t.leaves)
    (hlow : low.place.isLeftOf high.place = true) {bound : Nat} (hbound : sizeOf t ≤ bound) :
    ∃ r, h.covers bound (.literal p low) (.literal q high) t = .ok r ∧
      (r = true ↔ Span.Cover t.leaves low high) := by
  obtain ⟨found, hspans, sub, all⟩ := spans_eq_ok (h := h) ht hbound
  obtain ⟨sorted, hsorted, perm, order⟩ :=
    Span.exists_sorted (fun s hs => ht.literal s (sub hs)) (keys.subset sub)
  obtain ⟨r, hr, iff⟩ := Span.reach_iff (p := q) (q := p)
    (fun s hs => ht.literal s (sub (perm.subset hs))) order hlow
  refine ⟨r, ?_, iff.trans ⟨fun cover =>
    cover.mono (List.Subset.trans perm.subset sub), fun cover =>
    cover.mono (List.Subset.trans all perm.symm.subset)⟩⟩
  rw [covers, hspans]
  simp only [bind, Except.bind, hsorted, hr]
  rfl

/-- A covered interval is covered. -/
lemma cover_of_covers (ht : t.Spread) (hlow : low.place.isLeftOf high.place = true) {bound : Nat}
    (covers : h.covers bound (.literal p low) (.literal q high) t = .ok true) :
    Span.Cover t.leaves low high := by
  obtain ⟨found, seen, sorted, hfrom, hsorted, hreach⟩ := reach_of_covers covers
  have subset := List.Subset.trans (Span.subset_of_sortByLow hsorted) (spansFrom_subset ht hfrom)
  exact (Span.cover_of_reach (fun s hs => ht.literal s (subset hs)) hlow hreach).mono subset

end Heap

namespace Matcher

variable {m : Matcher} {mk : Mark} {low high : Number} {p q : Option Position} {b : TypeExpr}
  {depth : Nat}

lemma subtype_interval_union {assumed : Assumed} {mk' : Mark} {left right : TypeExpr} :
    m.subtype (depth + 1) assumed [] [] (.interval mk (.literal p low) (.literal q high))
        (.union mk' left right) = (do
      let sub := m.subtype depth assumed [] [] (.interval mk (.literal p low) (.literal q high))
      if ← sub left then return true
      if ← sub right then return true
      m.heap.covers depth (.literal p low) (.literal q high) (.union mk' left right)) := by
  rw [subtype]
  simp only [isReferring, Bool.or_false, Bool.false_eq_true, if_false, same, isAny, subjectRule?,
    objectRule?]

lemma subtype_intervals {assumed : Assumed} {mk' : Mark} {low' high' : Numeral} :
    m.subtype (depth + 1) assumed [] [] (.interval mk (.literal p low) (.literal q high))
        (.interval mk' low' high') =
      if (TypeExpr.interval mk (.literal p low) (.literal q high)).same (.interval mk' low' high')
      then .ok true
      else intervalRule (.literal p low) (.literal q high) low' high' := by
  rw [subtype]
  simp only [isReferring, Bool.or_false, Bool.false_eq_true, if_false, same, isAny, subjectRule?,
    objectRule?, structureRule]

/-- Comparing the ends of two intervals tells whether one is within the other. -/
lemma intervalRule_iff {low' high' : Numeral} {x y : Number} (lit : Span.Literal ⟨low', high'⟩ x y)
    (hlow : low.place.isLeftOf high.place = true) :
    ∃ r, intervalRule (.literal p low) (.literal q high) low' high' = .ok r ∧
      (r = true ↔ Span.Cover [⟨low', high'⟩] low high) := by
  obtain ⟨p', rfl⟩ := lit.low
  obtain ⟨q', rfl⟩ := lit.high
  have number := (Number.between_self hlow).place
  have within : Span.Cover [⟨.literal p' x, .literal q' y⟩] low high ↔
      ¬ x.compare low = .gt ∧ ¬ high.compare y = .gt := by
    rw [Number.compare, Number.compare, Place.compare_eq_gt, Place.compare_eq_gt, Bool.not_eq_true,
      Bool.not_eq_true]
    constructor
    · intro cover
      obtain ⟨s, hs, has⟩ := cover low (Number.between_self hlow)
      cases List.mem_singleton.1 hs
      have start := lit.has_iff.1 has
      refine ⟨start.low, Bool.eq_false_iff.2 fun ends => ?_⟩
      -- then the end of the second interval would be a number between
      obtain ⟨s, hs, has⟩ := cover y
        ⟨lit.highPlace, Place.not_isLeftOf_of_isLeftOf start.high, ends⟩
      cases List.mem_singleton.1 hs
      have itself := (lit.has_iff.1 has).high
      rw [Place.not_isLeftOf_of_isLeftOf itself] at itself
      cases itself
    · rintro ⟨starts, ends⟩ z hz
      refine ⟨_, List.mem_singleton_self _, lit.has_iff.2 ⟨hz.place, ?_, ?_⟩⟩
      · exact Place.not_isLeftOf_trans number starts hz.low
      · exact Place.isLeftOf_of_isLeftOf_of_not lit.highPlace hz.high ends
  rw [within, intervalRule]
  simp only [Numeral.compare_literal, bind, Except.bind]
  by_cases hstart : x.compare low = .gt
  · refine ⟨false, by simp [hstart, Query.ofArithmetic, pure, Except.pure], ?_⟩
    exact iff_of_false (by simp) fun starts => starts.1 hstart
  · refine ⟨high.compare y != .gt, by simp [hstart, Query.ofArithmetic, pure, Except.pure], ?_⟩
    rw [bne_iff_ne]
    exact ⟨fun ends => ⟨hstart, ends⟩, fun both => both.2⟩

/-- Intervals with the same ends hold the same numbers. -/
lemma cover_of_same {mk' : Mark} {low' high' : Numeral} {x y : Number}
    (lit : Span.Literal ⟨low', high'⟩ x y)
    (same : (TypeExpr.interval mk (.literal p low) (.literal q high)).same
      (.interval mk' low' high') = true) : Span.Cover [⟨low', high'⟩] low high := by
  obtain ⟨p', rfl⟩ := lit.low
  obtain ⟨q', rfl⟩ := lit.high
  simp only [TypeExpr.same, Numeral.same, Number.same, Bool.and_eq_true, decide_eq_true_eq] at same
  intro z hz
  refine ⟨_, List.mem_singleton_self _, lit.has_iff.2 ⟨hz.place, ?_, ?_⟩⟩
  · rw [← same.1]
    exact hz.low
  · rw [← same.2]
    exact hz.high

/-- An interval is below a union of intervals just if these cover it. -/
lemma subtype_iff_cover {assumed : Assumed} (hb : b.Spread) (keys : Span.Keyed b.leaves)
    (hlow : low.place.isLeftOf high.place = true) (hdepth : sizeOf b < depth) :
    ∃ r, m.subtype depth assumed [] [] (.interval mk (.literal p low) (.literal q high)) b = .ok r ∧
      (r = true ↔ Span.Cover b.leaves low high) := by
  obtain ⟨depth, rfl⟩ : ∃ k, depth = k + 1 := ⟨depth - 1, by omega⟩
  induction hb generalizing depth with
  | interval mk' lit =>
    rw [subtype_intervals]
    split
    · next same => exact ⟨true, rfl, iff_of_true rfl (cover_of_same lit same)⟩
    · exact intervalRule_iff lit hlow
  | @union mk' left right hl hr ihl ihr =>
    have size : sizeOf (TypeExpr.union mk' left right) =
        1 + sizeOf mk' + sizeOf left + sizeOf right := by simp
    obtain ⟨depth, rfl⟩ : ∃ k, depth = k + 1 := ⟨depth - 1, by omega⟩
    have lefts : left.leaves ⊆ (TypeExpr.union mk' left right).leaves := List.subset_append_left _ _
    have rights : right.leaves ⊆ (TypeExpr.union mk' left right).leaves :=
      List.subset_append_right _ _
    obtain ⟨x, hx, left_iff⟩ := ihl (keys.subset lefts) depth (by omega)
    obtain ⟨y, hy, right_iff⟩ := ihr (keys.subset rights) depth (by omega)
    obtain ⟨z, hz, iff⟩ := m.heap.covers_eq_ok (p := p) (q := q) (hl.union mk' hr) keys hlow
      (show _ ≤ depth + 1 by omega)
    rw [subtype_interval_union]
    simp only [hx, hy, hz, bind, Except.bind, pure, Except.pure]
    cases x with
    | true => exact ⟨true, rfl, iff_of_true rfl ((left_iff.1 rfl).mono lefts)⟩
    | false =>
      cases y with
      | true => exact ⟨true, rfl, iff_of_true rfl ((right_iff.1 rfl).mono rights)⟩
      | false => exact ⟨z, rfl, iff⟩

/-- An interval that is found below a union of intervals is covered by them. -/
lemma cover_of_subtype {assumed : Assumed} (hb : b.Spread)
    (hlow : low.place.isLeftOf high.place = true)
    (h : m.subtype depth assumed [] [] (.interval mk (.literal p low) (.literal q high)) b =
      .ok true) : Span.Cover b.leaves low high := by
  induction hb generalizing depth with
  | interval mk' lit =>
    cases depth with
    | zero => cases h
    | succ depth =>
      rw [subtype_intervals] at h
      split at h
      · next same => exact cover_of_same lit same
      · obtain ⟨r, hr, iff⟩ := intervalRule_iff (p := p) (q := q) lit hlow
        rw [hr] at h
        cases h
        exact iff.1 rfl
  | @union mk' left right hl hr ihl ihr =>
    cases depth with
    | zero => cases h
    | succ depth =>
      rw [subtype_interval_union] at h
      obtain ⟨x, hx, h⟩ := bind_eq_ok.1 h
      cases x with
      | true => exact (ihl hx).mono (List.subset_append_left _ _)
      | false =>
        obtain ⟨y, hy, h⟩ := bind_eq_ok.1 h
        cases y with
        | true => exact (ihr hy).mono (List.subset_append_right _ _)
        | false => exact Heap.cover_of_covers (hl.union mk' hr) hlow h

/-- An interval that is found below a union of intervals is covered by them, always.  If the
measures of their lower ends are in order, whether it is below them is answered, and it is below
them if they cover it. -/
theorem isSubtype_iff_cover (hb : b.Spread) (hlow : low.place.isLeftOf high.place = true) :
    (∀ depth, m.isSubtype depth (.interval mk (.literal p low) (.literal q high)) b = .ok true →
        Span.Cover b.leaves low high) ∧
      (Span.Keyed b.leaves → ∃ answer,
        Answers (fun depth =>
          m.isSubtype depth (.interval mk (.literal p low) (.literal q high)) b) answer ∧
        (answer = true ↔ Span.Cover b.leaves low high)) := by
  refine ⟨fun depth h => cover_of_subtype hb hlow h, fun keys => ?_⟩
  have answered : ∀ depth, sizeOf b < depth → ∃ r,
      m.subtype depth [] [] [] (.interval mk (.literal p low) (.literal q high)) b = .ok r ∧
        (r = true ↔ Span.Cover b.leaves low high) := fun _ => subtype_iff_cover hb keys hlow
  by_cases cover : Span.Cover b.leaves low high
  · refine ⟨true, ⟨sizeOf b + 1, fun depth hdepth => ?_⟩, iff_of_true rfl cover⟩
    obtain ⟨r, hr, iff⟩ := answered depth (by omega)
    show m.subtype depth [] [] [] _ _ = _
    rw [hr, iff.2 cover]
  · refine ⟨false, ⟨sizeOf b + 1, fun depth hdepth => ?_⟩, iff_of_false (by simp) cover⟩
    obtain ⟨r, hr, iff⟩ := answered depth (by omega)
    show m.subtype depth [] [] [] _ _ = _
    rw [hr, Bool.eq_false_iff.2 fun reached => cover (iff.1 reached)]

/-! ### Two spans in either order -/

/-- An interval between two integers. -/
def span (low high : Int) : TypeExpr :=
  .interval (.written none) (Numeral.integer low) (Numeral.integer high)

lemma literal_span {low high : Int} :
    Span.Literal ⟨Numeral.integer low, Numeral.integer high⟩ (.int low) (.int high) :=
  ⟨⟨none, rfl⟩, ⟨none, rfl⟩, by simp [Number.place], by simp [Number.place]⟩

lemma compare_int {i j : Int} : (Number.int i).compare (.int j) = .gt ↔ j < i := by
  rw [Number.compare, Place.compare_eq_gt]
  simp [Number.place, Place.isLeftOf]

/-- An interval between integers is not below another that starts later or ends earlier. -/
lemma subtype_span {m : Matcher} {assumed : Assumed} {a b c d : Int} (h : a < c ∨ d < b) :
    m.subtype (depth + 1) assumed [] [] (span a b) (span c d) = .ok false := by
  refine subtype_intervals.trans ?_
  have different : (span a b).same (span c d) = false := by
    rw [Bool.eq_false_iff]
    simp only [span, Numeral.integer, TypeExpr.same, Numeral.same, Number.same, Number.place,
      Place.at.injEq, Rat.intCast_inj, Bool.and_eq_true, decide_eq_true_eq, ne_eq]
    omega
  rw [if_neg (by simpa [span, Numeral.integer] using different), intervalRule]
  simp only [Numeral.integer, Numeral.compare_literal, bind, Except.bind]
  rcases h with h | h
  · rw [if_pos (compare_int.2 h)]
    rfl
  · have : (Number.int b).compare (.int d) = .gt := compare_int.2 h
    split
    · rfl
    · simp [this, Query.ofArithmetic, pure, Except.pure]

/-- Two spans that meet at zero, the later one first. -/
def mirrored : TypeExpr :=
  .union (.written none) (span 0 5) (span (-3) 0)

lemma spread_mirrored : mirrored.Spread :=
  .union _ (.interval _ literal_span) (.interval _ literal_span)

lemma keyed_mirrored : Span.Keyed mirrored.leaves := by
  have sides : Numeral.Consistent (Numeral.integer 0) (Numeral.integer (-3)) ∧
      Numeral.Consistent (Numeral.integer (-3)) (Numeral.integer 0) :=
    ⟨Numeral.consistent_of_side_ne (by decide), Numeral.consistent_of_side_ne (by decide)⟩
  constructor
  · simp only [mirrored, span, leaves, List.cons_append, List.nil_append, List.forall_mem_cons]
    exact ⟨⟨_, Numeral.scale_zero⟩, Numeral.measured_iff_isOk.2 (by decide +kernel), by simp⟩
  · simp only [mirrored, span, leaves, List.cons_append, List.nil_append, List.forall_mem_cons]
    exact ⟨⟨Numeral.consistent_self _, sides.1, by simp⟩,
      ⟨sides.2, Numeral.consistent_self _, by simp⟩, by simp⟩

theorem isSubtype_mirrored :
    Answers (fun depth => (Matcher.mk .empty true).isSubtype depth
      (span (-3) 5) mirrored) true := by
  obtain ⟨answer, answers, iff⟩ := (@isSubtype_iff_cover ⟨.empty, true⟩ (.written none)
    (.int (-3)) (.int 5) none none mirrored spread_mirrored (by decide)).2 keyed_mirrored
  have cover : Span.Cover mirrored.leaves (.int (-3)) (.int 5) := by
    intro z hz
    cases negative : z.place.isLeftOf (Number.int 0).place with
    | true =>
      exact ⟨_, List.mem_append_right _ (List.mem_singleton_self _),
        literal_span.has_iff.2 ⟨hz.place, hz.low, negative⟩⟩
    | false =>
      exact ⟨_, List.mem_append_left _ (List.mem_singleton_self _),
        literal_span.has_iff.2 ⟨hz.place, negative, hz.high⟩⟩
  rw [iff.2 cover] at answers
  exact answers

/-- A whole number so large that the next one has the same measure. -/
def summit : Int := 2 ^ (60 : Nat)

/-- A span from there on, after the same span without its first number. -/
def shadowed : TypeExpr :=
  .union (.written none) (span (summit + 1) (2 * summit)) (span summit (summit + 1))

/-- Both are rounded to one double. -/
lemma scale_summit : ∃ k, (Numeral.integer summit).scale = .ok k ∧
    (Numeral.integer (summit + 1)).scale = .ok k := by
  have double : (Number.int (summit + 1)).toDouble? = (Number.int summit).toDouble? := by
    decide +kernel
  cases h : (Number.int summit).toDouble? with
  | none => exact absurd h (by decide +kernel)
  | some d =>
    refine ⟨.ofLog 1 (Float.log10 d), ?_, ?_⟩
    · rw [Numeral.scale_integer, Number.scale_positive (by decide) h]
    · rw [Numeral.scale_integer, Number.scale_positive (by decide) (double.trans h)]

/-- So the spans stay as they are when they are put in order. -/
lemma sortByLow_shadowed : Span.sortByLow shadowed.leaves = .ok shadowed.leaves := by
  obtain ⟨k, hk, hk'⟩ := scale_summit
  have keyed : (shadowed.leaves.mapM fun s => do return (← s.low.scale, s) :
      Except ArithmeticFault (List (LogScale × Span))) =
        .ok (shadowed.leaves.map fun s => (k, s)) := by
    simp only [shadowed, span, leaves, List.cons_append, List.nil_append, List.mapM_cons,
      List.mapM_nil, hk, hk', List.map_cons, List.map_nil]
    rfl
  rw [Span.sortByLow, keyed]
  show Except.ok _ = Except.ok _
  rw [List.mergeSort_of_pairwise, List.map_map]
  · simp
  · simp [shadowed, span, leaves, LogScale.before]

lemma covers_shadowed (depth : Nat) :
    Heap.empty.covers (depth + 2) (Numeral.integer summit) (Numeral.integer (2 * summit)) shadowed =
      .ok false := by
  have spans : Heap.empty.spans (depth + 2) shadowed = .ok shadowed.leaves := by
    simp [Heap.spans, Heap.spansFrom, shadowed, span, leaves, Numeral.integer, summit, bind,
      Except.bind, pure, Except.pure]
  have reach : Span.reach (Numeral.integer (2 * summit)) (Numeral.integer summit) shadowed.leaves =
      .ok false := by
    decide +kernel
  rw [Heap.covers, spans]
  simp only [bind, Except.bind, sortByLow_shadowed, reach]
  rfl

/-- The spans hold all of an interval that is not found below them. -/
theorem not_isSubtype_shadowed :
    Span.Cover shadowed.leaves (.int summit) (.int (2 * summit)) ∧
      Answers (fun depth => (Matcher.mk .empty true).isSubtype depth (span summit (2 * summit))
        shadowed) false := by
  constructor
  · intro z hz
    cases first : z.place.isLeftOf (Number.int (summit + 1)).place with
    | true =>
      exact ⟨_, List.mem_append_right _ (List.mem_singleton_self _),
        literal_span.has_iff.2 ⟨hz.place, hz.low, first⟩⟩
    | false =>
      exact ⟨_, List.mem_append_left _ (List.mem_singleton_self _),
        literal_span.has_iff.2 ⟨hz.place, first, hz.high⟩⟩
  · refine ⟨3, fun depth hdepth => ?_⟩
    obtain ⟨depth, rfl⟩ : ∃ k, depth = k + 3 := ⟨depth - 3, by omega⟩
    have left : (Matcher.mk .empty true).subtype (depth + 2) [] [] [] (span summit (2 * summit))
        (span (summit + 1) (2 * summit)) = .ok false :=
      subtype_span (.inl (by decide))
    have right : (Matcher.mk .empty true).subtype (depth + 2) [] [] [] (span summit (2 * summit))
        (span summit (summit + 1)) = .ok false :=
      subtype_span (.inr (by decide))
    refine subtype_interval_union.trans ?_
    refine bind_eq_ok.2 ⟨_, left, ?_⟩
    refine bind_eq_ok.2 ⟨_, right, ?_⟩
    exact covers_shadowed depth

end Matcher

end TypeNotation
