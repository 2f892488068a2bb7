import TypeNotation.Proofs.Relation.Holds

/-!
# Callables and calls

A callable is matched by counting: the range of the numbers of positional arguments that its
parameters accept must cover the range of the function type.  What the numbers are about is whether
a call with so many positional arguments, and nothing else, gives every parameter its argument or
leaves it its default.

The two agree as long as no parameter must be given by keyword.  The count passes over the
parameters that only take keywords, also over those without a default, so that a callable matches
which no call with positional arguments alone can satisfy.
-/

namespace TypeNotation

/-- Where parameters of a kind stand in a signature. -/
def Passing.place : Passing → Nat
  | .positionalOnly => 0
  | .positional => 1
  | .restPositional => 2
  | .keywordOnly => 3
  | .restKeyword => 4

namespace Slot

variable {s : Slot} {slots rest : List Slot} {n low high : Nat}

/-! ## What a call needs -/

/-- Whether parameters stand in the order of a signature: those that take one positional argument
come first, then the one that takes the rest of them, then those that only take keywords. -/
def InOrder (slots : List Slot) : Prop :=
  slots.Pairwise fun s t => s.passing.place ≤ t.passing.place

instance (slots : List Slot) : Decidable (InOrder slots) :=
  inferInstanceAs (Decidable (slots.Pairwise _))

/-- Whether a call with some number of positional arguments, and no other arguments, gives every
parameter an argument or leaves it its default, with no argument left over. -/
def binds : List Slot → Nat → Bool
  | [], n => n = 0
  | s :: rest, n =>
    match s.passing with
    | .positionalOnly | .positional =>
      match n with
      | 0 => s.hasDefault && binds rest 0
      | n + 1 => binds rest n
    | .restPositional => binds rest 0
    | .keywordOnly => s.hasDefault && binds rest n
    | .restKeyword => binds rest n

lemma binds_zero_cons (hs : s.passing.place ≤ 1) :
    binds (s :: rest) 0 = (s.hasDefault && binds rest 0) := by
  cases hp : s.passing <;> simp_all [binds, Passing.place]

lemma binds_succ_cons (hs : s.passing.place ≤ 1) : binds (s :: rest) (n + 1) = binds rest n := by
  cases hp : s.passing <;> simp_all [binds, Passing.place]

lemma range_go_cons (hs : s.passing.place ≤ 1) : range.go low high (s :: rest) =
    range.go (if s.hasDefault then low else high + 1) (high + 1) rest := by
  cases hp : s.passing <;> simp_all [range.go, Passing.place]

/-- Whether no parameter must be given by keyword. -/
def NeedsNoKeyword (slots : List Slot) : Prop :=
  ∀ s ∈ slots, s.passing = .keywordOnly → s.hasDefault = true

instance (slots : List Slot) : Decidable (NeedsNoKeyword slots) :=
  inferInstanceAs (Decidable (∀ s ∈ slots, _))

lemma needsNoKeyword_cons : NeedsNoKeyword (s :: rest) ↔
    (s.passing = .keywordOnly → s.hasDefault = true) ∧ NeedsNoKeyword rest :=
  List.forall_mem_cons

/-- Past the parameters for positional arguments, only keywords can be missing. -/
lemma binds_zero_iff (h : ∀ s ∈ slots, 2 ≤ s.passing.place) :
    binds slots 0 = true ↔ NeedsNoKeyword slots := by
  induction slots with
  | nil => simp [binds, NeedsNoKeyword]
  | cons s rest ih =>
    obtain ⟨hs, hrest⟩ := List.forall_mem_cons.1 h
    rw [needsNoKeyword_cons, ← ih hrest]
    cases hp : s.passing <;> simp_all [binds, Passing.place]

/-! ## What is counted -/

/-- The least number of arguments is raised by a parameter only that takes an argument still to
come. -/
lemma range_go_least (slots : List Slot) (h : low ≤ high) :
    (range.go low high slots).1 = low ∨ high < (range.go low high slots).1 := by
  induction slots generalizing low high with
  | nil => exact .inl rfl
  | cons s rest ih =>
    by_cases hs : s.passing.place ≤ 1
    · rw [range_go_cons hs]
      cases s.hasDefault with
      | true => exact (ih (h.trans high.le_succ)).imp_right high.lt_succ_self.trans
      | false =>
        refine .inr ?_
        simp only [Bool.false_eq_true, if_false]
        rcases ih (le_refl (high + 1)) with heq | hlt
        · exact high.lt_succ_self.trans_eq heq.symm
        · exact high.lt_succ_self.trans hlt
    · cases hp : s.passing with
      | restPositional => exact .inl (by simp [range.go, hp])
      | keywordOnly | restKeyword => simpa [range.go, hp] using ih h
      | _ => simp [hp, Passing.place] at hs

/-- The greatest number of arguments counts those that came before. -/
lemma range_go_greatest : ∀ g ∈ (range.go low high slots).2, high ≤ g := by
  induction slots generalizing low high with
  | nil => simp [range.go]
  | cons s rest ih =>
    by_cases hs : s.passing.place ≤ 1
    · rw [range_go_cons hs]
      exact fun g hg => high.le_succ.trans (ih g hg)
    · cases hp : s.passing with
      | restPositional => simp [range.go, hp]
      | keywordOnly | restKeyword => simpa [range.go, hp] using ih
      | _ => simp [hp, Passing.place] at hs

/-- A call without further arguments binds if none is needed but those that came before. -/
lemma binds_zero_iff_go (ordered : InOrder slots) (h : low ≤ high) :
    binds slots 0 = true ↔ NeedsNoKeyword slots ∧ (range.go low high slots).1 ≤ high := by
  induction slots generalizing low high with
  | nil => simp [binds, range.go, NeedsNoKeyword, h]
  | cons s rest ih =>
    obtain ⟨after, ordered⟩ := List.pairwise_cons.1 ordered
    rw [needsNoKeyword_cons]
    by_cases hs : s.passing.place ≤ 1
    · have exempt : s.passing ≠ .keywordOnly := by
        rintro hp
        simp [hp, Passing.place] at hs
      rw [binds_zero_cons hs, range_go_cons hs]
      cases s.hasDefault with
      | true =>
        have raised := range_go_least rest (h.trans high.le_succ)
        rw [Bool.true_and, ih ordered (h.trans high.le_succ), if_pos rfl]
        simp only [exempt, false_imp_iff, true_and, and_congr_right_iff]
        exact fun _ => ⟨fun hle => (raised.resolve_right hle.not_gt).trans_le h,
          fun hle => hle.trans high.le_succ⟩
      | false =>
        have raised := range_go_least rest (le_refl (high + 1))
        simp only [Bool.false_and, Bool.false_eq_true, if_false, false_iff]
        omega
    · cases hp : s.passing with
      | restPositional =>
        have late : ∀ t ∈ rest, 2 ≤ t.passing.place := fun t ht => by
          simpa [hp, Passing.place] using after t ht
        simp [binds, range.go, hp, binds_zero_iff late, h]
      | keywordOnly => simp [binds, range.go, hp, ih ordered h, and_assoc]
      | restKeyword => simp [binds, range.go, hp, ih ordered h]
      | _ => simp [hp, Passing.place] at hs

/-- A call binds if its remaining arguments bring their number into the range that is counted. -/
lemma binds_iff_go (ordered : InOrder slots) (h : low ≤ high) :
    binds slots n = true ↔ NeedsNoKeyword slots ∧
      (range.go low high slots).1 ≤ high + n ∧ ∀ g ∈ (range.go low high slots).2, high + n ≤ g := by
  induction slots generalizing low high n with
  | nil =>
    have : high + n ≤ high ↔ n = 0 := by omega
    simp [binds, range.go, NeedsNoKeyword, h.trans (Nat.le_add_right high n), this]
  | cons s rest ih =>
    cases n with
    | zero =>
      rw [binds_zero_iff_go ordered h]
      exact and_congr_right fun _ => (and_iff_left range_go_greatest).symm
    | succ n =>
      obtain ⟨after, ordered⟩ := List.pairwise_cons.1 ordered
      rw [needsNoKeyword_cons]
      by_cases hs : s.passing.place ≤ 1
      · have exempt : s.passing ≠ .keywordOnly := by
          rintro hp
          simp [hp, Passing.place] at hs
        have hlow : (if s.hasDefault then low else high + 1) ≤ high + 1 := by split <;> omega
        rw [binds_succ_cons hs, range_go_cons hs, ih ordered hlow, Nat.add_right_comm,
          Nat.add_assoc]
        simp [exempt]
      · cases hp : s.passing with
        | restPositional =>
          have late : ∀ t ∈ rest, 2 ≤ t.passing.place := fun t ht => by
            simpa [hp, Passing.place] using after t ht
          simp [binds, range.go, hp, binds_zero_iff late, h.trans (Nat.le_add_right high _)]
        | keywordOnly => simp [binds, range.go, hp, ih ordered h, and_assoc]
        | restKeyword => simp [binds, range.go, hp, ih ordered h]
        | _ => simp [hp, Passing.place] at hs

/-- A call with positional arguments binds if no keyword is missing and their number is in the range
of the signature. -/
lemma binds_iff (ordered : InOrder slots) :
    binds slots n = true ↔ NeedsNoKeyword slots ∧
      (range slots).1 ≤ n ∧ ∀ g ∈ (range slots).2, n ≤ g := by
  simpa [range] using binds_iff_go (n := n) ordered (le_refl 0)

end Slot

namespace Matcher

open Slot

variable {m : Matcher} {t : TypeExpr} {mk : Mark} {inputs : List (Parameter TypeExpr)}
  {outputs : List TypeExpr} {slots : List Slot} {least : Nat} {greatest : Option Nat}

/-- The range of a signature covers another one if each number of the latter lies in it. -/
lemma acceptsCounts_iff (h : ∀ g ∈ greatest, least ≤ g) :
    acceptsCounts slots least greatest = true ↔
      ∀ n, inRange n least greatest = true →
        (range slots).1 ≤ n ∧ ∀ g ∈ (range slots).2, n ≤ g := by
  simp only [acceptsCounts, inRange, Bool.and_eq_true, decide_eq_true_eq]
  generalize (range slots).1 = low
  generalize (range slots).2 = high
  constructor
  · rintro ⟨hlow, hhigh⟩ n ⟨hleast, hgreatest⟩
    refine ⟨hlow.trans hleast, ?_⟩
    rintro most rfl
    cases greatest with
    | none => cases hhigh
    | some g => exact (of_decide_eq_true hgreatest).trans (of_decide_eq_true hhigh)
  · intro cover
    cases greatest with
    | none =>
      cases high with
      | none => exact ⟨(cover least ⟨le_rfl, rfl⟩).1, rfl⟩
      | some most =>
        -- no bound covers all numbers from the least one on
        have := (cover (least + most + 1) ⟨by omega, rfl⟩).2 most rfl
        omega
    | some g =>
      have hg := h g rfl
      refine ⟨(cover least ⟨le_rfl, decide_eq_true hg⟩).1, ?_⟩
      cases high with
      | none => rfl
      | some most => exact decide_eq_true ((cover g ⟨hg, decide_eq_true le_rfl⟩).2 most rfl)

/-- A function type takes as many arguments as it has inputs at most, and never needs more. -/
lemma least_le_greatest (inputs : List (Parameter TypeExpr)) :
    ∀ g ∈ Parameter.greatest? inputs, Parameter.least inputs ≤ g := by
  have bounded (inputs : List (Parameter TypeExpr)) : Parameter.least inputs ≤ inputs.length := by
    induction inputs with
    | nil => exact le_rfl
    | cons p rest ih =>
      rw [Parameter.least, List.length_cons]
      repeat' split
      all_goals omega
  simp only [Parameter.greatest?]
  split
  · simp
  · rintro g ⟨⟩
    exact bounded inputs

/-- A callable is of a function type, and no parameter must be given by keyword, exactly if the
callable can be called with each number of positional arguments that the function type accepts. -/
theorem holds_callable_iff_binds (ordered : InOrder slots)
    (ht : m.heap.unfold t = .function mk inputs outputs) :
    m.Holds (.callable (some slots)) t ∧ NeedsNoKeyword slots ↔
      ∀ n, inRange n (Parameter.least inputs) (Parameter.greatest? inputs) = true →
        binds slots n = true := by
  have attained : inRange (Parameter.least inputs) (Parameter.least inputs)
      (Parameter.greatest? inputs) = true := by
    simp only [inRange, le_refl, decide_true, Bool.true_and, Option.all_eq_true_iff_get,
      decide_eq_true_eq]
    exact fun some => least_le_greatest inputs _ (Option.get_mem some)
  rw [← holds_unfold, ht, holds_callable]
  simp only [Option.some.injEq, exists_eq_left', acceptsCounts_iff (least_le_greatest inputs),
    binds_iff ordered]
  exact ⟨fun ⟨covered, optional⟩ n hn => ⟨optional, covered n hn⟩,
    fun bound => ⟨fun n hn => (bound n hn).2, (bound _ attained).1⟩⟩

/-! ### Signatures with keywords -/

/-- A function type from inputs with given suffixes. -/
def slice (suffixes : List Suffix) : TypeExpr :=
  .function (.written none)
    (suffixes.map fun suffix => ⟨.primitive (.written none) "any", suffix, none⟩)
    [.unit (.written none)]

/-- The signature `xs, start, stop=…, *rest, step=…, **options`. -/
def slicing : List Slot :=
  [⟨.positionalOnly, false⟩, ⟨.positional, false⟩, ⟨.positional, true⟩, ⟨.restPositional, false⟩,
    ⟨.keywordOnly, true⟩, ⟨.restKeyword, false⟩]

/-- Two arguments or more can be passed to it. -/
theorem binds_slicing :
    InOrder slicing ∧ Heap.empty.unfold (slice [.none, .none, .variadic]) =
        slice [.none, .none, .variadic] ∧
      ∀ n, 2 ≤ n → binds slicing n = true := by
  have unfolds : Heap.empty.unfold (slice [.none, .none, .variadic]) =
      slice [.none, .none, .variadic] := rfl
  have matched : (Matcher.mk .empty true).Holds (.callable (some slicing))
      (slice [.none, .none, .variadic]) :=
    holds_callable.2 ⟨slicing, rfl, by decide⟩
  refine ⟨by decide, unfolds, fun n hn => ?_⟩
  refine (holds_callable_iff_binds (by decide) unfolds).1 ⟨matched, by decide⟩ n ?_
  simpa [inRange, Parameter.least, Parameter.greatest?, Parameter.isVariadic] using hn

/-- A callable whose only parameter must be given by keyword is of the function type without inputs,
although it cannot be called without arguments. -/
theorem not_binds_keyword :
    ¬ ∀ (m : Matcher) (slots : List Slot) (mk : Mark) (inputs : List (Parameter TypeExpr))
      (outputs : List TypeExpr), InOrder slots →
        m.Holds (.callable (some slots)) (.function mk inputs outputs) →
          ∀ n, inRange n (Parameter.least inputs) (Parameter.greatest? inputs) = true →
            binds slots n = true := by
  intro claim
  have bound := claim ⟨.empty, true⟩ [⟨.keywordOnly, false⟩] (.written none) []
    [.unit (.written none)] (by decide) (holds_callable.2 ⟨_, rfl, by decide⟩) 0 (by decide)
  exact absurd bound (by decide)

end Matcher

end TypeNotation
