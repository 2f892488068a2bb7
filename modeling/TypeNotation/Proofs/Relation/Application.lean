import TypeNotation.Proofs.Relation.Soundness

/-!
# What a function may be applied to

Inputs are taken in by position: each argument goes to the input at its index, and those past the
last input go to the last one, if it is variadic.  Two lists of inputs are compared index by index
up to one past the longer list, which decides about all later indices as well.

So where a function type is found to be below another, every call that the other holds has a number
of arguments that the first one accepts, and each argument goes to an input that has been compared.
-/

namespace TypeNotation

open TypeExpr Query

namespace Parameter

variable {ps : List (Parameter TypeExpr)} {i j : Nat} {p : Parameter TypeExpr}

/-- Inputs that take an argument at an index take one at every smaller index. -/
lemma receiving?_of_le (h : receiving? ps i = some p) (hle : j ≤ i) :
    ∃ q, receiving? ps j = some q := by
  by_cases hj : j < ps.length
  · exact ⟨ps[j], by rw [receiving?, if_pos hj, List.getElem?_eq_getElem hj]⟩
  · rw [receiving?, if_neg (by omega)] at h
    exact ⟨p, by rw [receiving?, if_neg hj, h]⟩

/-- Past the last input it makes no difference at which index an argument stands. -/
lemma receiving?_past (hi : ps.length ≤ i) (hj : ps.length ≤ j) :
    receiving? ps i = receiving? ps j := by
  rw [receiving?, receiving?, if_neg (Nat.not_lt.2 hi), if_neg (Nat.not_lt.2 hj)]

end Parameter

namespace Matcher

variable {m : Matcher} {K : TypeExpr → Prop} {sub : TypeExpr → TypeExpr → Query Bool}
  {inputs inputs' : List (Parameter TypeExpr)} {i n : Nat} {q : Parameter TypeExpr}

/-- Inputs that are compared index by index have been compared at each index where the other ones
take an argument. -/
lemma compared_of_inputsRule {indices : List Nat} (sorted : indices.Pairwise (· < ·))
    (h : inputsRule sub inputs inputs' indices = .ok true) (hi : i ∈ indices)
    (hq : Parameter.receiving? inputs' i = some q) :
    ∃ p, Parameter.receiving? inputs i = some p ∧ sub q.type p.type = .ok true := by
  induction indices with
  | nil => cases hi
  | cons j rest ih =>
    obtain ⟨first, sorted⟩ := List.pairwise_cons.1 sorted
    have hle : j ≤ i := by
      rcases List.mem_cons.1 hi with rfl | hi
      · exact le_rfl
      · exact (first i hi).le
    obtain ⟨q', hq'⟩ := Parameter.receiving?_of_le hq hle
    rw [inputsRule, hq'] at h
    cases hp : Parameter.receiving? inputs j with
    | none =>
      rw [hp] at h
      cases h
    | some p =>
      rw [hp] at h
      obtain ⟨hsub, h⟩ | ⟨-, h⟩ := bind_ite_eq_ok.1 h
      · rcases List.mem_cons.1 hi with rfl | hi
        · rw [hq] at hq'
          cases hq'
          exact ⟨p, hp, hsub⟩
        · exact ih sorted h hi
      · cases h

/-- Inputs that are compared up to one past the longer list have been compared at all indices. -/
lemma inputsRule_sound
    (h : inputsRule sub inputs inputs' (List.range (max inputs.length inputs'.length + 1)) =
      .ok true)
    (hq : Parameter.receiving? inputs' i = some q) :
    ∃ p, Parameter.receiving? inputs i = some p ∧ sub q.type p.type = .ok true := by
  have at_index {j : Nat} (hj : j ≤ max inputs.length inputs'.length)
      (hq : Parameter.receiving? inputs' j = some q) :=
    compared_of_inputsRule List.pairwise_lt_range h (List.mem_range.2 (Nat.lt_succ_of_le hj)) hq
  by_cases hi : i ≤ max inputs.length inputs'.length
  · exact at_index hi hq
  · -- past both lists the inputs are those right behind the longer one
    have past (ps : List (Parameter TypeExpr))
        (hps : ps.length ≤ max inputs.length inputs'.length) :
        Parameter.receiving? ps i = Parameter.receiving? ps (max inputs.length inputs'.length) :=
      Parameter.receiving?_past (by omega) hps
    rw [past inputs' (le_max_right _ _)] at hq
    rw [past inputs (le_max_left _ _)]
    exact at_index le_rfl hq

/-- A function that accepts a range of argument counts accepts every count in a smaller range. -/
lemma inRange_of_acceptsRange (h : acceptsRange inputs inputs' = true)
    (hn : inRange n (Parameter.least inputs') (Parameter.greatest? inputs') = true) :
    inRange n (Parameter.least inputs) (Parameter.greatest? inputs) = true := by
  simp only [acceptsRange, inRange, Bool.and_eq_true, decide_eq_true_eq] at h hn ⊢
  refine ⟨h.1.trans hn.1, ?_⟩
  cases hg : Parameter.greatest? inputs with
  | none => rfl
  | some g =>
    cases hg' : Parameter.greatest? inputs' with
    | none => simp [hg, hg'] at h
    | some g' =>
      simp only [hg, hg', decide_eq_true_eq, Option.all_some] at h hn ⊢
      exact hn.2.trans h.2

/-- Types that are equal, or found to be subtypes at some depth. -/
def Below (m : Matcher) (x y : TypeExpr) : Prop :=
  x.same y = true ∨ ∃ depth, m.subtype depth [] [] [] x y = .ok true

/-- Inputs that serve wherever others do: they accept as many arguments, and take each argument with
a type that the other one is below. -/
structure Serves (m : Matcher) (inputs inputs' : List (Parameter TypeExpr)) : Prop where
  range : acceptsRange inputs inputs' = true
  receiving : ∀ i q, Parameter.receiving? inputs' i = some q →
    ∃ p, Parameter.receiving? inputs i = some p ∧ m.Below q.type p.type

lemma serves_of_same (h : Parameter.EachAlike inputs' inputs) : m.Serves inputs inputs' where
  range := by
    rw [acceptsRange, Parameter.least_congr h, Parameter.greatest?_congr h]
    cases Parameter.greatest? inputs <;> simp
  receiving i q hq := by
    obtain ⟨p, hp, same⟩ := Parameter.receiving?_congr h hq
    exact ⟨p, hp, .inl same⟩

lemma serves_of_functionRule {depth : Nat} {outputs outputs' : List TypeExpr}
    (h : functionRule (m.subtype depth [] [] []) inputs inputs' outputs outputs' = .ok true) :
    m.Serves inputs inputs' := by
  rw [functionRule] at h
  cases hrange : acceptsRange inputs inputs' with
  | false =>
    rw [hrange] at h
    cases h
  | true =>
    rw [hrange] at h
    obtain ⟨hinputs, -⟩ | ⟨-, h⟩ := bind_ite_eq_ok.1 h
    · refine ⟨hrange, fun i q hq => ?_⟩
      obtain ⟨p, hp, hsub⟩ := inputsRule_sound hinputs hq
      exact ⟨p, hp, .inr ⟨depth, hsub⟩⟩
    · cases h

/-- The inputs of a function type that is found to be a subtype serve wherever those of the other
do. -/
lemma serves_of_subtype {depth : Nat} {mk mk' : Mark} {outputs outputs' : List TypeExpr}
    (h : m.subtype depth [] [] [] (.function mk inputs outputs) (.function mk' inputs' outputs') =
      .ok true) : m.Serves inputs inputs' := by
  cases depth with
  | zero => cases h
  | succ depth =>
    rw [subtype] at h
    simp only [isReferring, Bool.or_false, Bool.false_eq_true, if_false, isAny, subjectRule?,
      objectRule?, structureRule] at h
    split at h
    · next same =>
      cases alike_iff.2 (same_symm same) with
      | function hinputs => exact serves_of_same hinputs
    · exact serves_of_functionRule h

/-- A callable that accepts what one function type does accepts what any type above it does. -/
lemma Serves.callable {slots : Option (List Slot)} {mk mk' : Mark}
    {outputs outputs' : List TypeExpr} (serves : m.Serves inputs inputs')
    (h : m.Holds (.callable slots) (.function mk inputs outputs)) :
    m.Holds (.callable slots) (.function mk' inputs' outputs') := by
  obtain ⟨known, rfl, counts⟩ := holds_callable.1 h
  exact holds_callable.2 ⟨known, rfl, acceptsCounts_of_acceptsRange serves.range counts⟩

/-- Where one type that is below another holds no more, a call that a function type holds inhabits
any type below it. -/
lemma Serves.call {classed : Prop} (concrete : m.heap.Concrete K classed)
    (takes : ∀ p ∈ inputs, K p.type) (takes' : ∀ p ∈ inputs', K p.type) {arguments : List Value}
    (ordinary : ∀ w ∈ arguments, w.Ordinary classed) {mk mk' : Mark}
    {outputs outputs' : List TypeExpr} (serves : m.Serves inputs inputs')
    (sound : ∀ w ∈ arguments, ∀ {x y}, K x → K y → m.Below x y → m.Holds w x → m.Holds w y)
    (h : m.Holds (.call arguments) (.function mk' inputs' outputs')) :
    m.Holds (.call arguments) (.function mk inputs outputs) := by
  obtain ⟨range, all⟩ := (holds_call concrete ordinary takes').1 h
  refine (holds_call concrete ordinary takes).2
    ⟨inRange_of_acceptsRange serves.range range, fun x hx => ?_⟩
  obtain ⟨q, hq, hin⟩ := all x hx
  obtain ⟨p, hp, below⟩ := serves.receiving x.2 q hq
  exact ⟨p, hp, sound x.1 (List.fst_mem_of_mem_zipIdx hx) (takes' q (mem_of_receiving? hq))
    (takes p (mem_of_receiving? hp)) below hin⟩

end Matcher

end TypeNotation
