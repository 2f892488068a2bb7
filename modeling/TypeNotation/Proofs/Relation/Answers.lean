import TypeNotation.Proofs.Answer
import TypeNotation.Proofs.Relation.Terminates

/-!
# What questions answer in the end

A question *answers* something if it does so at every depth from some depth on.  The answer is one,
and a question that terminates without any cause of failure has it.  So what a question answers can
be computed from what the questions answer that it is put together from, with no mention of depths.

An answer that is given at some depth is given at every greater depth.  It is therefore enough to
find an answer once.
-/

namespace TypeNotation

namespace Query

variable {α β : Type}

/-! ## Answers -/

/-- From some depth on a question has an answer, and always the same. -/
def Answers (q : Nat → Query α) (a : α) : Prop :=
  ∃ bound, ∀ depth, bound ≤ depth → q depth = .ok a

lemma Answers.unique {q : Nat → Query α} {a b : α} (ha : Answers q a) (hb : Answers q b) :
    a = b := by
  obtain ⟨bound, ha⟩ := ha
  obtain ⟨bound', hb⟩ := hb
  have h := ha (max bound bound') (by omega)
  rw [hb _ (by omega)] at h
  exact (Except.ok.inj h).symm

lemma answers_const {q : Query α} {a : α} : Answers (fun _ => q) a ↔ q = .ok a :=
  ⟨fun ⟨bound, h⟩ => h bound (Nat.le_refl bound), fun h => ⟨0, fun _ _ => h⟩⟩

lemma Answers.const (a : α) : Answers (fun _ => (.ok a : Query α)) a :=
  answers_const.2 rfl

lemma Answers.bind {q : Nat → Query α} {f : Nat → α → Query β} {a : α} {b : β}
    (hq : Answers q a) (hf : Answers (fun depth => f depth a) b) :
    Answers (fun depth => q depth >>= f depth) b := by
  obtain ⟨bound, hq⟩ := hq
  obtain ⟨bound', hf⟩ := hf
  refine ⟨max bound bound', fun depth hdepth => ?_⟩
  show q depth >>= f depth = .ok b
  rw [hq depth (by omega)]
  exact hf depth (by omega)

/-- The first step of a question does not matter. -/
lemma answers_succ {q : Nat → Query α} {a : α} :
    Answers (fun depth => q (depth + 1)) a ↔ Answers q a := by
  constructor
  · rintro ⟨bound, h⟩
    refine ⟨bound + 1, fun depth hdepth => ?_⟩
    obtain ⟨depth, rfl⟩ : ∃ d, depth = d + 1 := ⟨depth - 1, by omega⟩
    exact h depth (by omega)
  · rintro ⟨bound, h⟩
    exact ⟨bound, fun depth hdepth => h (depth + 1) (by omega)⟩

/-- A question that terminates, and not for any cause of failure, has an answer. -/
lemma Terminates.answers {q : Nat → Query α} (hq : Terminates Halt.Never q) :
    ∃ a, Answers q a := by
  obtain ⟨bound, result, final, h⟩ := hq
  cases result with
  | error halt => exact final.elim
  | ok a => exact ⟨a, bound, h⟩

/-! ## Questions put together -/

section Together

variable {p q : Nat → Query Bool}

lemma answers_or (hp : Terminates Halt.Never p) (hq : Terminates Halt.Never q) :
    Answers (fun depth => (do if ← p depth then return true else q depth)) true ↔
      Answers p true ∨ Answers q true := by
  obtain ⟨a, ha⟩ := hp.answers
  obtain ⟨b, hb⟩ := hq.answers
  cases a with
  | true => exact iff_of_true (ha.bind (.const true)) (.inl ha)
  | false =>
    have hsecond : Answers (fun depth => (do if ← p depth then return true else q depth)) b :=
      ha.bind hb
    constructor
    · intro h
      exact .inr (h.unique hsecond ▸ hb)
    · rintro (h | h)
      · exact absurd (h.unique ha) (by simp)
      · exact h.unique hb ▸ hsecond

lemma answers_without (hp : Terminates Halt.Never p) (hq : Terminates Halt.Never q) :
    Answers (fun depth => (do if ← p depth then return !(← q depth) else return false)) true ↔
      Answers p true ∧ ¬ Answers q true := by
  obtain ⟨a, ha⟩ := hp.answers
  obtain ⟨b, hb⟩ := hq.answers
  cases a with
  | false =>
    have hnone : Answers
        (fun depth => (do if ← p depth then return !(← q depth) else return false)) false :=
      ha.bind (.const false)
    refine iff_of_false (fun h => absurd (h.unique hnone) (by simp)) fun h => ?_
    exact absurd (h.1.unique ha) (by simp)
  | true =>
    have hnot : Answers
        (fun depth => (do if ← p depth then return !(← q depth) else return false)) (!b) :=
      ha.bind (hb.bind (.const _))
    cases b with
    | true =>
      exact iff_of_false (fun h => absurd (h.unique hnot) (by simp)) fun h => h.2 hb
    | false =>
      exact iff_of_true hnot ⟨ha, fun h => absurd (h.unique hb) (by simp)⟩

lemma answers_allM {p : Nat → α → Query Bool} {xs : List α}
    (h : ∀ x ∈ xs, Terminates Halt.Never fun depth => p depth x) :
    Answers (fun depth => xs.allM (p depth)) true ↔
      ∀ x ∈ xs, Answers (fun depth => p depth x) true := by
  induction xs with
  | nil => exact iff_of_true (.const true) (by simp)
  | cons x xs ih =>
    rw [List.forall_mem_cons] at h ⊢
    simp only [List.allM_cons]
    have rest := ih h.2
    obtain ⟨a, ha⟩ := h.1.answers
    cases a with
    | false =>
      have hall : Answers
          (fun depth => p depth x >>= fun b => if b then xs.allM (p depth) else pure false) false :=
        ha.bind (.const false)
      refine iff_of_false (fun h => absurd (h.unique hall) (by simp)) fun h => ?_
      exact absurd (h.1.unique ha) (by simp)
    | true =>
      obtain ⟨b, hb⟩ := (Terminates.allM h.2).answers
      have hall : Answers
          (fun depth => p depth x >>= fun b => if b then xs.allM (p depth) else pure false) b :=
        ha.bind hb
      constructor
      · intro h
        exact ⟨ha, rest.1 (h.unique hall ▸ hb)⟩
      · rintro ⟨-, h⟩
        exact hb.unique (rest.2 h) ▸ hall

lemma answers_anyM {p : Nat → α → Query Bool} {xs : List α}
    (h : ∀ x ∈ xs, Terminates Halt.Never fun depth => p depth x) :
    Answers (fun depth => xs.anyM (p depth)) true ↔
      ∃ x ∈ xs, Answers (fun depth => p depth x) true := by
  induction xs with
  | nil => exact iff_of_false (fun h => absurd (h.unique (.const false)) (by simp)) (by simp)
  | cons x xs ih =>
    rw [List.forall_mem_cons] at h
    simp only [List.anyM_cons, List.exists_mem_cons_iff]
    rw [← ih h.2]
    exact answers_or h.1 (.anyM h.2)

/-- A question that is asked of the pairs of two lists of equal length. -/
lemma answers_allM_zip {p : Nat → α × β → Query Bool} {xs : List α} {ys : List β}
    (h : ∀ x ∈ xs, ∀ y ∈ ys, Terminates Halt.Never fun depth => p depth (x, y)) :
    Answers (fun depth => if xs.length = ys.length then (xs.zip ys).allM (p depth) else .ok false)
        true ↔
      List.Forall₂ (fun x y => Answers (fun depth => p depth (x, y)) true) xs ys := by
  rw [List.forall₂_iff_zip]
  by_cases hlength : xs.length = ys.length
  · simp only [hlength, if_true, true_and]
    rw [answers_allM fun z hz => h z.1 (List.of_mem_zip hz).1 z.2 (List.of_mem_zip hz).2]
    exact ⟨fun h x y hmem => h _ hmem, fun h z hmem => h hmem⟩
  · simp only [hlength, if_false, false_and, iff_false]
    exact fun h => absurd (h.unique (.const false)) (by simp)

end Together

/-! ## More depth -/

/-- One question answers what another does, wherever that has an answer. -/
def Kept (q q' : Query α) : Prop :=
  ∀ a, q = .ok a → q' = .ok a

lemma Kept.refl (q : Query α) : q.Kept q :=
  fun _ h => h

lemma Kept.bind {q q' : Query α} {f f' : α → Query β} (hq : q.Kept q')
    (hf : ∀ a, (f a).Kept (f' a)) : (q >>= f).Kept (q' >>= f') := by
  intro b h
  obtain ⟨a, ha, hb⟩ := bind_eq_ok.1 h
  exact bind_eq_ok.2 ⟨a, hq a ha, hf a b hb⟩

lemma Kept.ite {q q' : Query Bool} {x x' y y' : Query α} (hq : q.Kept q') (hx : x.Kept x')
    (hy : y.Kept y') : Kept (do if ← q then x else y) (do if ← q' then x' else y') :=
  hq.bind fun b => by cases b <;> assumption

lemma Kept.allM {p p' : α → Query Bool} {xs : List α} (h : ∀ x ∈ xs, (p x).Kept (p' x)) :
    Kept (xs.allM p) (xs.allM p') := by
  induction xs with
  | nil => exact .refl _
  | cons x xs ih =>
    rw [List.forall_mem_cons] at h
    refine h.1.bind fun b => ?_
    cases b with
    | false => exact .refl _
    | true => exact ih h.2

lemma Kept.anyM {p p' : α → Query Bool} {xs : List α} (h : ∀ x ∈ xs, (p x).Kept (p' x)) :
    Kept (xs.anyM p) (xs.anyM p') := by
  induction xs with
  | nil => exact .refl _
  | cons x xs ih =>
    rw [List.forall_mem_cons] at h
    refine h.1.bind fun b => ?_
    cases b with
    | true => exact .refl _
    | false => exact ih h.2

/-- If every depth keeps the answers of the one before, an answer that is given once is the
answer. -/
lemma answers_of_kept {q : Nat → Query α} (h : ∀ depth, (q depth).Kept (q (depth + 1)))
    {depth : Nat} {a : α} (ha : q depth = .ok a) : Answers q a := by
  refine ⟨depth, fun depth' hdepth => ?_⟩
  induction hdepth with
  | refl => exact ha
  | step _ ih => exact h _ a ih

end Query

end TypeNotation
