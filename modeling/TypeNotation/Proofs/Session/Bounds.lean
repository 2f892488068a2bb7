import Mathlib.Order.WellFoundedSet
import TypeNotation.Proofs.Relation.BoundedSubtype
import TypeNotation.Proofs.Session.Comparison

/-!
# Comparing types with bounded variables

The bounds that predicates put on variables are looked up where the rules for variables need them,
but two types that are equal are related whatever the bounds on either side are.  Where a variable
has different bounds on the two sides, or a bound on one of them only, subtyping therefore does not
respect the bounds.  It does wherever every variable has one bound.
-/

namespace TypeNotation

open TypeExpr

namespace Heap

/-- Two types reach no denial, no function and no delegation, no number that is not computed and no
named type without a body. -/
structure Positive (h : Heap) (a b : TypeExpr) : Prop where
  positive : ∀ t, h.Near a b t → t.isPositive = true
  body : ∀ m name args, h.Near a b (.named m name args) → (h.body? m.stamp).isSome

/-- Every variable has one bound in what two types reach: all predicates that quantify it have equal
constraints, it is not free in the types if there is such a predicate, and no variable leads back to
itself from constraint to constraint. -/
structure OneBound (h : Heap) (a b : TypeExpr) : Prop where
  agree : ∀ x c c', BoundBy (h.Near a b) x c → BoundBy (h.Near a b) x c' → c.same c' = true
  outside : ∀ x c, BoundBy (h.Near a b) x c → ¬ h.Frees x a ∧ ¬ h.Frees x b
  acyclic : ∀ x, ¬ Relation.TransGen (h.Precedes (h.Near a b)) x x

lemma BoundBy.mono {K L : TypeExpr → Prop} (hKL : ∀ t, K t → L t) {x : Variable} {c : TypeExpr}
    (h : BoundBy K x c) : BoundBy L x c := by
  obtain ⟨m, body, listed, hK, hx⟩ := h
  exact ⟨m, body, listed, hKL _ hK, hx⟩

lemma Precedes.mono {h : Heap} {K L : TypeExpr → Prop} (hKL : ∀ t, K t → L t) {x y : Variable}
    (hxy : h.Precedes K x y) : h.Precedes L x y := by
  obtain ⟨c, m, hc, reaches⟩ := hxy
  exact ⟨c, m, hc.mono hKL, reaches⟩

/-- Two types reach finitely many variables, so that where none leads back to itself no way from
constraint to constraint is endless. -/
lemma OneBound.wellFounded {h : Heap} {a b : TypeExpr} (one : h.OneBound a b) :
    WellFounded (h.Precedes (h.Near a b)) := by
  let vars : Set Variable := {x | ∃ m, h.Near a b (.typeVariable m x)}
  have finite : vars.Finite := by
    refine ((h.finite_near a b).image fun t => (t.binder?.map (·.var)).getD ⟨"", none⟩).subset ?_
    rintro x ⟨m, hm⟩
    exact ⟨_, hm, rfl⟩
  have inside {x y : Variable} (hxy : h.Precedes (h.Near a b) x y) : x ∈ vars := by
    obtain ⟨c, m, ⟨m', body, listed, near, -⟩, reaches⟩ := hxy
    have constraint : c ∈ (TypeExpr.predicate m' c body listed).valueParts := by
      simp [valueParts, parts]
    exact ⟨m, near.imp (fun near => (near.part rfl constraint).trans reaches)
      fun near => (near.part rfl constraint).trans reaches⟩
  have : IsStrictOrder Variable (Relation.TransGen (h.Precedes (h.Near a b))) :=
    { irrefl := one.acyclic, trans := fun _ _ _ => Relation.TransGen.trans }
  have onVars := Set.wellFoundedOn_iff.1 (finite.wellFoundedOn
    (r := Relation.TransGen (h.Precedes (h.Near a b))))
  have acc : ∀ x ∈ vars, Acc (h.Precedes (h.Near a b)) x := by
    intro x
    induction x using onVars.induction with
    | _ x ih =>
      intro hx
      exact ⟨x, fun y hyx => ih y ⟨.single hyx, inside hyx, hx⟩ (inside hyx)⟩
  exact ⟨fun x => ⟨x, fun y hyx => acc y (inside hyx)⟩⟩

end Heap

namespace Stage

variable {st : Stage} {a b : TypeExpr}

/-- Settled types in which every variable has one bound belong to a closed set of such types. -/
lemma Sound.bounded (sound : st.Sound) (positive : st.store.heap.Positive a b)
    (one : st.store.heap.OneBound a b) :
    st.store.heap.Bounded fun t => t.ResolvedOver st.settled ∧ st.store.heap.Near a b t where
  toFirm := sound.firm_over (fun ht href hu => ht.imp (.part · href hu) (.part · href hu))
    (fun ht hbody => ht.imp (.body · hbody) (.body · hbody)) (fun ht => positive.body _ _ _ ht)
    fun ht => by cases positive.positive _ ht
  positive ht := positive.positive _ ht.2
  settled ht := (ht.1.self).mono fun _ _ => trivial
  alike ht ht' := sound.same_bodies ht.1 ht'.1
  agree hc hc' := one.agree _ _ _ (hc.mono fun _ ht => ht.2) (hc'.mono fun _ ht => ht.2)
  acyclic := Subrelation.wf (fun hxy => hxy.mono fun _ ht => ht.2) one.wellFounded

end Stage

namespace Client

variable {c : Client} {a b : TypeExpr} {openRecords : Bool} {v : Value}

/-- Among types that a client holds, in which nothing is denied and every variable has one bound, a
subtype holds no ordinary value that the supertype does not hold.  Values that find attributes in a
class are ordinary here if no record type asks for such an attribute. -/
theorem contains_of_isSubtype_of_oneBound (h : c.Reachable) (ha : a ∈ c.held) (hb : b ∈ c.held)
    (positive : c.session.store.heap.Positive a b) (one : c.session.store.heap.OneBound a b)
    (hv : v.Ordinary (∀ t, c.session.store.heap.Near a b t → t.PlainFields)) {depth : Nat}
    (hsub : (Matcher.mk c.session.store.heap openRecords).isSubtype depth a b = .ok true)
    {depth' : Nat}
    (hin : (Matcher.mk c.session.store.heap openRecords).contains depth' v a [] = .ok true) :
    ∃ bound, ∀ depth, bound ≤ depth →
      (Matcher.mk c.session.store.heap openRecords).contains depth v b [] = .ok true := by
  obtain ⟨st, on⟩ := h.on
  rw [← on.session] at positive one hv hsub hin ⊢
  have bounded := on.sound.bounded positive one
  have near_a := And.intro (on.held a ha) (Or.inl Heap.Reaches.refl : st.store.heap.Near a b a)
  have near_b := And.intro (on.held b hb) (Or.inr Heap.Reaches.refl : st.store.heap.Near a b b)
  have outside {x : Variable} {d : TypeExpr}
      (hd : Heap.BoundBy (fun t => t.ResolvedOver st.settled ∧ st.store.heap.Near a b t) x d) :=
    one.outside x d (hd.mono fun _ ht => ht.2)
  have covers_a := Heap.Covers.nil fun _ _ hd => (outside hd).1
  have covers_b := Heap.Covers.nil fun _ _ hd => (outside hd).2
  have inhabits := Matcher.inhabitsIn_of_contains (m := ⟨st.store.heap, openRecords⟩) bounded near_a
    covers_a hin
  have below := Matcher.subtypeBelow (m := ⟨st.store.heap, openRecords⟩) bounded depth near_a near_b
    .nil covers_b hsub (n := depth') (by simp)
  exact (below inhabits).answers bounded (fun plain _ ht => plain _ ht.2) hv near_b covers_b

/-! ### A variable with one bound -/

/-- The one variable. -/
def letter : Variable := ⟨"A", none⟩

/-- A type under a bound on the variable. -/
def boundedBy (constraint body : TypeExpr) : TypeExpr :=
  .predicate (.written none) constraint body []

/-- An occurrence of the variable. -/
def occurrence : TypeExpr := .typeVariable (.written none) letter

/-- A client that holds a tuple type and a list type, both under one bound on their variable. -/
def agreeing : Client :=
  ((start .empty).resolvedAnew 1 1
      (boundedBy (.unit (.written none)) (.tuple (.written none) [occurrence]))).resolvedAnew 1 1
    (boundedBy (.unit (.written none)) (.list (.written none) [occurrence]))

/-- The tuples of nothing at all, by way of the variable. -/
def boundedTuple : TypeExpr :=
  .predicate ⟨none, 4⟩ (.unit (.written none)) (.tuple ⟨none, 3⟩ [.typeVariable ⟨none, 2⟩ letter])
    [⟨none, letter⟩]

/-- The lists of nothing at all, by way of the variable. -/
def boundedList : TypeExpr :=
  .predicate ⟨none, 8⟩ (.unit (.written none)) (.list ⟨none, 7⟩ [.typeVariable ⟨none, 6⟩ letter])
    [⟨none, letter⟩]

lemma agreeing_spec :
    agreeing.session.store.heap = .empty ∧ agreeing.held = [boundedTuple, boundedList] := by
  rw [agreeing, resolvedAnew_eq (c := start .empty) rfl rfl rfl, resolvedAnew_eq rfl rfl rfl]
  exact ⟨rfl, rfl⟩

lemma written_boundedBy {constraint body : TypeExpr} (hc : constraint.Written)
    (hb : body.Written) : (boundedBy constraint body).Written :=
  throughout_iff.2 ⟨trivial, by simpa [boundedBy, parts] using ⟨hc, hb⟩⟩

lemma written_occurrence : occurrence.Written :=
  throughout_iff.2 ⟨trivial, by simp [occurrence, parts]⟩

lemma reachable_agreeing : agreeing.Reachable := by
  have tuple : Written (.tuple (.written none) [occurrence]) :=
    throughout_iff.2 ⟨trivial, List.forall_mem_singleton.2 written_occurrence⟩
  have list : Written (.list (.written none) [occurrence]) :=
    throughout_iff.2 ⟨trivial, List.forall_mem_singleton.2 written_occurrence⟩
  exact ((Reachable.start List.mem_cons_self).resolvedAnew
    (written_boundedBy written_unit tuple).over).resolvedAnew
      (written_boundedBy written_unit list).over

/-- Without bodies, what two types reach is found in them. -/
lemma mem_subterms_of_near {t : TypeExpr} (h : Heap.empty.Near a b t) :
    t ∈ a.subterms ++ b.subterms := by
  have inside {s : TypeExpr} (h : Heap.empty.Reaches s t) : t ∈ s.subterms := by
    refine h.mem_subterms.resolve_right ?_
    simp [Heap.empty]
  exact List.mem_append.2 (h.imp inside inside)

lemma positive_agreeing : Heap.empty.Positive boundedTuple boundedList where
  positive t ht := by
    have ht := mem_subterms_of_near ht
    simp only [boundedTuple, boundedList, subterms, subtermsOfAll, List.append_nil,
      List.cons_append, List.nil_append, List.mem_cons, List.not_mem_nil, or_false] at ht
    rcases ht with rfl | rfl | rfl | rfl | rfl | rfl | rfl | rfl <;> rfl
  body m name args ht := by
    have ht := mem_subterms_of_near ht
    simp [boundedTuple, boundedList, subterms, subtermsOfAll] at ht

lemma boundBy_agreeing {x : Variable} {c : TypeExpr}
    (h : Heap.BoundBy (Heap.empty.Near boundedTuple boundedList) x c) :
    x = letter ∧ c = .unit (.written none) := by
  obtain ⟨m, body, listed, near, b, hb, rfl⟩ := h
  have near := mem_subterms_of_near near
  simp only [boundedTuple, boundedList, subterms, subtermsOfAll, List.append_nil, List.cons_append,
    List.nil_append, List.mem_cons, List.not_mem_nil, or_false, TypeExpr.predicate.injEq,
    reduceCtorEq, false_or] at near
  rcases near with ⟨-, rfl, rfl, rfl⟩ | ⟨-, rfl, rfl, rfl⟩ <;>
    · have hb : b ∈ [(⟨none, letter⟩ : Binder)] := hb
      rw [List.mem_singleton.1 hb]
      exact ⟨rfl, rfl⟩

lemma oneBound_agreeing : Heap.empty.OneBound boundedTuple boundedList where
  agree x c c' hc hc' := by
    rw [(boundBy_agreeing hc).2, (boundBy_agreeing hc').2]
    exact same_self _
  outside x c hc := by
    obtain rfl := (boundBy_agreeing hc).1
    have none : ¬ Heap.empty.Frees letter (.unit (.written none)) := by
      intro free
      cases free with
      | part _ _ hu _ => simp [valueParts, parts] at hu
    constructor <;>
      · intro free
        cases free with
        | part _ plain _ _ => cases plain
        | constraint free => exact none free
        | scope unbound _ => exact unbound ⟨⟨_, letter⟩, List.mem_singleton_self _, rfl⟩
  acyclic x loop := by
    have none {y z : Variable} :
        ¬ Heap.empty.Precedes (Heap.empty.Near boundedTuple boundedList) y z := by
      rintro ⟨c, m, hc, reaches⟩
      rw [(boundBy_agreeing hc).2] at reaches
      have inside := reaches.mem_subterms
      simp [subterms, Heap.empty] at inside
    obtain ⟨y, -, hy⟩ := Relation.TransGen.tail'_iff.1 loop
    exact none hy

/-- Under one bound a tuple type is below a list type, so that its tuples are lists. -/
theorem contains_agreeing :
    (Matcher.mk agreeing.session.store.heap true).isSubtype 4 boundedTuple boundedList =
        .ok true ∧
      (Matcher.mk agreeing.session.store.heap true).contains 4 (.tuple [.absent]) boundedTuple [] =
        .ok true ∧
      ∃ bound, ∀ depth, bound ≤ depth →
        (Matcher.mk agreeing.session.store.heap true).contains depth (.tuple [.absent]) boundedList
          [] = .ok true := by
  obtain ⟨heap, held⟩ := agreeing_spec
  have below : (Matcher.mk agreeing.session.store.heap true).isSubtype 4 boundedTuple boundedList =
      .ok true := by
    rw [heap]
    cbv
  have inside : (Matcher.mk agreeing.session.store.heap true).contains 4 (.tuple [.absent])
      boundedTuple [] = .ok true := by
    rw [heap]
    rfl
  exact ⟨below, inside, contains_of_isSubtype_of_oneBound reachable_agreeing (by simp [held])
    (by simp [held]) (heap ▸ positive_agreeing) (heap ▸ oneBound_agreeing)
    (.tuple (List.forall_mem_singleton.2 .absent)) below inside⟩

/-! ### A variable with a bound on one side -/

/-- A client that holds a variable, and the variable under a bound. -/
def disagreeing : Client :=
  ((start .empty).resolvedAnew 1 1 occurrence).resolvedAnew 1 1
    (boundedBy (.interval (.written none) (.literal none (.int 0)) (.literal none (.int 5)))
      occurrence)

/-- The variable. -/
def unbounded : TypeExpr := .typeVariable ⟨none, 2⟩ letter

/-- The variable under a bound. -/
def digits : TypeExpr :=
  .predicate ⟨none, 6⟩ (.interval ⟨none, 4⟩ (.literal none (.int 0)) (.literal none (.int 5)))
    (.typeVariable ⟨none, 5⟩ letter) [⟨none, letter⟩]

lemma disagreeing_spec :
    disagreeing.session.store.heap = .empty ∧ disagreeing.held = [unbounded, digits] := by
  rw [disagreeing, resolvedAnew_eq (c := start .empty) rfl rfl rfl, resolvedAnew_eq rfl rfl rfl]
  exact ⟨rfl, rfl⟩

lemma reachable_disagreeing : disagreeing.Reachable := by
  have interval : Written (.interval (.written none) (.literal none (.int 0))
      (.literal none (.int 5))) := by
    refine throughout_iff.2 ⟨trivial, ?_⟩
    simp only [parts, List.forall_mem_cons, List.not_mem_nil, false_imp_iff, implies_true, and_true]
    exact ⟨throughout_iff.2 ⟨trivial, by simp [parts]⟩, throughout_iff.2 ⟨trivial, by simp [parts]⟩⟩
  exact ((Reachable.start List.mem_cons_self).resolvedAnew written_occurrence.over).resolvedAnew
    (written_boundedBy interval written_occurrence).over

/-- A variable is found to be a subtype of the variable under a bound, which does not hold all the
values that the variable holds. -/
theorem not_contains_disagreeing :
    disagreeing.Reachable ∧ unbounded ∈ disagreeing.held ∧ digits ∈ disagreeing.held ∧
      (∀ t, disagreeing.session.store.heap.Near unbounded digits t → t.isPositive = true) ∧
      (Matcher.mk disagreeing.session.store.heap true).isSubtype 2 unbounded digits = .ok true ∧
      (Matcher.mk disagreeing.session.store.heap true).contains 1 .absent unbounded [] =
        .ok true ∧
      (Matcher.mk disagreeing.session.store.heap true).contains 3 .absent digits [] = .ok false ∧
      ∀ depth, (Matcher.mk disagreeing.session.store.heap true).contains depth .absent digits [] ≠
        .ok true := by
  obtain ⟨heap, held⟩ := disagreeing_spec
  rw [heap, held]
  have below : (Matcher.mk .empty true).isSubtype 2 unbounded digits = .ok true := by
    with_unfolding_all rfl
  have outside : (Matcher.mk .empty true).contains 3 .absent digits [] = .ok false := rfl
  refine ⟨reachable_disagreeing, by simp, by simp, fun t ht => ?_, below, rfl, outside,
    fun depth inside => ?_⟩
  · have ht := mem_subterms_of_near ht
    simp only [unbounded, digits, subterms, Numeral.subnumerals, List.cons_append, List.nil_append,
      List.map_cons, List.map_nil, List.mem_cons, List.not_mem_nil, or_false] at ht
    rcases ht with rfl | rfl | rfl | rfl | rfl | rfl <;> rfl
  · have answer := Query.answers_of_kept (fun depth => Matcher.kept_contains _ depth _ _ _) outside
    have answer' := Query.answers_of_kept (fun depth => Matcher.kept_contains _ depth _ _ _) inside
    cases answer.unique answer'

end Client

end TypeNotation
