import TypeNotation.Proofs.Relation.Answers
import TypeNotation.Relation.Subtype

/-!
# Answers that are kept

A comparison that has been answered keeps its answer when more depth is allowed.  So the answers of
comparisons that were made to different depths can be held against each other.
-/

namespace TypeNotation

open TypeExpr Query

namespace Heap

/-! ## Members and intervals -/

lemma kept_firstHit {α : Type}
    {search search' : TypeExpr → Visited → Query (Option α × Visited)}
    (kept : ∀ t visited, (search t visited).Kept (search' t visited)) (ts : List TypeExpr)
    (visited : Visited) : (firstHit search ts visited).Kept (firstHit search' ts visited) := by
  induction ts generalizing visited with
  | nil => exact .refl _
  | cons t ts ih =>
    refine (kept t visited).bind fun hit => ?_
    obtain ⟨_ | a, visited⟩ := hit
    · exact ih visited
    · exact .refl _

lemma kept_allHits {search search' : TypeExpr → Visited → Query (List String × Visited)}
    (kept : ∀ t visited, (search t visited).Kept (search' t visited)) (ts : List TypeExpr)
    (found : List String) (visited : Visited) :
    (allHits search ts found visited).Kept (allHits search' ts found visited) := by
  induction ts generalizing found visited with
  | nil => exact .refl _
  | cons t ts ih => exact (kept t visited).bind fun hits => ih _ hits.2

section Walks

variable (h : Heap) {bound bound' : Nat} (le : bound ≤ bound')
include le

lemma kept_memberFrom (name : String) (t : TypeExpr) (visited : Visited) :
    (h.memberFrom name bound t visited).Kept (h.memberFrom name bound' t visited) := by
  induction bound generalizing bound' t visited with
  | zero => exact fun _ answered => by cases answered
  | succ bound ih =>
    obtain ⟨bound', rfl⟩ := Nat.exists_eq_add_of_le' (Nat.one_le_of_lt le)
    have inner := fun t visited => ih (Nat.le_of_succ_le_succ le) t visited
    unfold memberFrom
    cases h.passage? t with
    | some next =>
      dsimp only
      split
      · exact .refl _
      · exact (Kept.refl next).bind fun t => inner t _
    | none =>
      cases t with
      | delegation m base targets => exact kept_firstHit inner _ visited
      | _ => exact .refl _

lemma kept_member? (t : TypeExpr) (name : String) :
    (h.member? bound t name).Kept (h.member? bound' t name) :=
  (h.kept_memberFrom le name t []).bind fun _ => .refl _

lemma kept_membersFrom (t : TypeExpr) (visited : Visited) :
    (h.membersFrom bound t visited).Kept (h.membersFrom bound' t visited) := by
  induction bound generalizing bound' t visited with
  | zero => exact fun _ answered => by cases answered
  | succ bound ih =>
    obtain ⟨bound', rfl⟩ := Nat.exists_eq_add_of_le' (Nat.one_le_of_lt le)
    have inner := fun t visited => ih (Nat.le_of_succ_le_succ le) t visited
    unfold membersFrom
    cases h.passage? t with
    | some next =>
      dsimp only
      split
      · exact .refl _
      · exact (Kept.refl next).bind fun t => inner t _
    | none =>
      cases t with
      | delegation m base targets => exact kept_allHits inner _ [] visited
      | _ => exact .refl _

lemma kept_members (t : TypeExpr) : (h.members bound t).Kept (h.members bound' t) :=
  (h.kept_membersFrom le t []).bind fun _ => .refl _

lemma kept_spansFrom (t : TypeExpr) (seen : List TypeExpr) :
    (h.spansFrom bound t seen).Kept (h.spansFrom bound' t seen) := by
  induction bound generalizing bound' t seen with
  | zero => exact fun _ answered => by cases answered
  | succ bound ih =>
    obtain ⟨bound', rfl⟩ := Nat.exists_eq_add_of_le' (Nat.one_le_of_lt le)
    have inner := fun t seen => ih (Nat.le_of_succ_le_succ le) t seen
    unfold spansFrom
    split
    · exact .refl _
    · cases t with
      | named m name args => exact inner _ _
      | union m left right =>
        exact (inner left _).bind fun ls => (inner right ls.2).bind fun _ => .refl _
      | _ => exact .refl _

lemma kept_covers (low high : Numeral) (union : TypeExpr) :
    (h.covers bound low high union).Kept (h.covers bound' low high union) :=
  ((h.kept_spansFrom le union []).bind fun _ => .refl _).bind fun _ => .refl _

end Walks

end Heap

namespace Matcher

/-! ## Comparing structures -/

lemma kept_unless (refused : Bool) {q q' : Query Bool} (kept : q.Kept q') :
    Kept (if refused then return false else q) (if refused then return false else q') := by
  cases refused with
  | true => exact .refl _
  | false => exact kept

section Structure

variable {sub sub' : TypeExpr → TypeExpr → Query Bool}
  (kept : ∀ x y, (sub x y).Kept (sub' x y))
include kept

lemma kept_pairwise (xs ys : List TypeExpr) :
    (pairwise sub xs ys).Kept (pairwise sub' xs ys) := by
  unfold pairwise
  split
  · exact .allM fun p _ => kept p.1 p.2
  · exact .refl _

lemma kept_eachToSome (xs ys : List TypeExpr) :
    (eachToSome sub xs ys).Kept (eachToSome sub' xs ys) :=
  .allM fun x _ => .anyM fun y _ => kept x y

lemma kept_inputsRule (inputs inputs' : List (Parameter TypeExpr)) (indices : List Nat) :
    (inputsRule sub inputs inputs' indices).Kept (inputsRule sub' inputs inputs' indices) := by
  induction indices with
  | nil => exact .refl _
  | cons i indices ih =>
    unfold inputsRule
    cases Parameter.receiving? inputs' i with
    | none => exact .refl _
    | some q =>
      cases Parameter.receiving? inputs i with
      | none => exact .refl _
      | some p => exact (kept q.type p.type).ite ih (.refl _)

lemma kept_functionRule (inputs inputs' : List (Parameter TypeExpr))
    (outputs outputs' : List TypeExpr) :
    (functionRule sub inputs inputs' outputs outputs').Kept
      (functionRule sub' inputs inputs' outputs outputs') := by
  unfold functionRule
  cases acceptsRange inputs inputs' with
  | false => exact .refl _
  | true => exact (kept_inputsRule kept _ _ _).ite (kept_pairwise kept _ _) (.refl _)

lemma kept_recordRule (m : Matcher) (fields fields' : List (Field TypeExpr)) :
    (m.recordRule sub fields fields').Kept (m.recordRule sub' fields fields') := by
  unfold recordRule
  split
  · exact .refl _
  · refine .allM fun f _ => ?_
    cases Field.find? fields f.name with
    | none => exact .refl _
    | some x => exact kept x f.type

lemma kept_taggedRule (tags tags' : List (Tag TypeExpr)) :
    (taggedRule sub tags tags').Kept (taggedRule sub' tags tags') := by
  refine .allM fun g _ => ?_
  cases Tag.find? tags' g.name with
  | none => exact .refl _
  | some g' => exact kept_pairwise kept _ _

lemma kept_structureRule (m : Matcher) (a b : TypeExpr) :
    (m.structureRule sub a b).Kept (m.structureRule sub' a b) := by
  cases a with
  | tuple =>
    cases b with
    | tuple => exact kept_pairwise kept _ _
    | list => exact kept_eachToSome kept _ _
    | _ => exact .refl _
  | list =>
    cases b with
    | list => exact kept_eachToSome kept _ _
    | _ => exact .refl _
  | record =>
    cases b with
    | record => exact kept_recordRule kept m _ _
    | _ => exact .refl _
  | function =>
    cases b with
    | function => exact kept_functionRule kept _ _ _ _
    | _ => exact .refl _
  | tagged =>
    cases b with
    | tagged => exact kept_taggedRule kept _ _
    | _ => exact .refl _
  | _ => exact .refl _

end Structure

/-! ## Taking apart -/

/-- The relations that rules appeal to keep the answers of others. -/
structure KeptAppeal (appeal appeal' : Appeal) : Prop where
  subtype : ∀ left right a b,
    (appeal.subtype left right a b).Kept (appeal'.subtype left right a b)
  overlap : ∀ a b, (appeal.overlap a b).Kept (appeal'.overlap a b)

section Appeal

variable {appeal appeal' : Appeal} (kept : KeptAppeal appeal appeal')
include kept

lemma kept_subjectRule? (left right : Bounds) (a b : TypeExpr) :
    Option.Rel Kept (subjectRule? appeal left right a b) (subjectRule? appeal' left right a b) := by
  have sub := kept.subtype left right
  cases a with
  | union m x y => exact .some ((sub x b).ite (sub y b) (.refl _))
  | predicate m constraint body listed => exact .some (kept.subtype _ right body b)
  | typeVariable m v =>
    simp only [subjectRule?]
    cases left.find? v with
    | none => exact .none
    | some bound => exact .some (kept.subtype _ right bound b)
  | complement m x y =>
    refine .some ((sub x b).ite (.refl _) ?_)
    cases b with
    | complement m' x' y' =>
      exact (sub x x').ite ((sub y' y).ite (.refl _) ((kept.overlap x y').bind fun _ => .refl _))
        (.refl _)
    | _ => exact .refl _
  | _ => exact .none

variable {sub sub' : TypeExpr → TypeExpr → Query Bool} (m : Matcher) {depth depth' : Nat}
  (le : depth ≤ depth')

omit kept in
include le in
lemma kept_memberRule (hsub : ∀ x y, (sub x y).Kept (sub' x y)) (a b : TypeExpr) (name : String) :
    (m.memberRule depth sub a b name).Kept (m.memberRule depth' sub' a b name) := by
  refine (m.heap.kept_member? le a name).bind fun mine =>
    (m.heap.kept_member? le b name).bind fun theirs => ?_
  cases mine with
  | none => exact .refl _
  | some x =>
    cases theirs with
    | none => exact .refl _
    | some y => exact hsub x y

omit kept in
include le in
lemma kept_delegationRule (hsub : ∀ x y, (sub x y).Kept (sub' x y)) (a base : TypeExpr)
    (fields : List (Field TypeExpr)) :
    (m.delegationRule depth sub a base fields).Kept
      (m.delegationRule depth' sub' a base fields) := by
  unfold delegationRule
  refine kept_unless _ (.allM fun f _ => (m.heap.kept_member? le a f.name).bind fun found => ?_)
  cases found with
  | none => exact .refl _
  | some x => exact hsub x f.type

include le in
lemma kept_objectRule? (left right : Bounds) (a b : TypeExpr) :
    Option.Rel Kept (m.objectRule? depth appeal left right a b)
      (m.objectRule? depth' appeal' left right a b) := by
  have sub := kept.subtype left right
  cases b with
  | predicate mk constraint body listed => exact .some (kept.subtype left _ a body)
  | typeVariable mk v =>
    simp only [objectRule?]
    cases right.find? v with
    | none => exact .some (.refl _)
    | some bound => exact .some (kept.subtype left _ a bound)
  | union mk x y =>
    refine .some ((sub a x).ite (.refl _) ((sub a y).ite (.refl _) ?_))
    cases a with
    | interval mk' low high => exact m.heap.kept_covers le low high _
    | _ => exact .refl _
  | complement mk x y =>
    exact .some ((sub a x).ite ((kept.overlap a y).bind fun _ => .refl _) (.refl _))
  | delegation mk base targets =>
    exact .some ((sub a base).ite ((m.heap.kept_members le _).bind fun names =>
      .allM fun name _ => kept_memberRule m le sub a _ name) (.refl _))
  | record mk fields =>
    cases a with
    | delegation mk' base targets =>
      exact .some (kept_delegationRule m le sub _ base fields)
    | _ => exact .none
  | _ =>
    cases a with
    | delegation mk' base targets => exact .some (sub base _)
    | _ => exact .none

variable {rec rec' : TypeExpr → TypeExpr → Query Bool} (hrec : ∀ x y, (rec x y).Kept (rec' x y))
include hrec

lemma kept_overlapRule? (x y : TypeExpr) :
    Option.Rel Kept (overlapRule? appeal rec x y) (overlapRule? appeal' rec' x y) := by
  unfold overlapRule?
  split
  · exact .some (.refl _)
  · cases x with
    | union m l r => exact .some ((hrec l y).ite (.refl _) (hrec r y))
    | complement m l r =>
      exact .some ((hrec l y).ite ((kept.subtype [] [] y r).bind fun _ => .refl _) (.refl _))
    | predicate m constraint body listed => exact .some (hrec body y)
    | typeVariable => exact .some (.refl _)
    | delegation m base targets => exact .some (hrec base y)
    | _ => exact .none

omit hrec in
lemma kept_numericOverlap (a b : TypeExpr) :
    (numericOverlap appeal a b).Kept (numericOverlap appeal' a b) := by
  have forth := kept.subtype [] [] a b
  have back := kept.subtype [] [] b a
  cases a with
  | interval =>
    cases b with
    | interval => exact .refl _
    | _ => exact back
  | _ => cases b <;> exact forth

lemma kept_overlapStructure (a b : TypeExpr) :
    (m.overlapStructure appeal rec a b).Kept (m.overlapStructure appeal' rec' a b) := by
  cases a with
  | number | interval =>
    simp only [overlapStructure]
    split
    · exact kept_numericOverlap kept _ _
    · exact .refl _
  | tuple =>
    cases b with
    | tuple => exact kept_pairwise hrec _ _
    | list => exact kept_eachToSome hrec _ _
    | _ => exact .refl _
  | list =>
    cases b with
    | tuple => exact kept_eachToSome hrec _ _
    | _ => exact .refl _
  | record mk fields =>
    cases b with
    | record mk' fields' =>
      simp only [overlapStructure]
      split
      · exact .refl _
      · refine .allM fun f _ => ?_
        cases Field.find? fields' f.name with
        | none => exact .refl _
        | some y => exact hrec f.type y
    | _ => exact .refl _
  | tagged mk tags =>
    cases b with
    | tagged mk' tags' =>
      refine .anyM fun g _ => ?_
      cases Tag.find? tags' g.name with
      | none => exact .refl _
      | some g' => exact kept_pairwise hrec _ _
    | _ => exact .refl _
  | _ => exact .refl _

end Appeal

/-! ## The relations -/

/-- A rule that applies comes before everything else. -/
lemma kept_rule {q q' : Query Bool} (hq : q.Kept q') {rule rule' : Option (Query Bool)} :
    Option.Rel Kept rule rule' →
      (match rule with
        | some answer => answer
        | none => q).Kept (match rule' with
        | some answer => answer
        | none => q')
  | .some h => h
  | .none => hq

/-- The relations keep their answers with more depth. -/
lemma kept_relations (m : Matcher) {depth depth' : Nat} (le : depth ≤ depth') :
    (∀ assumed left right a b, (m.subtype depth assumed left right a b).Kept
      (m.subtype depth' assumed left right a b)) ∧
    ∀ assumed a b, (m.overlap depth assumed a b).Kept (m.overlap depth' assumed a b) := by
  induction depth generalizing depth' with
  | zero =>
    constructor
    · intro assumed left right a b answer answered
      cases answered
    · intro assumed a b answer answered
      cases answered
  | succ depth ih =>
    obtain ⟨depth', rfl⟩ := Nat.exists_eq_add_of_le' (Nat.one_le_of_lt le)
    have le := Nat.le_of_succ_le_succ le
    obtain ⟨subtype, overlap⟩ := ih le
    have appeal (assumed : Assumed) : KeptAppeal ⟨m.subtype depth assumed, m.overlap depth []⟩
        ⟨m.subtype depth' assumed, m.overlap depth' []⟩ :=
      ⟨subtype assumed, overlap []⟩
    constructor
    · intro assumed left right a b
      unfold Matcher.subtype
      split
      · split
        · exact .refl _
        · exact (Kept.refl _).bind fun x => (Kept.refl _).bind fun y => subtype _ left right x y
      · split
        · exact .refl _
        · refine kept_rule (kept_rule ?_ ?_) (kept_subjectRule? (appeal assumed) left right a b)
          · exact kept_structureRule (subtype assumed left right) m a b
          · exact kept_objectRule? (appeal assumed) m le left right a b
    · intro assumed a b
      unfold Matcher.overlap
      split
      · split
        · exact .refl _
        · exact (Kept.refl _).bind fun x => (Kept.refl _).bind fun y => overlap _ x y
      · refine kept_rule (kept_rule ?_ ?_) (kept_overlapRule? (appeal []) (overlap assumed) a b)
        · exact kept_overlapStructure (appeal []) m (overlap assumed) a b
        · exact kept_overlapRule? (appeal []) (overlap assumed) b a

/-- Subtyping has one answer, to whatever depth it is asked. -/
lemma subtype_unique {m : Matcher} {depth depth' : Nat} {assumed : Assumed} {left right : Bounds}
    {a b : TypeExpr} {x y : Bool} (h : m.subtype depth assumed left right a b = .ok x)
    (h' : m.subtype depth' assumed left right a b = .ok y) : x = y := by
  have later := (m.kept_relations (Nat.le_max_left depth depth')).1 assumed left right a b x h
  rw [(m.kept_relations (Nat.le_max_right depth depth')).1 assumed left right a b y h'] at later
  exact (Except.ok.inj later).symm

end Matcher

end TypeNotation
