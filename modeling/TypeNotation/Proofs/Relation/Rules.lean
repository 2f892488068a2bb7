import TypeNotation.Proofs.Relation.Demand
import TypeNotation.Proofs.Relation.Terminates

/-!
# Rules that terminate

A rule that compares two types appeals to the relations at parts of these types, at constraints that
bound their variables, and across complements.  It terminates if all these appeals do.  Which rule
applies does not depend on the depth.

Delegations are left out: the search for their members may go through suspended targets.
-/

namespace TypeNotation

open TypeExpr Query

namespace Matcher

/-- Whether a question always terminates, with an answer or with a fault that more depth would not
remove. -/
abbrev Ending (q : Nat → Query Bool) : Prop :=
  Terminates Halt.Lasting q

/-! ## Structures -/

section Structure

variable {sub : Nat → TypeExpr → TypeExpr → Query Bool}

lemma ending_pairwise {xs ys : List TypeExpr}
    (h : ∀ x ∈ xs, ∀ y ∈ ys, Ending fun depth => sub depth x y) :
    Ending fun depth => pairwise (sub depth) xs ys := by
  unfold pairwise
  split
  · exact .allM fun p hp => h p.1 (List.of_mem_zip hp).1 p.2 (List.of_mem_zip hp).2
  · exact .ok false

lemma ending_eachToSome {xs ys : List TypeExpr}
    (h : ∀ x ∈ xs, ∀ y ∈ ys, Ending fun depth => sub depth x y) :
    Ending fun depth => eachToSome (sub depth) xs ys :=
  .allM fun x hx => .anyM fun y hy => h x hx y hy

lemma ending_inputsRule {inputs inputs' : List (Parameter TypeExpr)}
    (h : ∀ q ∈ inputs', ∀ p ∈ inputs, Ending fun depth => sub depth q.type p.type)
    (indices : List Nat) : Ending fun depth => inputsRule (sub depth) inputs inputs' indices := by
  induction indices with
  | nil => exact .ok true
  | cons i indices ih =>
    unfold inputsRule
    cases hq : Parameter.receiving? inputs' i with
    | none => exact .ok true
    | some q =>
      cases hp : Parameter.receiving? inputs i with
      | none => exact .ok false
      | some p => exact (h q (mem_of_receiving? hq) p (mem_of_receiving? hp)).ite ih (.ok false)

lemma ending_functionRule {inputs inputs' : List (Parameter TypeExpr)}
    {outputs outputs' : List TypeExpr}
    (hi : ∀ q ∈ inputs', ∀ p ∈ inputs, Ending fun depth => sub depth q.type p.type)
    (ho : ∀ x ∈ outputs, ∀ y ∈ outputs', Ending fun depth => sub depth x y) :
    Ending fun depth => functionRule (sub depth) inputs inputs' outputs outputs' := by
  unfold functionRule
  cases acceptsRange inputs inputs' with
  | false => exact .ok false
  | true => exact (ending_inputsRule hi _).ite (ending_pairwise ho) (.ok false)

lemma ending_recordRule (m : Matcher) {fields fields' : List (Field TypeExpr)}
    (h : ∀ x ∈ fields.map (·.type), ∀ y ∈ fields'.map (·.type), Ending fun depth => sub depth x y) :
    Ending fun depth => m.recordRule (sub depth) fields fields' := by
  unfold recordRule
  split
  · exact .ok false
  · refine .allM fun f hf => ?_
    cases hx : Field.find? fields f.name with
    | none => exact .ok false
    | some x => exact h x (mem_types_of_find? hx) f.type (List.mem_map_of_mem hf)

lemma ending_taggedRule {tags tags' : List (Tag TypeExpr)}
    (h : ∀ x ∈ tags.flatMap (·.fields), ∀ y ∈ tags'.flatMap (·.fields),
      Ending fun depth => sub depth x y) :
    Ending fun depth => taggedRule (sub depth) tags tags' := by
  refine .allM fun g hg => ?_
  cases hg' : Tag.find? tags' g.name with
  | none => exact .ok false
  | some g' =>
    exact ending_pairwise fun x hx y hy => h x (List.mem_flatMap.2 ⟨g, hg, hx⟩) y
      (List.mem_flatMap.2 ⟨g', List.mem_of_find?_eq_some hg', hy⟩)

lemma final_numeralRule (x : Numeral) (b : TypeExpr) :
    (numeralRule x b).Final Halt.Lasting := by
  cases b <;> simp only [numeralRule] <;> first
    | trivial
    | (split <;> first | trivial | exact final_ofArithmetic _)

lemma ending_structureRule (m : Matcher) {a b : TypeExpr}
    (h : ∀ x ∈ a.parts, ∀ y ∈ b.parts,
      (Ending fun depth => sub depth x y) ∧ Ending fun depth => sub depth y x) :
    Ending fun depth => m.structureRule (sub depth) a b := by
  have forth : ∀ x ∈ a.parts, ∀ y ∈ b.parts, Ending fun depth => sub depth x y :=
    fun x hx y hy => (h x hx y hy).1
  cases a with
  | number x => exact .const (final_numeralRule x b)
  | interval => cases b <;> first | exact .ok false | exact .const (final_ofArithmetic _)
  | unit | primitive => cases b <;> exact .ok _
  | tuple =>
    cases b with
    | tuple => exact ending_pairwise forth
    | list => exact ending_eachToSome forth
    | _ => exact .ok false
  | list =>
    cases b with
    | list => exact ending_eachToSome forth
    | _ => exact .ok false
  | record =>
    cases b with
    | record => exact ending_recordRule m forth
    | _ => exact .ok false
  | function m inputs outputs =>
    cases b with
    | function m' inputs' outputs' =>
      refine ending_functionRule (fun q hq p hp => ?_) fun x hx y hy => ?_
      · exact (h p.type (List.mem_append_left _ (List.mem_map_of_mem hp)) q.type
          (List.mem_append_left _ (List.mem_map_of_mem hq))).2
      · exact forth x (List.mem_append_right _ hx) y (List.mem_append_right _ hy)
    | _ => exact .ok false
  | tagged =>
    cases b with
    | tagged => exact ending_taggedRule forth
    | _ => exact .ok false
  | typeVariable => exact .ok false
  | _ => exact .const trivial

end Structure

/-! ## Taking apart -/

section Appeal

variable (appeal : Nat → Appeal) (left right : Bounds) {a b : TypeExpr}

/-- Whether a rule does not apply, or applies at all depths and terminates. -/
def Uniform (rule : Nat → Option (Query Bool)) : Prop :=
  (∀ depth, rule depth = none) ∨ ∃ q, (∀ depth, rule depth = some (q depth)) ∧ Ending q

lemma Uniform.some {q : Nat → Query Bool} (h : Ending q) :
    Uniform fun depth => some (q depth) :=
  .inr ⟨q, fun _ => rfl, h⟩

lemma Uniform.none : Uniform fun _ => none :=
  .inl fun _ => rfl

lemma uniform_subjectRule?
    (part : ∀ x ∈ a.parts, Ending fun depth => (appeal depth).subtype left right x b)
    (both : ∀ x ∈ a.parts, ∀ y ∈ b.parts,
      (Ending fun depth => (appeal depth).subtype left right x y) ∧
        Ending fun depth => (appeal depth).subtype left right y x)
    (cross : ∀ x ∈ a.parts, ∀ m l r, b = .complement m l r →
      Ending fun depth => (appeal depth).overlap x r)
    (bind : ∀ m constraint body listed, a = .predicate m constraint body listed →
      Ending fun depth =>
        (appeal depth).subtype (left.bind constraint (quantified listed body)) right body b)
    (bound : ∀ v t, left.find? v = some t →
      Ending fun depth => (appeal depth).subtype (left.without v) right t b) :
    Uniform fun depth => subjectRule? (appeal depth) left right a b := by
  cases a with
  | union m x y =>
    exact .some ((part x (by simp [parts])).ite (part y (by simp [parts])) (.ok false))
  | predicate m constraint body listed => exact .some (bind m constraint body listed rfl)
  | typeVariable m v =>
    simp only [subjectRule?]
    cases hv : left.find? v with
    | none => exact .none
    | some t => exact .some (bound v t hv)
  | complement m x y =>
    refine .some ((part x (by simp [parts])).ite (.ok true) ?_)
    cases b with
    | complement m' x' y' =>
      have hx : x ∈ parts (.complement m x y) := by simp [parts]
      have hy : y ∈ parts (.complement m x y) := by simp [parts]
      have hx' : x' ∈ parts (.complement m' x' y') := by simp [parts]
      have hy' : y' ∈ parts (.complement m' x' y') := by simp [parts]
      exact (both x hx x' hx').1.ite
        ((both y hy y' hy').2.ite (.ok true) (cross x hx m' x' y' rfl).not) (.ok false)
    | _ => exact .ok false
  | _ => exact .none

lemma uniform_objectRule? (m : Matcher) (ha : a.isDelegation = false)
    (hb : b.isDelegation = false)
    (part : ∀ y ∈ b.parts, Ending fun depth => (appeal depth).subtype left right a y)
    (cross : ∀ m l r, b = .complement m l r → Ending fun depth => (appeal depth).overlap a r)
    (bind : ∀ m constraint body listed, b = .predicate m constraint body listed →
      Ending fun depth =>
        (appeal depth).subtype left (right.bind constraint (quantified listed body)) a body)
    (bound : ∀ v t, right.find? v = some t →
      Ending fun depth => (appeal depth).subtype left (right.without v) a t)
    (covers : ∀ low high, Ending fun depth => m.heap.covers depth low high b) :
    Uniform fun depth => m.objectRule? depth (appeal depth) left right a b := by
  cases b with
  | predicate mk constraint body listed => exact .some (bind mk constraint body listed rfl)
  | typeVariable mk v =>
    simp only [objectRule?]
    cases hv : right.find? v with
    | none => exact .some (.ok true)
    | some t => exact .some (bound v t hv)
  | union mk x y =>
    refine .some ((part x (by simp [parts])).ite (.ok true)
      ((part y (by simp [parts])).ite (.ok true) ?_))
    cases a with
    | interval mk low high => exact covers low high
    | _ => exact .ok false
  | complement mk x y =>
    exact .some ((part x (by simp [parts])).ite (cross mk x y rfl).not (.ok false))
  | delegation => cases hb
  | _ =>
    cases a with
    | delegation => cases ha
    | _ => exact .none

variable (rec : Nat → TypeExpr → TypeExpr → Query Bool)

lemma uniform_overlapRule? (ha : a.isDelegation = false)
    (part : ∀ x ∈ a.parts, Ending fun depth => rec depth x b)
    (cross : ∀ m l r, a = .complement m l r →
      Ending fun depth => (appeal depth).subtype [] [] b r) :
    Uniform fun depth => overlapRule? (appeal depth) (rec depth) a b := by
  unfold overlapRule?
  cases a with
  | union m l r =>
    exact .some ((part l (by simp [parts])).ite (.ok true) (part r (by simp [parts])))
  | complement m l r =>
    exact .some ((part l (by simp [parts])).ite (cross m l r rfl).not (.ok false))
  | predicate m constraint body listed => exact .some (part body (by simp [parts]))
  | typeVariable => exact .some (.ok true)
  | delegation => cases ha
  | primitive m name =>
    dsimp only
    split
    · exact .some (.ok true)
    · exact .none
  | _ => exact .none

variable {appeal rec} in
lemma ending_overlapStructure (m : Matcher)
    (both : ∀ x ∈ a.parts, ∀ y ∈ b.parts,
      (Ending fun depth => rec depth x y) ∧ Ending fun depth => rec depth y x)
    (numeric : isNumeric a = true → isNumeric b = true →
      (Ending fun depth => (appeal depth).subtype [] [] a b) ∧
        Ending fun depth => (appeal depth).subtype [] [] b a) :
    Ending fun depth => m.overlapStructure (appeal depth) (rec depth) a b := by
  have forth : ∀ x ∈ a.parts, ∀ y ∈ b.parts, Ending fun depth => rec depth x y :=
    fun x hx y hy => (both x hx y hy).1
  cases a with
  | number x =>
    cases b with
    | number y => exact (numeric rfl rfl).1
    | interval => exact (numeric rfl rfl).1
    | _ => exact .ok false
  | interval =>
    cases b with
    | number y => exact (numeric rfl rfl).2
    | interval => exact .const (final_ofArithmetic _)
    | _ => exact .ok false
  | tuple =>
    cases b with
    | tuple => exact ending_pairwise forth
    | list => exact ending_eachToSome forth
    | _ => exact .ok false
  | list =>
    cases b with
    | list => exact .ok true
    | tuple => exact ending_eachToSome fun y hy x hx => (both x hx y hy).2
    | _ => exact .ok false
  | record m' fields =>
    cases b with
    | record m'' fields' =>
      simp only [overlapStructure]
      split
      · exact .ok false
      · refine .allM fun f hf => ?_
        cases hy : Field.find? fields' f.name with
        | none => exact .ok true
        | some y => exact forth f.type (List.mem_map_of_mem hf) y (mem_types_of_find? hy)
    | _ => exact .ok false
  | tagged m' tags =>
    cases b with
    | tagged m'' tags' =>
      refine .anyM fun g hg => ?_
      cases hg' : Tag.find? tags' g.name with
      | none => exact .ok false
      | some g' =>
        exact ending_pairwise fun x hx y hy => forth x (List.mem_flatMap.2 ⟨g, hg, hx⟩) y
          (List.mem_flatMap.2 ⟨g', List.mem_of_find?_eq_some hg', hy⟩)
    | _ => exact .ok false
  | function | unit | primitive => cases b <;> exact .ok _
  | _ => exact .const trivial

end Appeal

end Matcher

end TypeNotation
