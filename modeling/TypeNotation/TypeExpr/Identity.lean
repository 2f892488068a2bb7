import TypeNotation.TypeExpr.Basic

/-!
# Identity of nodes

Two nodes are identical when they agree in everything, positions and stamps included.  Walks over
the graph of a normal form remember nodes up to identity, and assumptions about pairs of nodes are
kept up to identity; equality of types is a different, coarser notion.

`identical` decides equality of terms (`identical_iff`), which gives `DecidableEq`.
-/

namespace TypeNotation

namespace TypeExpr

mutual

/-- Identity of nodes: equality of terms, marks included. -/
def identical : TypeExpr → TypeExpr → Bool
  | number x, number y => x = y
  | interval m low high, interval m' low' high' => m = m' && low = low' && high = high'
  | unit m, unit m' => m = m'
  | primitive m name, primitive m' name' => m = m' && name = name'
  | tuple m items, tuple m' items' => m = m' && identicalAll items items'
  | list m members, list m' members' => m = m' && identicalAll members members'
  | record m fields, record m' fields' => m = m' && identicalFields fields fields'
  | function m inputs outputs, function m' inputs' outputs' =>
    m = m' && identicalInputs inputs inputs' && identicalAll outputs outputs'
  | delegation m base targets, delegation m' base' targets' =>
    m = m' && base.identical base' && identicalAll targets targets'
  | predicate m constraint body listed, predicate m' constraint' body' listed' =>
    m = m' && constraint.identical constraint' && body.identical body' && listed = listed'
  | tagged m tags, tagged m' tags' => m = m' && identicalTags tags tags'
  | union m left right, union m' left' right' =>
    m = m' && left.identical left' && right.identical right'
  | complement m left right, complement m' left' right' =>
    m = m' && left.identical left' && right.identical right'
  | reference m name args, reference m' name' args' =>
    m = m' && name = name' && identicalAll args args'
  | typeVariable m v, typeVariable m' v' => m = m' && v = v'
  | named m name args, named m' name' args' => m = m' && name = name' && identicalAll args args'
  | deferred m target bindings, deferred m' target' bindings' =>
    m = m' && target.identical target' && identicalFields bindings bindings'
  | _, _ => false

/-- Identity of sequences of nodes. -/
def identicalAll : List TypeExpr → List TypeExpr → Bool
  | [], [] => true
  | t :: rest, t' :: rest' => t.identical t' && identicalAll rest rest'
  | _, _ => false

/-- Identity of fields. -/
def identicalFields : List (Field TypeExpr) → List (Field TypeExpr) → Bool
  | [], [] => true
  | ⟨name, t⟩ :: rest, ⟨name', t'⟩ :: rest' =>
    name = name' && t.identical t' && identicalFields rest rest'
  | _, _ => false

/-- Identity of inputs. -/
def identicalInputs : List (Parameter TypeExpr) → List (Parameter TypeExpr) → Bool
  | [], [] => true
  | ⟨t, suffix, p⟩ :: rest, ⟨t', suffix', p'⟩ :: rest' =>
    t.identical t' && suffix = suffix' && p = p' && identicalInputs rest rest'
  | _, _ => false

/-- Identity of constructors. -/
def identicalTags : List (Tag TypeExpr) → List (Tag TypeExpr) → Bool
  | [], [] => true
  | ⟨name, fields⟩ :: rest, ⟨name', fields'⟩ :: rest' =>
    name = name' && identicalAll fields fields' && identicalTags rest rest'
  | _, _ => false

end

mutual

theorem identical_self : ∀ t : TypeExpr, t.identical t = true
  | number _ | interval .. | unit _ | primitive .. | typeVariable .. => by simp [identical]
  | tuple _ items => by simp [identical, identicalAll_self items]
  | list _ members => by simp [identical, identicalAll_self members]
  | record _ fields => by simp [identical, identicalFields_self fields]
  | function _ inputs outputs => by
    simp [identical, identicalInputs_self inputs, identicalAll_self outputs]
  | delegation _ base targets => by
    simp [identical, identical_self base, identicalAll_self targets]
  | predicate _ constraint body _ => by
    simp [identical, identical_self constraint, identical_self body]
  | tagged _ tags => by simp [identical, identicalTags_self tags]
  | union _ left right => by simp [identical, identical_self left, identical_self right]
  | complement _ left right => by simp [identical, identical_self left, identical_self right]
  | reference _ _ args => by simp [identical, identicalAll_self args]
  | named _ _ args => by simp [identical, identicalAll_self args]
  | deferred _ target bindings => by
    simp [identical, identical_self target, identicalFields_self bindings]

theorem identicalAll_self : ∀ ts : List TypeExpr, identicalAll ts ts = true
  | [] => by simp [identicalAll]
  | t :: rest => by simp [identicalAll, identical_self t, identicalAll_self rest]

theorem identicalFields_self : ∀ fs : List (Field TypeExpr), identicalFields fs fs = true
  | [] => by simp [identicalFields]
  | ⟨_, t⟩ :: rest => by simp [identicalFields, identical_self t, identicalFields_self rest]

theorem identicalInputs_self : ∀ ps : List (Parameter TypeExpr), identicalInputs ps ps = true
  | [] => by simp [identicalInputs]
  | ⟨t, _, _⟩ :: rest => by simp [identicalInputs, identical_self t, identicalInputs_self rest]

theorem identicalTags_self : ∀ gs : List (Tag TypeExpr), identicalTags gs gs = true
  | [] => by simp [identicalTags]
  | ⟨_, fields⟩ :: rest => by
    simp [identicalTags, identicalAll_self fields, identicalTags_self rest]

end

mutual

theorem eq_of_identical : ∀ t u : TypeExpr, t.identical u = true → t = u
  | number _, u, h | interval .., u, h | unit _, u, h | primitive .., u, h
  | typeVariable .., u, h => by
    cases u <;> simp_all [identical]
  | tuple _ items, u, h => by
    cases u with
    | tuple _ items' =>
      simp only [identical, Bool.and_eq_true, decide_eq_true_eq] at h
      rw [h.1, eq_of_identicalAll items items' h.2]
    | _ => simp [identical] at h
  | list _ members, u, h => by
    cases u with
    | list _ members' =>
      simp only [identical, Bool.and_eq_true, decide_eq_true_eq] at h
      rw [h.1, eq_of_identicalAll members members' h.2]
    | _ => simp [identical] at h
  | record _ fields, u, h => by
    cases u with
    | record _ fields' =>
      simp only [identical, Bool.and_eq_true, decide_eq_true_eq] at h
      rw [h.1, eq_of_identicalFields fields fields' h.2]
    | _ => simp [identical] at h
  | function _ inputs outputs, u, h => by
    cases u with
    | function _ inputs' outputs' =>
      simp only [identical, Bool.and_eq_true, decide_eq_true_eq] at h
      rw [h.1.1, eq_of_identicalInputs inputs inputs' h.1.2,
        eq_of_identicalAll outputs outputs' h.2]
    | _ => simp [identical] at h
  | delegation _ base targets, u, h => by
    cases u with
    | delegation _ base' targets' =>
      simp only [identical, Bool.and_eq_true, decide_eq_true_eq] at h
      rw [h.1.1, eq_of_identical base base' h.1.2, eq_of_identicalAll targets targets' h.2]
    | _ => simp [identical] at h
  | predicate _ constraint body _, u, h => by
    cases u with
    | predicate _ constraint' body' _ =>
      simp only [identical, Bool.and_eq_true, decide_eq_true_eq] at h
      rw [h.1.1.1, eq_of_identical constraint constraint' h.1.1.2,
        eq_of_identical body body' h.1.2, h.2]
    | _ => simp [identical] at h
  | tagged _ tags, u, h => by
    cases u with
    | tagged _ tags' =>
      simp only [identical, Bool.and_eq_true, decide_eq_true_eq] at h
      rw [h.1, eq_of_identicalTags tags tags' h.2]
    | _ => simp [identical] at h
  | union _ left right, u, h => by
    cases u with
    | union _ left' right' =>
      simp only [identical, Bool.and_eq_true, decide_eq_true_eq] at h
      rw [h.1.1, eq_of_identical left left' h.1.2, eq_of_identical right right' h.2]
    | _ => simp [identical] at h
  | complement _ left right, u, h => by
    cases u with
    | complement _ left' right' =>
      simp only [identical, Bool.and_eq_true, decide_eq_true_eq] at h
      rw [h.1.1, eq_of_identical left left' h.1.2, eq_of_identical right right' h.2]
    | _ => simp [identical] at h
  | reference _ _ args, u, h => by
    cases u with
    | reference _ _ args' =>
      simp only [identical, Bool.and_eq_true, decide_eq_true_eq] at h
      rw [h.1.1, h.1.2, eq_of_identicalAll args args' h.2]
    | _ => simp [identical] at h
  | named _ _ args, u, h => by
    cases u with
    | named _ _ args' =>
      simp only [identical, Bool.and_eq_true, decide_eq_true_eq] at h
      rw [h.1.1, h.1.2, eq_of_identicalAll args args' h.2]
    | _ => simp [identical] at h
  | deferred _ target bindings, u, h => by
    cases u with
    | deferred _ target' bindings' =>
      simp only [identical, Bool.and_eq_true, decide_eq_true_eq] at h
      rw [h.1.1, eq_of_identical target target' h.1.2, eq_of_identicalFields bindings bindings' h.2]
    | _ => simp [identical] at h

theorem eq_of_identicalAll : ∀ ts us : List TypeExpr, identicalAll ts us = true → ts = us
  | [], us, h => by cases us <;> simp_all [identicalAll]
  | t :: rest, us, h => by
    cases us with
    | nil => simp [identicalAll] at h
    | cons u rest' =>
      simp only [identicalAll, Bool.and_eq_true] at h
      rw [eq_of_identical t u h.1, eq_of_identicalAll rest rest' h.2]

theorem eq_of_identicalFields :
    ∀ fs gs : List (Field TypeExpr), identicalFields fs gs = true → fs = gs
  | [], gs, h => by cases gs <;> simp_all [identicalFields]
  | ⟨_, t⟩ :: rest, gs, h => by
    cases gs with
    | nil => simp [identicalFields] at h
    | cons g rest' =>
      obtain ⟨_, u⟩ := g
      simp only [identicalFields, Bool.and_eq_true, decide_eq_true_eq] at h
      rw [h.1.1, eq_of_identical t u h.1.2, eq_of_identicalFields rest rest' h.2]

theorem eq_of_identicalInputs :
    ∀ ps qs : List (Parameter TypeExpr), identicalInputs ps qs = true → ps = qs
  | [], qs, h => by cases qs <;> simp_all [identicalInputs]
  | ⟨t, _, _⟩ :: rest, qs, h => by
    cases qs with
    | nil => simp [identicalInputs] at h
    | cons q rest' =>
      obtain ⟨u, _, _⟩ := q
      simp only [identicalInputs, Bool.and_eq_true, decide_eq_true_eq] at h
      rw [eq_of_identical t u h.1.1.1, h.1.1.2, h.1.2, eq_of_identicalInputs rest rest' h.2]

theorem eq_of_identicalTags :
    ∀ gs hs : List (Tag TypeExpr), identicalTags gs hs = true → gs = hs
  | [], hs, h => by cases hs <;> simp_all [identicalTags]
  | ⟨_, fields⟩ :: rest, hs, h => by
    cases hs with
    | nil => simp [identicalTags] at h
    | cons g rest' =>
      obtain ⟨_, fields'⟩ := g
      simp only [identicalTags, Bool.and_eq_true, decide_eq_true_eq] at h
      rw [h.1.1, eq_of_identicalAll fields fields' h.1.2, eq_of_identicalTags rest rest' h.2]

end

theorem identical_iff {t u : TypeExpr} : t.identical u = true ↔ t = u :=
  ⟨eq_of_identical t u, fun h => h ▸ identical_self t⟩

instance : DecidableEq TypeExpr := fun _ _ => decidable_of_iff _ identical_iff

end TypeExpr

end TypeNotation
