import TypeNotation.Proofs.Resolution.Expands

/-!
# A meter on expansion

Expansion keeps to a budget: it opens no more than so many declarations, and has no more than so
many of them open at once. The definition that runs is given the room that is left as an argument,
which makes it end. Here expansion is defined once more, on a state with a meter: the number of
declarations that are open is counted up when one is opened and down when it is left, in whichever
way it is left, and the budget is checked against that count. What makes this second definition end
is a supply of fuel, of which it must be shown that it makes no difference.
-/

namespace TypeNotation

open TypeExpr

/-! ## One layer of expansion -/

namespace TypeExpr

/-- The parts of a type that are expanded with it, in order.  The targets of a delegation are not,
nor are the arguments of what has been resolved. -/
def visited : TypeExpr → List TypeExpr
  | .tuple _ ts | .list _ ts | .reference _ _ ts => ts
  | .record _ fs => fs.map (·.type)
  | .function _ ps ts => ps.map (·.type) ++ ts
  | .delegation _ base _ => [base]
  | .predicate _ constraint body _ => [constraint, body]
  | .tagged _ gs => gs.flatMap (·.fields)
  | .union _ left right | .complement _ left right => [left, right]
  | _ => []

lemma visited_subset_parts (t : TypeExpr) : t.visited ⊆ t.parts := by
  cases t <;> simp [visited, parts]

end TypeExpr

/-- Tags with other fields: as many for each as it has, from left to right. -/
def Tag.refill : List (Tag TypeExpr) → List TypeExpr → List (Tag TypeExpr)
  | [], _ => []
  | g :: gs, ts => ⟨g.name, ts.take g.fields.length⟩ :: refill gs (ts.drop g.fields.length)

namespace Expansion

/-- Make the expansion of a type out of the expansions of its parts. References are not made in this
way. -/
def assemble (env : Env) (scope : Option String) : TypeExpr → List TypeExpr → Expansion TypeExpr
  | .number x, _ => return .number (← numeral x)
  | .interval m low high, _ => interval m low high
  | .tuple m _, us => return .tuple (← remark m) us
  | .list m _, us => return .listOf (← remark m) us
  | .record m fs, us => return .record (← remark m) (fs.zipWith (fun f u => ⟨f.name, u⟩) us)
  | .function m ps _, us => do
    let inputs := ps.zipWith (fun p u => (⟨u, p.suffix, p.position⟩ : Parameter TypeExpr)) us
    return .function (← remark m) inputs (us.drop ps.length)
  | .delegation m _ targets, us => do
    let ts ← targets.mapM (suspend env scope)
    return .delegation (← remark m) (us.headD (.unit m)) ts
  | .predicate m _ body listed, us =>
    predicate env scope m (quantified listed body) (us.headD body) (us.getLastD body)
  | .tagged m gs, us => return .tagged (← remark m) (Tag.refill gs us)
  | .union m left right, us => return .union (← remark m) (us.headD left) (us.getLastD right)
  | .complement m left right, us =>
    return .complement (← remark m) (us.headD left) (us.getLastD right)
  | .typeVariable m v, _ => typeVariable env scope m v
  | t, _ => return t

section Layer

variable {registry : Registry} {depth : Nat} {opening : Option Opening} {env : Env}
  {scope : Option String} {α β γ : Type}

/-- What is done with as many answers as there are things only has to agree on lists of that length.
-/
lemma bind_mapM_congr {x : α → Expansion β} {as : List α} {f g : List β → Expansion γ}
    (h : ∀ bs, bs.length = as.length → f bs = g bs) :
    as.mapM x >>= f = as.mapM x >>= g := by
  induction as generalizing f g with
  | nil => simpa using h [] rfl
  | cons a as ih =>
    simp only [List.mapM_cons, bind_assoc, pure_bind]
    refine bind_congr fun b => ih fun bs hbs => ?_
    exact h (b :: bs) (by simp [hbs])

lemma mapM_zipWith {f : α → TypeExpr} {g : α → TypeExpr → β} (x : TypeExpr → Expansion TypeExpr)
    (as : List α) :
    (as.mapM fun a => g a <$> x (f a)) = as.zipWith g <$> (as.map f).mapM x := by
  induction as with
  | nil => simp
  | cons a as ih =>
    simp only [List.mapM_cons, ih, List.map_cons, bind_map_left, bind_pure_comp, map_bind,
      Functor.map_map, List.zipWith_cons_cons]

lemma mapM_refill (x : TypeExpr → Expansion TypeExpr) (gs : List (Tag TypeExpr)) :
    (gs.mapM fun g => (⟨g.name, ·⟩ : List TypeExpr → Tag TypeExpr) <$> g.fields.mapM x) =
      Tag.refill gs <$> (gs.flatMap (·.fields)).mapM x := by
  induction gs with
  | nil => simp [Tag.refill]
  | cons g gs ih =>
    simp only [List.mapM_cons, ih, List.flatMap_cons, List.mapM_append, bind_map_left,
      bind_pure_comp, map_bind, Functor.map_map]
    refine bind_mapM_congr fun us hus => ?_
    simp [Tag.refill, ← hus]

/-- The expansion of a type other than a reference is made out of those of its parts. -/
lemma expandIn_eq (t : TypeExpr) (ht : ∀ m name args, t ≠ .reference m name args) :
    expandIn registry depth opening env scope t =
      (do assemble env scope t (← t.visited.mapM (expandIn registry depth opening env scope))) := by
  cases t with
  | reference m name args => exact absurd rfl (ht m name args)
  | record m fs =>
    simp only [expandIn, visited, assemble, expandFields_eq, bind_pure_comp, mapM_zipWith,
      bind_map_left]
  | function m ps ts =>
    simp only [expandIn, visited, assemble, expandInputs_eq, expandAll_eq, mapM_zipWith,
      List.mapM_append, bind_pure_comp, bind_map_left, bind_assoc]
    refine bind_mapM_congr fun us hus => bind_congr fun vs => ?_
    rw [List.length_map] at hus
    have inputs {f : Parameter TypeExpr → TypeExpr → Parameter TypeExpr} :
        ps.zipWith f (us ++ vs) = ps.zipWith f us := by
      conv_lhs => rw [← List.append_nil ps, List.zipWith_append hus.symm]
      simp
    rw [inputs, ← hus, List.drop_left]
  | tagged m gs =>
    simp only [expandIn, visited, assemble, expandTags_eq, bind_pure_comp, mapM_refill,
      bind_map_left]
  | tuple | list => simp [expandIn, visited, assemble, expandAll_eq]
  | _ => simp [expandIn, visited, assemble]

end Layer

end Expansion

/-! ## Expansion on a meter -/

/-- A state of expansion with a meter: how many declarations are open, how many have been open at
once at most, and how many have been opened. -/
structure Metering where
  expanding : Expanding
  depth : Nat
  deepest : Nat
  opened : Nat

namespace Metering

/-- One more declaration is open. -/
def opening (s : Metering) : Metering :=
  { s with depth := s.depth + 1, deepest := max s.deepest (s.depth + 1), opened := s.opened + 1 }

/-- One declaration less is open. -/
def closing (s : Metering) : Metering :=
  { s with depth := s.depth - 1 }

end Metering

/-- A step of expansion on a meter. -/
abbrev Metered (α : Type) := ExceptT Fault (StateM Metering) α

namespace Metered

variable {α β : Type}

/-- A step that does not concern the meter. -/
def aside (x : Expansion α) : Metered α := fun s =>
  let (result, e) := outcome x s.expanding
  (result, { s with expanding := e })

/-- Open a declaration, and close it again however it is left. -/
def within (x : Metered α) : Metered α := do
  modify Metering.opening
  try x finally modify Metering.closing

/-- Expand the body of a declaration: the body, what the parameters are bound to, and the name. -/
abbrev Opening := TypeExpr → Env → Option String → Metered TypeExpr

/-- Expand a reference whose arguments are expanded. -/
def reference (registry : Registry) (expandBody : Opening) (m : Mark) (d : Declaration)
    (args : List TypeExpr) : Metered TypeExpr := do
  let wanted := TypeExpr.named m d.name args
  if let some t := Expansion.known? registry (← get).expanding wanted then return t
  aside (Expansion.modifyResolver fun r => { r with steps := r.steps + 1 })
  let s ← get
  let r := s.expanding.resolver
  if r.maxSteps < r.steps ∨ r.maxDepth ≤ s.depth then
    aside (Expansion.refuse (.expansionLimit r.steps s.depth (some wanted) m.position))
  let mark ← aside (Expansion.remark m)
  let node := TypeExpr.named mark d.name args
  aside (Expansion.modifyResolver fun r => { r with expanded := r.expanded ++ [node] })
  let body ← within (expandBody d.body (d.binding args) (some d.name))
  aside (modify fun e =>
    { e with store := { e.store with heap := e.store.heap.setBody mark.stamp body } })
  return node

/-- Expand a type. -/
def expandIn (registry : Registry) (expandBody : Opening) (env : Env) (scope : Option String)
    (t : TypeExpr) : Metered TypeExpr := do
  match t with
  | .reference m name args => do
    let d ← aside (Expansion.declarationOf registry m name args.length)
    let us ← args.attach.mapM fun ⟨u, _⟩ => expandIn registry expandBody env scope u
    reference registry expandBody m d us
  | t => do
    let us ← t.visited.attach.mapM fun ⟨u, _⟩ => expandIn registry expandBody env scope u
    aside (Expansion.assemble env scope t us)
termination_by sizeOf t
decreasing_by
  · rename_i h
    exact sizeOf_lt_of_mem_parts (visited_subset_parts (.reference m name args) h)
  · rename_i h
    exact sizeOf_lt_of_mem_parts (visited_subset_parts _ h)

lemma mapM_attach (f : α → Metered β) (as : List α) :
    (as.attach.mapM fun ⟨a, _⟩ => f a) = as.mapM f := by
  rw [List.mapM_subtype (g := f) fun _ _ => rfl, List.unattach_attach]

section Layer

variable {registry : Registry} {expandBody : Opening} {env : Env} {scope : Option String}

lemma expandIn_eq (t : TypeExpr) (ht : ∀ m name args, t ≠ .reference m name args) :
    expandIn registry expandBody env scope t = (do
      let us ← t.visited.mapM (expandIn registry expandBody env scope)
      aside (Expansion.assemble env scope t us)) := by
  rw [expandIn, ← mapM_attach (expandIn registry expandBody env scope) t.visited]
  exact ht

end Layer

/-- Expand a type, with fuel for so many declarations inside each other. -/
def expandAt (registry : Registry) : Nat → Opening
  | 0, t, env, scope => expandIn registry (fun _ _ _ => throw .exhausted) env scope t
  | fuel + 1, t, env, scope => expandIn registry (expandAt registry fuel) env scope t

end Metered

end TypeNotation
