import TypeNotation.Proofs.Outcome
import TypeNotation.Proofs.Resolution.Instance

/-!
# What comes out of an expansion

An expansion is run on a state and gives an answer or a fault, and the state that it leaves.  The
equations below say so for the actions that expansion is made of; what is proved about expansion is
proved from them.
-/

namespace TypeNotation

namespace Expansion

open TypeExpr

variable {α β : Type} {registry : Registry}

@[simp] lemma outcome_modifyResolver (f : Resolver → Resolver) (e : Expanding) :
    outcome (modifyResolver f) e = (.ok (), { e with resolver := f e.resolver }) := rfl

@[simp] lemma outcome_newStamp (e : Expanding) :
    outcome newStamp e =
      (.ok e.store.nextStamp,
        { e with store := { e.store with nextStamp := e.store.nextStamp + 1 } }) := rfl

/-! ## Suspensions -/

/-- A store with one more suspension, and a resolver of its own for it. -/
def withSuspension (s : Store) (r : Resolver) (x : Suspension) : Store :=
  { s with
    suspensions := s.suspensions.insert s.nextStamp x
    resolvers := s.resolvers.insert s.nextStamp (.ofBudget r.maxSteps r.maxDepth)
    nextStamp := s.nextStamp + 1 }

lemma outcome_suspend (env : Env) (scope : Option String) (target : TypeExpr) (e : Expanding) :
    outcome (suspend env scope target) e =
      (.ok (.deferred ⟨none, e.store.nextStamp⟩ target (targetBindings env target)),
        { e with store := withSuspension e.store e.resolver ⟨target, env, scope⟩ }) := rfl

/-! ## References -/

/-- The state in which the body of a reference is expanded: one more reference is counted, and the
expansion under way stands in the table. -/
def enter (e : Expanding) (node : TypeExpr) : Expanding where
  store := { e.store with nextStamp := e.store.nextStamp + 1 }
  resolver := { e.resolver with
    steps := e.resolver.steps + 1
    expanded := e.resolver.expanded ++ [node] }

/-- The expansion of an equal reference, in the table or else in the memo. -/
def known? (registry : Registry) (e : Expanding) (wanted : TypeExpr) : Option TypeExpr :=
  (e.resolver.expanded.find? (·.same wanted)).orElse fun _ => registry.memoized wanted

/-- The state with one more reference counted. -/
def counted (e : Expanding) : Expanding :=
  { e with resolver := { e.resolver with steps := e.resolver.steps + 1 } }

lemma outcome_reference (registry : Registry) (depth : Nat) (opening : Option Opening) (m : Mark)
    (d : Declaration) (args : List TypeExpr) (e : Expanding) :
    outcome (reference registry depth opening m d args) e =
      match known? registry e (.named m d.name args) with
      | some t => (.ok t, e)
      | none =>
        match opening with
        | none =>
          (.error (.resolution (.expansionLimit (e.resolver.steps + 1) depth
            (some (.named m d.name args)) m.position)), counted e)
        | some expandBody =>
          if e.resolver.maxSteps < e.resolver.steps + 1 then
            (.error (.resolution (.expansionLimit (e.resolver.steps + 1) depth
              (some (.named m d.name args)) m.position)), counted e)
          else
            let node := TypeExpr.named ⟨m.position, e.store.nextStamp⟩ d.name args
            match outcome (expandBody d.body (d.binding args) (some d.name)) (enter e node) with
            | (.ok body, e') => (.ok node, { e' with store := { e'.store with
                heap := e'.store.heap.setBody e.store.nextStamp body } })
            | (.error fault, e') => (.error fault, e') := by
  unfold reference
  simp only [outcome_bind, outcome_get]
  unfold known?
  cases hknown : (e.resolver.expanded.find? (·.same (.named m d.name args))).orElse
      fun _ => registry.memoized (.named m d.name args) with
  | some t => simp
  | none =>
    cases opening with
    | none => simp [refuse, counted, outcome_bind]
    | some expandBody =>
      by_cases hlimit : e.resolver.maxSteps < e.resolver.steps + 1
      · simp [refuse, counted, outcome_bind, hlimit]
      · simp only [outcome_bind, outcome_modifyResolver, outcome_get, hlimit, if_false, remark,
          outcome_newStamp, outcome_pure]
        simp only [enter, Declaration.binding]
        rcases outcome (expandBody d.body _ (some d.name)) _ with ⟨fault | body, e'⟩ <;> simp

/-! ## Lists of types -/

section Lists

variable {depth : Nat} {opening : Option Opening} {env : Env} {scope : Option String}

lemma expandAll_eq (ts : List TypeExpr) :
    expandAll registry depth opening env scope ts =
      ts.mapM (expandIn registry depth opening env scope) := by
  induction ts with
  | nil => rfl
  | cons t ts ih => simp [expandAll, ih]

lemma expandFields_eq (fs : List (Field TypeExpr)) :
    expandFields registry depth opening env scope fs = fs.mapM fun f => do
      return ⟨f.name, ← expandIn registry depth opening env scope f.type⟩ := by
  induction fs with
  | nil => rfl
  | cons f fs ih => simp [expandFields, ih]

lemma expandInputs_eq (ps : List (Parameter TypeExpr)) :
    expandInputs registry depth opening env scope ps = ps.mapM fun p => do
      return ⟨← expandIn registry depth opening env scope p.type, p.suffix, p.position⟩ := by
  induction ps with
  | nil => rfl
  | cons p ps ih => simp [expandInputs, ih]

lemma expandTags_eq (gs : List (Tag TypeExpr)) :
    expandTags registry depth opening env scope gs = gs.mapM fun g => do
      return ⟨g.name, ← g.fields.mapM (expandIn registry depth opening env scope)⟩ := by
  induction gs with
  | nil => rfl
  | cons g gs ih => simp [expandTags, expandAll_eq, ih]

end Lists

end Expansion

end TypeNotation
