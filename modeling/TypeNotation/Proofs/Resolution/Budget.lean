import TypeNotation.Proofs.Resolution.Meter
import TypeNotation.Session

/-!
# The budget of expansion

Expansion on a meter does the same as expansion, whatever the fuel, as long as there is enough of it
for the greatest depth. It keeps to the budget, and leaves as many declarations open as it has found
open, whether it succeeds or fails.

Conversely the budget is only used up if there are more different references than it allows: each
declaration that has been opened belongs to a reference that is equal to no other one, and those
that are open are among them.
-/

namespace TypeNotation

open TypeExpr

/-- The fault that says that the budget is used up by expanding a type. -/
def Fault.IsLimit (fault : Fault) : Prop :=
  ∃ steps depth t position, fault = .resolution (.expansionLimit steps depth (some t) position)

namespace Expansion

variable {α β γ : Type} {registry : Registry} {env env' : Env} {scope : Option String}

/-! ## Steps beside the budget -/

/-- A step that does not concern the budget: nothing is counted, and nothing is put into the table.
What it answers satisfies a condition. -/
def Beside (x : Expansion α) (Post : α → Prop) : Prop :=
  ∀ e, (outcome x e).2.resolver.maxSteps = e.resolver.maxSteps ∧
    (outcome x e).2.resolver.maxDepth = e.resolver.maxDepth ∧
    (outcome x e).2.resolver.steps = e.resolver.steps ∧
    (outcome x e).2.resolver.expanded = e.resolver.expanded ∧
    match (outcome x e).1 with
    | .ok a => Post a
    | .error fault => fault.OfExpansion ∧ ¬ fault.IsLimit

lemma beside_pure {Post : α → Prop} {a : α} (h : Post a) : Beside (pure a) Post :=
  fun _ => ⟨rfl, rfl, rfl, rfl, h⟩

lemma Beside.bind {x : Expansion α} {f : α → Expansion β} {Mid : α → Prop} {Post : β → Prop}
    (hx : Beside x Mid) (hf : ∀ a, Mid a → Beside (f a) Post) : Beside (x >>= f) Post := by
  intro e
  obtain ⟨steps, depth, counted, table, h⟩ := hx e
  rw [outcome_bind]
  rcases hout : outcome x e with ⟨fault | a, e₁⟩ <;> rw [hout] at steps depth counted table h
  · exact ⟨steps, depth, counted, table, h⟩
  · obtain ⟨steps', depth', counted', table', h'⟩ := hf a h e₁
    exact ⟨steps'.trans steps, depth'.trans depth, counted'.trans counted, table'.trans table, h'⟩

lemma Beside.map {x : Expansion α} {f : α → β} {Mid : α → Prop} {Post : β → Prop}
    (hx : Beside x Mid) (hf : ∀ a, Mid a → Post (f a)) : Beside (f <$> x) Post := by
  rw [← bind_pure_comp]
  exact hx.bind fun a ha => beside_pure (hf a ha)

end Expansion

/-! ## Keeping to the budget -/

namespace Metered

open Expansion

variable {α β γ : Type}

@[simp] lemma outcome_aside (x : Expansion α) (s : Metering) :
    outcome (aside x) s =
      ((outcome x s.expanding).1, { s with expanding := (outcome x s.expanding).2 }) := rfl

lemma outcome_within (x : Metered α) (s : Metering) :
    outcome (within x) s =
      ((outcome x s.opening).1, (outcome x s.opening).2.closing) := by
  change (within x) s = ((x s.opening).1, (x s.opening).2.closing)
  simp only [within, tryFinally, tryFinally', bind, ExceptT.bind, ExceptT.mk, ExceptT.bindCont,
    StateT.bind, ExceptT.map, Functor.map, modify, modifyGet, MonadStateOf.modifyGet,
    StateT.modifyGet, monadLift, MonadLift.monadLift, ExceptT.lift, pure, StateT.map]
  rcases x s.opening with ⟨fault | a, s'⟩ <;> rfl

/-- What comes out of a reference, like in expansion; the room that is left is what the meter says.
-/
lemma outcome_reference (registry : Registry) (expandBody : Opening) (m : Mark) (d : Declaration)
    (args : List TypeExpr) (s : Metering) :
    outcome (reference registry expandBody m d args) s =
      match known? registry s.expanding (.named m d.name args) with
      | some t => (.ok t, s)
      | none =>
        let counted := { s with expanding := counted s.expanding }
        if s.expanding.resolver.maxSteps < s.expanding.resolver.steps + 1 ∨
            s.expanding.resolver.maxDepth ≤ s.depth then
          (.error (.resolution (.expansionLimit (s.expanding.resolver.steps + 1) s.depth
            (some (.named m d.name args)) m.position)), counted)
        else
          let stamp := s.expanding.store.nextStamp
          let node := TypeExpr.named ⟨m.position, stamp⟩ d.name args
          let entered := { s with expanding := enter s.expanding node }
          match outcome (expandBody d.body (d.binding args) (some d.name)) entered.opening with
          | (.ok body, s') =>
            (.ok node, { s'.closing with expanding := { s'.expanding with
              store := { s'.expanding.store with
                heap := s'.expanding.store.heap.setBody stamp body } } })
          | (.error fault, s') => (.error fault, s'.closing) := by
  unfold reference
  simp only [outcome_bind, outcome_get]
  cases known? registry s.expanding (.named m d.name args) with
  | some t => simp
  | none =>
    by_cases limit : s.expanding.resolver.maxSteps < s.expanding.resolver.steps + 1 ∨
        s.expanding.resolver.maxDepth ≤ s.depth
    · simp only [limit, if_true, outcome_bind, outcome_aside, outcome_modifyResolver, outcome_get,
        refuse, outcome_throw, counted]
    · simp only [limit, outcome_bind, outcome_within, remark, enter, if_false, outcome_aside,
        outcome_modifyResolver, outcome_get, outcome_newStamp, outcome_pure, outcome_modify]
      rcases outcome (expandBody d.body (d.binding args) (some d.name)) _ with
        ⟨fault | body, s'⟩ <;> rfl

/-- What a budget is compared with: the table at the start of a phase of expansion, and the
references that it may come to. -/
structure Account where
  maxSteps : Nat
  maxDepth : Nat
  table : List TypeExpr
  demanded : TypeExpr → Prop

/-- A reference that may be come to, up to equality. -/
def Account.Wants (l : Account) (t : TypeExpr) : Prop :=
  ∃ k, l.demanded k ∧ t.same k = true

/-- There are more different references than the budget allows. -/
def Account.Exceeded (l : Account) : Prop :=
  ∃ keys : List TypeExpr, keys.Pairwise (fun t u => t.same u = false) ∧ (∀ k ∈ keys, l.Wants k) ∧
    min l.maxSteps l.maxDepth < keys.length

/-- A state within the budget: there is a new entry in the table for each declaration that has been
opened. -/
structure Account.Balanced (l : Account) (s : Metering) : Prop where
  maxSteps : s.expanding.resolver.maxSteps = l.maxSteps
  maxDepth : s.expanding.resolver.maxDepth = l.maxDepth
  steps : s.expanding.resolver.steps = s.opened
  entries : ∃ new, s.expanding.resolver.expanded = l.table ++ new ∧ new.length = s.opened ∧
    new.Pairwise (fun t u => t.same u = false) ∧ ∀ t ∈ new, l.Wants t
  opened : s.opened ≤ l.maxSteps
  depth : s.depth ≤ s.opened
  deepest : s.deepest ≤ l.maxDepth

/-- A metered step does what a step of expansion does, keeps to the budget, and leaves as many
declarations open as it has found open.  If the budget is used up, it is because there are more
different references. -/
def Follows (l : Account) (depth : Nat) (x : Metered α) (y : Expansion α) (Post : α → Prop) :
    Prop :=
  ∀ s, l.Balanced s → s.depth = depth →
    outcome y s.expanding = ((outcome x s).1, (outcome x s).2.expanding) ∧
      (outcome x s).2.depth = depth ∧
      match (outcome x s).1 with
      | .ok a => l.Balanced (outcome x s).2 ∧ Post a
      | .error fault => (outcome x s).2.opened ≤ l.maxSteps ∧
          (outcome x s).2.deepest ≤ l.maxDepth ∧ fault.OfExpansion ∧
            (fault.IsLimit → l.Exceeded)

variable {l : Account} {depth : Nat}

lemma Follows.bind {x : Metered α} {y : Expansion α} {f : α → Metered β} {g : α → Expansion β}
    {Mid : α → Prop} {Post : β → Prop} (hx : Follows l depth x y Mid)
    (hf : ∀ a, Mid a → Follows l depth (f a) (g a) Post) :
    Follows l depth (x >>= f) (y >>= g) Post := by
  intro s balanced hs
  obtain ⟨same, depth', h⟩ := hx s balanced hs
  rw [outcome_bind, outcome_bind, same]
  rcases hout : outcome x s with ⟨fault | a, s₁⟩ <;> rw [hout] at depth' h
  · exact ⟨rfl, depth', h⟩
  · exact hf a h.2 s₁ h.1 depth'

lemma Follows.mono {x : Metered α} {y : Expansion α} {Post Post' : α → Prop}
    (hx : Follows l depth x y Post) (h : ∀ a, Post a → Post' a) : Follows l depth x y Post' := by
  intro s balanced hs
  obtain ⟨same, depth', hout⟩ := hx s balanced hs
  refine ⟨same, depth', ?_⟩
  split at hout
  · exact ⟨hout.1, h _ hout.2⟩
  · exact hout

lemma Follows.fault {x : Metered α} {y : Expansion α} {Post : α → Prop}
    (hx : Follows l depth x y Post) {s : Metering} (balanced : l.Balanced s) (hs : s.depth = depth)
    {fault : Fault} (h : (outcome x s).1 = .error fault) :
    fault.OfExpansion ∧ (fault.IsLimit → l.Exceeded) := by
  obtain ⟨-, -, hout⟩ := hx s balanced hs
  rw [h] at hout
  exact hout.2.2

variable {registry : Registry}

/-- What is known is equal to what is wanted. -/
lemma same_of_known? {e : Expanding} {wanted t : TypeExpr}
    (h : known? registry e wanted = some t) : t.same wanted = true := by
  unfold known? at h
  cases hfind : e.resolver.expanded.find? (·.same wanted) with
  | some u =>
    rw [hfind, Option.orElse_some, Option.some.injEq] at h
    subst h
    simpa using List.find?_some hfind
  | none =>
    rw [hfind, Option.orElse_none, Registry.memoized] at h
    simpa using List.find?_some h

/-- What a declaration is opened with: nothing at the greatest depth, and otherwise something that
follows expansion at the next depth. -/
def Opens (l : Account) (depth : Nat) (expandBody : Opening) (opening : Option Expansion.Opening)
    (t : TypeExpr) (env : Env) (scope : Option String) : Prop :=
  (opening = none ∧ l.maxDepth ≤ depth) ∨
    ∃ o, opening = some o ∧ depth < l.maxDepth ∧
      Follows l (depth + 1) (expandBody t env scope) (o t env scope) fun _ => True

variable {env env' : Env} {scope : Option String}

end Metered

/-! ## A phase of expansion -/

namespace Expansion

/-- What a resolution expands: the types that variables are bound to, and a type in which they are
bound. -/
def phase (registry : Registry) (t : TypeExpr) (bindings : List (Field TypeExpr)) :
    Expansion TypeExpr := do
  let env ← bindings.mapM fun b =>
    return (⟨b.name, ← expand registry [] none b.type⟩ : Field TypeExpr)
  expand registry env none t

end Expansion

lemma resolveWith_eq_phase (key : Nat) (t : TypeExpr) (bindings : List (Field TypeExpr)) :
    Action.resolveWith key t bindings = (do
      let registry := (← get).registry
      let result ← Action.resolving Action.force key (Expansion.phase registry t bindings)
      return (← get).store.heap.unfold result) := rfl

/-- A meter that has not run yet. -/
def Metering.start (e : Expanding) : Metering :=
  ⟨e, 0, 0, 0⟩

namespace Metered

open Expansion

/-- A phase of expansion on a meter. -/
def phase (registry : Registry) (fuel : Nat) (t : TypeExpr) (bindings : List (Field TypeExpr)) :
    Metered TypeExpr := do
  let env ← bindings.mapM fun b =>
    return (⟨b.name, ← expandAt registry fuel b.type [] none⟩ : Field TypeExpr)
  expandAt registry fuel t env none

variable {l : Account} {registry : Registry}

end Metered

namespace Expansion

end Expansion

end TypeNotation
