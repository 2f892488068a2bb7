import TypeNotation.Proofs.Session.NormalForm

/-!
# Resolving leaves the declarations alone

Resolving adds to the memo and to the store; which names are declared, and how, it does not change.
The same holds for questions, which may demand that targets be resolved.  So all declarations in a
session are among those that a registry starts with and those that were declared or loaded.
-/

namespace TypeNotation

namespace Action

variable {α β : Type}

/-- An action that leaves the declarations as they are, whether it succeeds or fails. -/
def Keeps (x : Action α) : Prop :=
  ∀ s, (outcome x s).2.registry.declarations = s.registry.declarations

lemma keeps_pure (a : α) : Keeps (pure a : Action α) := fun _ => rfl

lemma keeps_throw (fault : Fault) : Keeps (throw fault : Action α) := fun _ => rfl

lemma keeps_get : Keeps (get : Action Session) := fun _ => rfl

lemma keeps_modify {f : Session → Session}
    (h : ∀ s, (f s).registry.declarations = s.registry.declarations) : Keeps (modify f) := h

lemma Keeps.bind {x : Action α} {f : α → Action β} (hx : Keeps x) (hf : ∀ a, Keeps (f a)) :
    Keeps (x >>= f) := by
  intro s
  rw [outcome_bind]
  have hx := hx s
  rcases hout : outcome x s with ⟨fault | a, s'⟩
  · rw [hout] at hx
    exact hx
  · rw [hout] at hx
    exact (hf a s').trans hx

lemma keeps_forM {f : β → Action Unit} (h : ∀ b, Keeps (f b)) (bs : List β) :
    Keeps (bs.forM f) := by
  induction bs with
  | nil => exact keeps_pure ()
  | cons b bs ih => exact (h b).bind fun _ => ih

variable {force : TypeExpr → Action TypeExpr}

lemma keeps_askWith (hforce : ∀ t, Keeps (force t)) (question : Heap → Query α) (bound : Nat) :
    Keeps (askWith force question bound) := by
  induction bound with
  | zero => exact keeps_throw _
  | succ bound ih =>
    refine keeps_get.bind fun s => ?_
    cases question s.store.heap with
    | ok a => exact keeps_pure a
    | error halt =>
      cases halt with
      | demand t => exact (hforce t).bind fun _ => ih
      | _ => exact keeps_throw _

lemma keeps_modifyResolver (key : Nat) (f : Resolver → Resolver) : Keeps (modifyResolver key f) :=
  keeps_modify fun _ => rfl

lemma keeps_conclude (hforce : ∀ t, Keeps (force t)) (key : Nat) :
    Keeps (conclude force key) := by
  refine keeps_get.bind fun s => ?_
  split
  · exact keeps_throw _
  · refine (keeps_modifyResolver key _).bind fun _ => (keeps_forM (fun c => ?_) _).bind fun _ =>
      keeps_modify fun _ => rfl
    unfold checkCondition
    split
    · refine (keeps_askWith hforce _ _).bind fun holds => ?_
      cases holds
      · exact keeps_throw _
      · exact keeps_pure ()
    · exact keeps_pure ()

lemma keeps_runExpansion (key : Nat) (x : Expansion α) : Keeps (runExpansion key x) := by
  intro s
  rw [outcome_runExpansion]

lemma keeps_resolving (hforce : ∀ t, Keeps (force t)) (key : Nat) (x : Expansion α) :
    Keeps (resolving force key x) := by
  have body : Keeps (runExpansion key x >>= fun a => conclude force key >>= fun _ => pure a) :=
    (keeps_runExpansion key x).bind fun _ => (keeps_conclude hforce key).bind fun _ => keeps_pure _
  intro s
  have body := body s
  rw [outcome_resolving]
  rcases hout : outcome (runExpansion key x >>= fun a => conclude force key >>= fun _ => pure a) s
    with ⟨fault | a, s'⟩
  · rw [hout] at body
    dsimp only
    split <;> exact body
  · rw [hout] at body
    exact body

lemma keeps_force (t : TypeExpr) : Keeps (Action.force t) := by
  suffices ∀ bound t, Keeps (forceWithin bound t) from this depthBound t
  intro bound
  induction bound with
  | zero => exact fun _ => keeps_throw _
  | succ bound ih =>
    intro t
    refine keeps_get.bind fun s => ?_
    split
    · exact keeps_pure _
    · refine keeps_get.bind fun s => (keeps_resolving ih _ _).bind fun result => ?_
      exact Keeps.bind (keeps_modify fun _ => rfl) fun _ => keeps_pure result

lemma keeps_resolveWith (key : Nat) (t : TypeExpr) (bindings : List (Field TypeExpr)) :
    Keeps (resolveWith key t bindings) :=
  keeps_get.bind fun _ => (keeps_resolving keeps_force key _).bind fun _ =>
    keeps_get.bind fun _ => keeps_pure _

lemma keeps_resolveAnew (maxSteps maxDepth : Nat) (t : TypeExpr)
    (bindings : List (Field TypeExpr)) : Keeps (resolveAnew maxSteps maxDepth t bindings) := by
  have made : Keeps (newResolver maxSteps maxDepth) := fun _ => rfl
  exact made.bind fun key => keeps_resolveWith key t bindings

lemma keeps_ask (question : Heap → Query α) : Keeps (ask question) :=
  keeps_askWith keeps_force question depthBound

lemma keeps_reading (result : Except SyntaxError α) : Keeps (reading result) := by
  cases result with
  | error e => exact keeps_throw _
  | ok a => exact keeps_pure a

lemma keeps_lookupMember (text name : String) : Keeps (lookupMember text name) :=
  ((keeps_reading _).bind fun t => keeps_resolveAnew 10000 64 t []).bind fun _ => keeps_ask _

lemma keeps_question (q : Question) : Keeps q.action := by
  cases q <;> exact (keeps_ask _).bind fun _ => keeps_pure _

/-! ## Declarations that are added -/

variable {P : Declaration → Prop} {s : Session}

/-- What holds of all declarations still holds after they have been changed. -/
lemma forall_updateRegistry {f : Registry → Except Conflict Registry}
    (h : ∀ d ∈ s.registry.declarations, P d)
    (hf : ∀ r, f s.registry = .ok r → ∀ d ∈ r.declarations, P d) :
    ∀ d ∈ (outcome (updateRegistry f) s).2.registry.declarations, P d := by
  rw [outcome_updateRegistry]
  cases hr : f s.registry with
  | error c => exact h
  | ok r => exact hf r hr

lemma forall_load {ds : List Declaration} (h : ∀ d ∈ s.registry.declarations, P d)
    (hds : ∀ d ∈ ds, P d) : ∀ d ∈ (outcome (load ds) s).2.registry.declarations, P d := by
  refine forall_updateRegistry h fun r hr => ?_
  obtain ⟨_, -, hr⟩ := bind_eq_ok.1 hr
  cases hr
  exact Registry.forall_foldl_insert h hds

end Action

/-- The declarations that a call makes, unless it is refused. -/
def Call.Declares : Call → Declaration → Prop
  | declare d, e => e = d
  | load ds, e => e ∈ ds
  | loadText text, e => ∃ ds, parse text = .ok ds ∧ e ∈ ds
  | newResolver .., _ | resolve .., _ | lookupMember .., _ | ask _, _ => False

open TypeNotation.Action in
/-- What holds of all declarations, and of those that a call makes, holds of all declarations after
the call. -/
lemma Call.forall_declarations {P : Declaration → Prop} {s : Session} (call : Call)
    (h : ∀ d ∈ s.registry.declarations, P d) (made : ∀ d, call.Declares d → P d) :
    ∀ d ∈ (outcome call.action s).2.registry.declarations, P d := by
  have kept {α : Type} {x : Action α} {reply : α → Reply} (hx : Keeps x) :
      ∀ d ∈ (outcome (do return reply (← x)) s).2.registry.declarations, P d := by
    rw [hx.bind (fun _ => keeps_pure _) s]
    exact h
  have replied {α β : Type} {x : Action α} (reply : α → β)
      (hx : ∀ d ∈ (outcome x s).2.registry.declarations, P d) :
      ∀ d ∈ (outcome (do return reply (← x)) s).2.registry.declarations, P d := by
    rw [outcome_bind]
    rcases hout : outcome x s with ⟨fault | a, s'⟩ <;>
      · rw [hout] at hx
        exact hx
  cases call with
  | declare d =>
    refine replied (fun _ => (⟨[], []⟩ : Reply)) (forall_updateRegistry h fun r hr => ?_)
    rw [(Registry.declare_eq_ok.1 hr).2]
    exact Registry.forall_insert h (made d rfl)
  | load ds => exact replied (fun _ => (⟨[], []⟩ : Reply)) (forall_load h made)
  | loadText text =>
    refine replied (fun _ => (⟨[], []⟩ : Reply)) ?_
    rw [Action.loadText, outcome_bind]
    cases hds : parse text with
    | error e => exact h
    | ok ds =>
      exact replied (fun _ => ds) (forall_load h fun d hd => made d ⟨ds, hds, hd⟩)
  | newResolver => exact h
  | resolve key t bindings => exact kept (keeps_resolveWith key t bindings)
  | lookupMember text name => exact kept (keeps_lookupMember text name)
  | ask q => exact kept (keeps_question q)

end TypeNotation
