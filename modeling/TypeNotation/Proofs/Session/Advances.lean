import TypeNotation.Proofs.Session.Resolving

/-!
# Relations that resolving advances

What becomes of a session when types are resolved is often said by a relation between the session
before and the session after, whether the resolution succeeds or fails.  For a relation that is
reflexive and transitive it is enough to look at the few steps that change a session: a resolver
forgets, its expansions are settled and remembered, an expansion is run, and the result of a
suspended node is set.  The demands that checking a condition makes are resolutions of the same
kind.
-/

namespace TypeNotation

open TypeExpr Expansion

/-- A relation between an earlier and a later session that lasts while resolvers conclude. -/
structure Session.Lasting (R : Session → Session → Prop) : Prop where
  refl : ∀ s, R s s
  trans : ∀ {s s' s''}, R s s' → R s' s'' → R s s''
  settle : ∀ s key, R s
    { s with store := s.store.setResolver key { s.store.resolver key with pending := [] } }
  clear : ∀ s key, R s { s with store := s.store.setResolver key (s.store.resolver key).clear }
  memoize : ∀ s key, R s { s with registry := s.registry.memoize (s.store.resolver key).expanded }

namespace Action

variable {R : Session → Session → Prop} {α β : Type} {st : Stage} {key : Nat}

/-- A step on a sound stage advances a relation: it holds between the sessions before and after. -/
def Advances (R : Session → Session → Prop) (x : Action α) (st : Stage) : Prop :=
  st.Sound → R st.session (outcome x st.session).2

/-- Resolving suspended nodes that are settled advances a relation. -/
def Advancing (R : Session → Session → Prop) (force : TypeExpr → Action TypeExpr) : Prop :=
  ∀ (st : Stage) (m : Mark) (target : TypeExpr) (bindings : List (Field TypeExpr)),
    st.settled (.deferred m target bindings) → Advances R (force (.deferred m target bindings)) st

variable (lasting : Session.Lasting R)
include lasting

lemma advances_pure (a : α) : Advances R (pure a) st := fun _ => lasting.refl _

lemma advances_throw (fault : Fault) : Advances R (throw fault : Action α) st :=
  fun _ => lasting.refl _

lemma advances_bind {x : Action α} {f : α → Action β} {Mid : Stage → α → Prop}
    (acts : Acts x st Mid) (hx : Advances R x st)
    (hf : ∀ st' a, st.Later st' → Mid st' a → Advances R (f a) st') : Advances R (x >>= f) st := by
  intro sound
  obtain ⟨settled, shelf, later, sound', -, -, mid⟩ := acts sound
  have advanced := hx sound
  rw [outcome_bind]
  rcases hout : outcome x st.session with ⟨fault | a, s⟩
  · rw [hout] at advanced
    exact advanced
  · simp only [hout] at later sound' mid advanced ⊢
    exact lasting.trans advanced
      (hf ⟨s, settled, shelf, st.own, st.active⟩ a later (mid a rfl).2 sound')

omit lasting in
lemma advances_get {f : Session → Action β} (hf : Advances R (f st.session) st) :
    Advances R (get >>= f) st := fun sound => by
  rw [outcome_bind, outcome_get]
  exact hf sound

lemma advances_forM {f : β → Action Unit} {xs : List β}
    (acts : ∀ x ∈ xs, ∀ st', st.Later st' → Acts (f x) st' fun _ _ => True)
    (h : ∀ x ∈ xs, ∀ st', st.Later st' → Advances R (f x) st') : Advances R (xs.forM f) st := by
  induction xs generalizing st with
  | nil => exact advances_pure lasting ()
  | cons x xs ih =>
    refine advances_bind lasting (acts x List.mem_cons_self st (.refl st))
      (h x List.mem_cons_self st (.refl st)) fun st' _ later _ => ?_
    exact ih (fun y hy st'' later' => acts y (List.mem_cons_of_mem _ hy) st'' (later.trans later'))
      fun y hy st'' later' => h y (List.mem_cons_of_mem _ hy) st'' (later.trans later')

/-! ## Questions and conditions -/

variable {force : TypeExpr → Action TypeExpr} (hforce : Forces force)
    (advancing : Advancing R force)
include hforce advancing

lemma advances_askWith {question : Heap → Query α}
    (hquestion : ∀ st', st.Later st' → st'.Sound → (question st'.store.heap).Free st'.settled)
    (bound : Nat) : Advances R (askWith force question bound) st := by
  induction bound generalizing st with
  | zero => exact advances_throw lasting _
  | succ bound ih =>
    refine fun sound => advances_get ?_ sound
    have stays := hquestion st (.refl st) sound
    cases hanswer : question st.store.heap with
    | ok a => exact advances_pure lasting a
    | error halt =>
      cases halt with
      | demand t =>
        rw [hanswer] at stays
        obtain ⟨hnode, m, target, bindings, rfl⟩ := stays
        exact advances_bind lasting (hforce st m target bindings hnode)
          (advancing st m target bindings hnode) fun st' _ later _ =>
            ih fun st'' later' => hquestion st'' (later.trans later')
      | _ => exact advances_throw lasting _

lemma advances_checkCondition {c : Condition} (hbinding : c.binding.ResolvedOver st.settled)
    (hconstraint : c.constraint.ResolvedOver st.settled) :
    Advances R (checkCondition force c) st := by
  unfold checkCondition
  split
  · have question : ∀ st', st.Later st' → st'.Sound → Query.Free st'.settled
        ((Matcher.mk st'.store.heap true).isSubtype depthBound c.binding c.constraint) :=
      fun st' later sound => free_isSubtype sound.wired true depthBound
        (hbinding.mono fun _ => later.settled) (hconstraint.mono fun _ => later.settled)
    refine advances_bind lasting (acts_askWith hforce (P := fun _ _ => True) question depthBound)
      (advances_askWith lasting hforce advancing question depthBound) fun st' holds _ _ => ?_
    cases holds
    · exact advances_throw lasting _
    · exact advances_pure lasting ()
  · exact advances_pure lasting ()

/-! ## Resolutions -/

lemma advances_conclude (hkey : key < st.store.nextStamp) (haside : ¬ st.aside key) :
    Advances R (conclude force key) st := by
  refine fun sound => advances_get ?_ sound
  have pending := (sound.resolver key).pending
  cases hcheck : st.store.heap.checkProductive (st.store.resolver key).expanded with
  | error e => exact advances_throw lasting _
  | ok u =>
    refine advances_bind lasting (acts_settle hkey haside hcheck).kept
      (fun _ => lasting.settle _ key) fun st₁ _ later₁ h₁ => ?_
    obtain ⟨kept₁, settled₁, shelf₁⟩ := h₁
    have resolved : ∀ {t : TypeExpr} {st₂ : Stage}, st₁.Later st₂ → t.ResolvedOver (st.under key) →
        t.ResolvedOver st₂.settled := fun later₂ ht =>
      ht.mono fun n hn => later₂.settled ((settled₁ n).2 hn)
    have acts : ∀ c ∈ (st.store.resolver key).pending, ∀ st₂, st₁.Later st₂ →
        Acts (checkCondition force c) st₂ fun st' _ => st'.Upholds c.binding c.constraint :=
      fun c hc st₂ later₂ => acts_checkCondition hforce (resolved later₂ (pending c hc).1)
        (resolved later₂ (pending c hc).2)
    refine advances_bind lasting (acts_forM (fun later h => h.later later) acts)
      (advances_forM lasting (fun c hc st₂ later₂ =>
        (acts c hc st₂ later₂).mono fun _ _ _ _ => trivial)
        fun c hc st₂ later₂ => advances_checkCondition lasting hforce advancing
          (resolved later₂ (pending c hc).1) (resolved later₂ (pending c hc).2))
      fun st₂ _ _ _ _ => lasting.memoize _ key

/-- A resolution advances a relation if its expansion does. -/
lemma advances_resolving {x : Expansion α} (hkey : key < st.store.nextStamp)
    (haside : ¬ st.aside key) {Post : World → α → Prop}
    (hx : st.Sound → Expands st.registry x (st.world key) Post)
    (run : st.Sound → R st.session (outcome (runExpansion key x) st.session).2) :
    Advances R (resolving force key x) st := by
  intro sound
  obtain ⟨nodes, later, ready, -⟩ := hx sound (sound.ready key)
  let w : World := ⟨nodes, (outcome x (st.world key).state).2⟩
  have ran : outcome (runExpansion key x) st.session =
      ((outcome x (st.world key).state).1, (st.expanded key w).session) := outcome_runExpansion x _
  have begun : R st.session (st.expanded key w).session := by
    have := run sound
    rwa [ran] at this
  have concluded : R (st.expanded key w).session
      (outcome (conclude force key) (st.expanded key w).session).2 :=
    advances_conclude lasting hforce advancing (Nat.lt_of_lt_of_le hkey later.next) haside
      (sound.expanded hkey later ready)
  have body : R st.session (outcome (runExpansion key x >>= fun a => conclude force key >>= fun _ =>
      pure a) st.session).2 := by
    rw [outcome_bind, ran]
    rcases (outcome x (st.world key).state).1 with fault | a
    · exact begun
    · simp only [outcome_bind]
      rcases hout : outcome (conclude force key) (st.expanded key w).session with ⟨fault | u, s⟩ <;>
        rw [hout] at concluded <;> exact lasting.trans begun concluded
  rw [outcome_resolving]
  rcases hout : outcome (runExpansion key x >>= fun a => conclude force key >>= fun _ => pure a)
    st.session with ⟨fault | a, s⟩ <;> rw [hout] at body
  · dsimp only
    split
    · exact lasting.trans body (lasting.clear s key)
    · exact body
  · exact body

omit hforce advancing in
/-- However deep demands may nest, resolving suspended nodes advances a relation if resolving those
that have no result yet does. -/
lemma advancing_forceWithin
    (anew : ∀ {force : TypeExpr → Action TypeExpr}, Forces force → Advancing R force →
      ∀ (st : Stage) (m : Mark) (target : TypeExpr) (bindings : List (Field TypeExpr)),
        st.settled (.deferred m target bindings) → st.store.heap.result? m.stamp = none →
          Advances R (forceAnew force (.deferred m target bindings)) st) (bound : Nat) :
    Advancing R (forceWithin bound) := by
  induction bound with
  | zero => exact fun _ _ _ _ _ => advances_throw lasting _
  | succ bound ih =>
    intro st m target bindings hnode
    refine advances_get ?_
    cases hresult : st.store.heap.result? (TypeExpr.deferred m target bindings).stamp with
    | some result => exact advances_pure lasting result
    | none => exact anew (forces_forceWithin bound) ih st m target bindings hnode hresult

end Action

end TypeNotation
