import TypeNotation.Proofs.Resolution.Outcome
import TypeNotation.Proofs.Resolution.World

/-!
# Expansion keeps worlds closed

What is said of expansion here is said of every step in the same form: from a world in which types
can be expanded, a step leads to a later such world, whether it succeeds or fails.  If it succeeds,
all named nodes that it has made have a body and their conditions have been noted, and its answer
satisfies a postcondition.  A fault of expansion is a refusal or an arithmetic overflow; it never
says that a type is cyclic.

For the expansion of a type the postcondition is that the answer is resolved, built over the nodes
of the world, and equal to the instance of the type, and that the conditions of the type have been
noted.
-/

namespace TypeNotation

/-- The faults of expansion: a refusal, or an arithmetic overflow. -/
inductive Fault.OfExpansion : Fault → Prop
  | refused (e : ResolutionError) : OfExpansion (.resolution e)
  | overflow : OfExpansion (.arithmetic .overflow)

/-- Whether a fault says that a named type leads back to itself. -/
def Fault.IsCyclic : Fault → Prop
  | resolution (.cyclic ..) => True
  | _ => False

lemma Fault.ne_cyclic {fault : Fault} (h : ¬ fault.IsCyclic) {names : List String}
    {position : Option Position} : fault ≠ .resolution (.cyclic names position) := by
  rintro rfl
  exact h trivial

namespace Expansion

open TypeExpr

variable {α β γ : Type} {registry : Registry} {w w' : World}

/-! ## Steps -/

/-- A step leads to a later world, and what it answers satisfies a condition there. -/
def Expands (registry : Registry) (x : Expansion α) (w : World) (Post : World → α → Prop) : Prop :=
  w.Ready registry → ∃ nodes,
    let w' : World := ⟨nodes, (outcome x w.state).2⟩
    w.Later w' ∧ w'.Ready registry ∧
      match (outcome x w.state).1 with
      | .ok a => w.Completed registry w' ∧ Post w' a
      | .error fault => fault.OfExpansion ∧ ¬ fault.IsCyclic

lemma Expands.of_ready {x : Expansion α} {Post : World → α → Prop}
    (h : w.Ready registry → Expands registry x w Post) : Expands registry x w Post :=
  fun ready => h ready ready

lemma expands_pure {Post : World → α → Prop} {a : α} (h : Post w a) :
    Expands registry (pure a) w Post :=
  fun ready => ⟨w.nodes, .refl w ready.fresh, ready, World.Completed.of_nodes fun _ hn => hn, h⟩

lemma expands_refuse {Post : World → α → Prop} (e : ResolutionError)
    (h : ¬ Fault.IsCyclic (.resolution e)) : Expands registry (refuse e) w Post :=
  fun ready => ⟨w.nodes, .refl w ready.fresh, ready, .refused e, h⟩

lemma expands_overflow {Post : World → α → Prop} :
    Expands registry (throw (.arithmetic .overflow)) w Post :=
  fun ready => ⟨w.nodes, .refl w ready.fresh, ready, .overflow, id⟩

lemma Expands.bind {x : Expansion α} {f : α → Expansion β} {Mid : World → α → Prop}
    {Post : World → β → Prop} (hx : Expands registry x w Mid)
    (hf : ∀ w' a, w.Later w' → Mid w' a → Expands registry (f a) w' Post) :
    Expands registry (x >>= f) w Post := by
  intro ready
  obtain ⟨nodes, later, ready', h⟩ := hx ready
  simp only [outcome_bind]
  rcases hout : outcome x w.state with ⟨fault | a, e⟩
  · simp only [hout] at later ready' h ⊢
    exact ⟨nodes, later, ready', h⟩
  · simp only [hout] at later ready' h ⊢
    obtain ⟨nodes', later', ready'', h'⟩ := hf ⟨nodes, e⟩ a later h.2 ready'
    refine ⟨nodes', later.trans later', ready'', ?_⟩
    rcases hout' : (outcome (f a) e) with ⟨fault | b, e'⟩
    · simp only [hout'] at h' ⊢
      exact h'
    · simp only [hout'] at later' h' ⊢
      exact ⟨World.Completed.trans ready' later' h.1 h'.1, h'.2⟩

lemma Expands.mono {x : Expansion α} {Post Post' : World → α → Prop}
    (hx : Expands registry x w Post) (h : ∀ w' a, w.Later w' → Post w' a → Post' w' a) :
    Expands registry x w Post' := by
  intro ready
  obtain ⟨nodes, later, ready', hout⟩ := hx ready
  refine ⟨nodes, later, ready', ?_⟩
  split at hout
  · exact ⟨hout.1, h _ _ later hout.2⟩
  · exact hout

lemma expands_mapM {f : β → Expansion γ} {P : World → β → γ → Prop} {xs : List β}
    (stable : ∀ w₁ w₂ x y, w₁.Later w₂ → P w₁ x y → P w₂ x y)
    (h : ∀ x ∈ xs, ∀ w', w.Later w' → Expands registry (f x) w' (P · x)) :
    Expands registry (xs.mapM f) w fun w' ys => List.Forall₂ (P w') xs ys := by
  induction xs generalizing w with
  | nil => exact expands_pure .nil
  | cons x xs ih =>
    rw [List.mapM_cons]
    refine .of_ready fun ready => .bind (h x (by simp) w (.refl w ready.fresh))
      fun w₁ y later hy => ?_
    refine .bind (ih fun x' hx' w₂ later' => h x' (by simp [hx']) w₂ (later.trans later'))
      fun w₂ ys later' hys => ?_
    exact expands_pure (.cons (stable _ _ _ _ later' hy) hys)

/-- A step that succeeds, by its outcome. -/
lemma expands_step {x : Expansion α} {Post : World → α → Prop} {a : α} {e : Expanding}
    {K : Nodes}
    (out : outcome x w.state = (.ok a, e))
    (later : w.Ready registry → w.Later ⟨K, e⟩)
    (ready : w.Ready registry → World.Ready registry ⟨K, e⟩)
    (completed : w.Ready registry → w.Completed registry ⟨K, e⟩)
    (post : w.Ready registry → Post ⟨K, e⟩ a) :
    Expands registry x w Post := by
  intro r
  refine ⟨K, ?_⟩
  simp only [out]
  exact ⟨later r, ready r, completed r, post r⟩

lemma expands_newStamp :
    Expands registry newStamp w fun _ _ => True :=
  expands_step (K := w.nodes) (outcome_newStamp w.state)
    (fun ready => {
      nodes := fun h => h
      made := fun h => .inl h
      next := Nat.le_succ _
      bodies := fun _ => rfl
      results := rfl
      suspensions := fun _ => rfl
      resolvers := fun _ => rfl
      idle := fun hn hr => by
        have := ready.fresh.resolvers hn
        simp_all
      table := List.prefix_rfl
      pending := List.prefix_rfl
      maxSteps := rfl
      maxDepth := rfl })
    (fun ready => {
      wired := ready.wired.later (Nat.le_succ _) (fun _ _ => rfl) (fun _ _ => rfl) fun _ _ => rfl
      fresh := ⟨fun h => ready.fresh.bodies (Nat.le_of_succ_le h),
        fun h => ready.fresh.results (Nat.le_of_succ_le h),
        fun h => ready.fresh.resolvers (Nat.le_of_succ_le h)⟩
      resolver := ready.resolver
      registry := ready.registry })
    (fun _ => World.Completed.of_nodes fun _ h => h)
    fun _ => trivial

lemma expands_remark (m : Mark) : Expands registry (remark m) w fun _ _ => True :=
  expands_newStamp.bind fun _ _ _ _ => expands_pure trivial

lemma expands_get :
    Expands registry (get : Expansion Expanding) w fun w' e => w' = w ∧ e = w.state :=
  fun ready => ⟨w.nodes, .refl w ready.fresh, ready, World.Completed.of_nodes fun _ h => h, rfl,
    rfl⟩

/-! ## Numbers -/

/-- Evaluating a numeral does not change its value. -/
lemma value?_evaluate {x : Numeral} {v : Option Number} (hv : x.value? = .ok v) :
    x.evaluate.value? = .ok v := by
  induction x generalizing v with
  | literal => exact hv
  | power position b e hb he =>
    simp only [Numeral.evaluate]
    rcases v with _ | v
    · rw [hv]
      obtain ⟨base, exponent⟩ := Numeral.Evaluated.power ⟨_, hv⟩
      obtain ⟨x, hx⟩ := base
      obtain ⟨y, hy⟩ := exponent
      simp only [Numeral.value?, hx, hy, hb hx, he hy] at hv ⊢
      exact hv
    · rw [hv]
      rfl

lemma expands_numeral (x : Numeral) :
    Expands registry (numeral x) w fun _ y => y = x.evaluate ∧ y.Evaluated := by
  induction x generalizing w with
  | literal position v => exact expands_pure ⟨rfl, Numeral.evaluated_literal position v⟩
  | power position b e hb he =>
    simp only [numeral]
    rcases hv : (Numeral.power position b e).value? with fault | (_ | v)
    · cases fault with
      | domain => exact expands_refuse _ id
      | overflow => exact expands_overflow
    · refine hb.bind fun _ y _ hy => he.bind fun _ z _ hz => expands_pure ?_
      have evaluate : (Numeral.power position b e).evaluate = .power position y z := by
        simp only [Numeral.evaluate, hv, hy.1, hz.1]
      exact ⟨evaluate.symm, none, evaluate ▸ value?_evaluate hv⟩
    · refine expands_pure ⟨?_, Numeral.evaluated_literal position v⟩
      simp only [Numeral.evaluate, hv]

lemma expands_interval (m : Mark) (low high : Numeral) :
    Expands registry (interval m low high) w fun w' t =>
      t.ResolvedOver w'.nodes ∧ t.same (.interval m low.evaluate high.evaluate) = true := by
  unfold interval
  refine (expands_numeral low).bind fun _ l _ hl => (expands_numeral high).bind fun _ h _ hh => ?_
  obtain ⟨rfl, -⟩ := hl
  obtain ⟨rfl, -⟩ := hh
  by_cases hnan : (low.evaluate.isNaN || high.evaluate.isNaN) = true
  · simp only [hnan, if_true]
    refine Expands.bind (?_ : Expands registry _ _ fun _ _ => False) fun _ _ _ h => h.elim
    exact expands_refuse _ id
  · simp only [hnan, Bool.false_eq_true, if_false]
    rcases hc : low.evaluate.compare high.evaluate with fault | o
    · cases fault with
      | domain => exact expands_refuse _ id
      | overflow => exact expands_overflow
    · cases o with
      | lt =>
        refine (expands_remark m).bind fun w' m' _ _ => expands_pure ?_
        simp only [Bool.or_eq_true, not_or, Bool.not_eq_true] at hnan
        exact ⟨resolvedOver_interval.2 ⟨hnan.1, hnan.2, hc⟩,
          alike_iff.1 (.interval (Numeral.same_self _) (Numeral.same_self _))⟩
      | eq | gt => exact expands_refuse _ id

/-! ## Variables and predicates -/

/-- The answer of an expansion: a resolved type, equal to the instance of the type expanded, whose
conditions have been noted.  It is at home where the type was expanded. -/
structure Result (env : Env) (scope : Option String) (t : TypeExpr) (w : World) (u : TypeExpr) :
    Prop where
  resolved : u.ResolvedOver w.nodes
  same : u.same (t.instantiate env scope) = true
  noted : t.Discharged w.Noted env scope
  home : u.Home w.state.store scope (t.Guest env)

lemma Result.later {env : Env} {scope : Option String} {t u : TypeExpr}
    (later : World.Later w w') (h : Result env scope t w u) : Result env scope t w' u :=
  ⟨h.resolved.mono fun _ => later.nodes, h.same, h.noted.mono fun _ _ => later.noted,
    h.home.later later.next fun _ => later.suspensions⟩

/-- A type that is not expanded further comes up with no condition. -/
lemma Result.leaf {env : Env} {scope : Option String} {t u : TypeExpr}
    (own : ∀ m constraint body listed, t ≠ .predicate m constraint body listed)
    (leaf : t.expandedParts = []) (resolved : u.ResolvedOver w.nodes)
    (same : u.same (t.instantiate env scope) = true)
    (home : u.Home w.state.store scope (t.Guest env)) : Result env scope t w u :=
  ⟨resolved, same, discharged_of_parts own (by simp [leaf]), home⟩

lemma expands_typeVariable {env : Env} (henv : Env.Over w.nodes env) (scope : Option String)
    (m : Mark) (v : Variable) :
    Expands registry (typeVariable env scope m v) w (Result env scope (.typeVariable m v)) := by
  unfold typeVariable
  have leaf : ∀ (K : Nodes) m' v', (TypeExpr.typeVariable m' v').ResolvedOver K := fun K m' v' =>
    throughout_iff.2 ⟨trivial, by simp [parts]⟩
  have home : ∀ (s : Store) (guest : TypeExpr → Prop) m' v',
      (TypeExpr.typeVariable m' v').Home s scope guest := fun _ _ _ _ => .node rfl (by simp [parts])
  by_cases hv : v.scope.isSome
  · simp only [hv, if_true]
    exact expands_pure
      (.leaf (by simp) rfl (leaf _ m v) (by simp [instantiate, hv, same]) (home _ _ m v))
  · simp only [hv, Bool.false_eq_true, if_false]
    rcases hfind : Field.find? env v.letter with _ | t
    · refine (expands_remark m).bind fun _ _ _ _ =>
        expands_pure (.leaf (by simp) rfl (leaf _ _ _) ?_ (home _ _ _ _))
      simp [instantiate, hv, hfind, same]
    · have occurs : (TypeExpr.typeVariable m v).HasLetter v.letter :=
        ⟨m, v, mem_subterms_self _, rfl⟩
      exact expands_pure (.leaf (by simp) rfl (Env.Over.find? henv hfind)
        (by simp [instantiate, hv, hfind, same_self]) (.guest (.inl ⟨_, occurs, hfind⟩)))

/-- Conditions may be noted. -/
lemma expands_pending {more : List Condition}
    (h : ∀ c ∈ more, c.binding.ResolvedOver w.nodes ∧ c.constraint.ResolvedOver w.nodes) :
    Expands registry (modifyResolver fun r => { r with pending := r.pending ++ more }) w
      fun w' _ => ∀ c ∈ more, w'.Noted c.binding c.constraint :=
  expands_step (K := w.nodes) (outcome_modifyResolver _ w.state)
    (fun ready => { World.Later.refl w ready.fresh with
      pending := List.prefix_append _ _ })
    (fun ready => { ready with
      resolver := ⟨ready.resolver.table, ready.resolver.distinct, ready.resolver.ordered,
        fun c hc => by
        rcases List.mem_append.1 hc with hc | hc
        · exact ready.resolver.pending c hc
        · exact h c hc⟩ })
    (fun _ => World.Completed.of_nodes fun _ h => h)
    fun _ c hc => ⟨c, List.mem_append_right _ hc, rfl, rfl⟩

lemma expands_predicate {env : Env} (henv : Env.Over w.nodes env) (scope : Option String)
    (m : Mark) {constraint body : TypeExpr} {c b : TypeExpr} (listed : List Binder)
    (hc : Result env scope constraint w c) (hb : Result env scope body w b) :
    Expands registry (predicate env scope m (quantified listed body) c b) w
      (Result env scope (.predicate m constraint body listed)) := by
  unfold predicate
  refine (expands_pending ?_).bind fun w₁ _ later conditions => ?_
  · intro x hx
    simp only [List.mem_filterMap, Option.map_eq_some_iff] at hx
    obtain ⟨v, -, t, ht, rfl⟩ := hx
    unfold binding? at ht
    split at ht
    · cases ht
    · exact ⟨Env.Over.find? henv ht, hc.resolved⟩
  · have noted : (TypeExpr.predicate m constraint body listed).Discharged w₁.Noted env scope := by
      refine discharged_predicate hc.same (fun v hv t ht => ?_)
        (hc.noted.mono fun _ _ => later.noted) (hb.noted.mono fun _ _ => later.noted)
      refine conditions ⟨t, c, v.var, m.position⟩ ?_
      simp only [List.mem_filterMap, Option.map_eq_some_iff]
      exact ⟨v, hv, t, ht, rfl⟩
    have hinst : (TypeExpr.predicate m constraint body listed).instantiate env scope =
        if (remaining env scope (quantified listed body)).isEmpty then body.instantiate env scope
        else .predicate m (constraint.instantiate env scope) (body.instantiate env scope)
          (remaining env scope (quantified listed body)) := by
      simp only [instantiate]
    by_cases hfree : (remaining env scope (quantified listed body)).isEmpty
    · rw [if_pos hfree] at hinst
      simp only [remaining] at hfree
      simp only [hfree, if_true]
      exact expands_pure ⟨(hb.later later).resolved, by rw [hinst]; exact hb.same, noted,
        (hb.later later).home.mono fun _ => Guest.of_part (by simp [parts])⟩
    · rw [if_neg hfree] at hinst
      simp only [remaining] at hfree
      simp only [hfree, Bool.false_eq_true, if_false]
      refine (expands_remark m).bind fun _ _ later' _ => expands_pure
        ⟨?_, ?_, noted.mono fun _ _ => later'.noted, .of_parts rfl ?_⟩
      · refine throughout_iff.2 ⟨trivial, ?_⟩
        simp only [parts, List.forall_mem_cons]
        exact ⟨(hc.later (later.trans later')).resolved,
          (hb.later (later.trans later')).resolved, by simp⟩
      · rw [hinst]
        exact alike_iff.1 (.predicate hc.same hb.same rfl)
      · simp only [parts, List.forall_mem_cons]
        exact ⟨⟨constraint, by simp, (hc.later (later.trans later')).home⟩,
          ⟨body, by simp, (hb.later (later.trans later')).home⟩, by simp⟩

/-! ## Suspensions -/

lemma targetBindings_over {env : Env} {K : Nodes} (henv : Env.Over K env) (target : TypeExpr) :
    ∀ b ∈ targetBindings env target, b.type.ResolvedOver K := by
  intro b hb
  simp only [targetBindings, List.mem_filterMap, Option.map_eq_some_iff] at hb
  obtain ⟨letter, -, t, ht, rfl⟩ := hb
  exact Env.Over.find? henv ht

lemma expands_suspend {env : Env} (henv : Env.Over w.nodes env) (scope : Option String)
    {target : TypeExpr} (htarget : target.Over w.nodes) :
    Expands registry (suspend env scope target) w fun w' t =>
      t.ResolvedOver w'.nodes ∧ t.same (suspended env target) = true ∧
        ∀ guest, t.Home w'.state.store scope guest := by
  refine expands_step
    (K := w.nodes.insert (.deferred ⟨none, w.next⟩ target (targetBindings env target)))
    (outcome_suspend env scope target w.state) (fun ready => ?_) (fun ready => ?_)
    (fun ready => ?_) fun ready => ⟨resolvedOver_deferred.2 (.inr rfl), ?_, fun _ => ?_⟩
  · exact {
      nodes := .inl
      made := fun h => h.imp id fun h => by
        subst h
        exact ⟨Nat.le_refl _, fun ⟨_, _, _, h⟩ => by cases h⟩
      next := Nat.le_succ _
      bodies := fun _ => rfl
      results := rfl
      suspensions := fun h => by
        simp [withSuspension, Std.HashMap.getElem?_insert, Nat.ne_of_gt h]
      resolvers := fun h => by
        simp [withSuspension, Std.HashMap.getElem?_insert, Nat.ne_of_gt h]
      idle := fun {n r} hn hr => by
        simp only [withSuspension, Std.HashMap.getElem?_insert, beq_iff_eq] at hr
        split at hr
        · cases hr
          exact ⟨rfl, rfl⟩
        · rw [ready.fresh.resolvers hn] at hr
          cases hr
      table := List.prefix_rfl
      pending := List.prefix_rfl
      maxSteps := rfl
      maxDepth := rfl }
  · have wired : Wired registry w.nodes
        (withSuspension w.state.store w.state.resolver ⟨target, env, scope⟩) :=
      ready.wired.later (Nat.le_succ _) (fun _ _ => rfl) (fun _ _ => rfl) fun n hn => by
        simp [withSuspension, Std.HashMap.getElem?_insert, Nat.ne_of_gt hn]
    exact {
      wired := wired.addDeferred (x := ⟨target, env, scope⟩) (Nat.lt_succ_self _) htarget
        (targetBindings_over henv target) (by simp [withSuspension]) henv
        (ready.fresh.results (Nat.le_refl _))
      fresh := ⟨fun h => ready.fresh.bodies (Nat.le_of_succ_le h),
        fun h => ready.fresh.results (Nat.le_of_succ_le h), fun {n} h => by
          have : w.state.store.nextStamp ≠ n := Nat.ne_of_lt h
          simpa [withSuspension, Std.HashMap.getElem?_insert, this] using
            ready.fresh.resolvers (Nat.le_of_succ_le h)⟩
      resolver := ready.resolver.mono fun _ => .inl
      registry := ready.registry.mono fun _ => .inl }
  · rintro m name args (h | h) hnot
    · exact absurd h hnot
    · cases h
  · exact alike_iff.1 (.deferred (same_self _)
      (matchAll_sameField (List.forall₂_same.2 fun f _ => ⟨rfl, same_self _⟩)))
  · exact .deferred (Nat.lt_succ_self _) (by simp [withSuspension])

/-! ## References -/

/-- An opening that does what expansion should do. -/
def Opens (registry : Registry) (opening : Opening) : Prop :=
  ∀ (w : World) (t : TypeExpr) (env : Env) (scope : Option String), t.Over w.nodes →
    Env.Over w.nodes env → Expands registry (opening t env scope) w (Result env scope t)

lemma expands_enter {m : Mark} {d : Declaration} {args : List TypeExpr}
    (hd : registry.lookup d.name = some d) (arity : args.length = d.arity)
    (hargs : ∀ a ∈ args, a.ResolvedOver w.nodes) (ready : w.Ready registry)
    (unknown : known? registry w.state (.named m d.name args) = none) :
    let node := TypeExpr.named ⟨m.position, w.next⟩ d.name args
    let w' : World := ⟨w.nodes.insert node, enter w.state node⟩
    w.Later w' ∧ w'.Ready registry := by
  intro node w'
  refine ⟨{
    nodes := .inl
    made := fun h => h.imp id fun h => ?_
    next := Nat.le_succ _
    bodies := fun _ => rfl
    results := rfl
    suspensions := fun _ => rfl
    resolvers := fun _ => rfl
    idle := fun hn hr => ?_
    table := List.prefix_append _ _
    pending := List.prefix_rfl
    maxSteps := rfl
    maxDepth := rfl }, ?_⟩
  · subst h
    exact ⟨Nat.le_refl _, fun _ => by simp [w', enter]⟩
  · have hr : w.state.store.resolvers[_]? = some _ := hr
    rw [ready.fresh.resolvers hn] at hr
    cases hr
  · have wired : Wired registry w.nodes w'.state.store :=
      ready.wired.later (Nat.le_succ _) (fun _ _ => rfl) (fun _ _ => rfl) fun _ _ => rfl
    exact {
      wired := wired.addNamed (Nat.lt_succ_self _) hargs hd arity
        (ready.fresh.bodies (Nat.le_refl _))
      fresh := ⟨fun h => ready.fresh.bodies (Nat.le_of_succ_le h),
        fun h => ready.fresh.results (Nat.le_of_succ_le h),
        fun h => ready.fresh.resolvers (Nat.le_of_succ_le h)⟩
      resolver := {
        table := fun t ht => by
          rcases List.mem_append.1 ht with ht | ht
          · exact ⟨.inl (ready.resolver.table t ht).1, (ready.resolver.table t ht).2⟩
          · rw [List.mem_singleton] at ht
            exact ⟨.inr ht, _, _, _, ht⟩
        distinct := by
          refine List.pairwise_append.2 ⟨ready.resolver.distinct, by simp, fun t ht u hu => ?_⟩
          rw [List.mem_singleton] at hu
          subst hu
          have equal : node.same (.named m d.name args) = true :=
            alike_iff.1 (.named (eachSame_self args))
          rw [same_comm, same_congr equal, same_comm]
          have hnone : w.state.resolver.expanded.find? (·.same (.named m d.name args)) = none := by
            unfold known? at unknown
            cases hfind : w.state.resolver.expanded.find? (·.same (.named m d.name args)) with
            | none => rfl
            | some u => simp [hfind] at unknown
          simpa using List.find?_eq_none.1 hnone t ht
        ordered := by
          refine List.pairwise_append.2 ⟨ready.resolver.ordered, by simp, fun t ht u hu => ?_⟩
          rw [List.mem_singleton] at hu
          subst hu
          exact (ready.wired.placed (ready.resolver.table t ht).1).2
        pending := (ready.resolver.mono fun _ => .inl).pending }
      registry := ready.registry.mono fun _ => .inl }

/-- What is found is a node that equals the wanted one. -/
lemma known?_spec (ready : w.Ready registry) {wanted t : TypeExpr}
    (h : known? registry w.state wanted = some t) :
    w.nodes t ∧ (∃ m name args, t = .named m name args) ∧ t.same wanted = true := by
  unfold known? at h
  cases hfind : w.state.resolver.expanded.find? (·.same wanted) with
  | some u =>
    simp only [hfind, Option.orElse_some, Option.some.injEq] at h
    subst h
    have hmem := List.mem_of_find?_eq_some hfind
    exact ⟨(ready.resolver.table u hmem).1, (ready.resolver.table u hmem).2, by
      simpa using List.find?_some hfind⟩
  | none =>
    simp only [hfind, Option.orElse_none, Registry.memoized] at h
    have hmem := List.mem_of_find?_eq_some h
    exact ⟨(ready.registry.memo t hmem).1, (ready.registry.memo t hmem).2, by
      simpa using List.find?_some h⟩

/-- The world after the body of a new node has been set. -/
lemma complete_body {m : Mark} {d : Declaration} {args : List TypeExpr} {w₁ w₂ : World}
    {body : TypeExpr} (ready : w.Ready registry) (hd : registry.lookup d.name = some d)
    (hnodes : w₁.nodes = w.nodes.insert (.named ⟨m.position, w.next⟩ d.name args))
    (hstate : w₁.state = enter w.state (.named ⟨m.position, w.next⟩ d.name args))
    (later₁ : w.Later w₁) (later₂ : w₁.Later w₂) (ready₂ : w₂.Ready registry)
    (completed : w₁.Completed registry w₂)
      (hbody : Result (d.binding args) (some d.name) d.body w₂ body) :
    let w' : World := ⟨w₂.nodes, { w₂.state with store := { w₂.state.store with
      heap := w₂.state.store.heap.setBody w.next body } }⟩
    w.Later w' ∧ w'.Ready registry ∧ w.Completed registry w' := by
  intro w'
  have hnext : w₁.next = w.next + 1 := by simp [World.next, hstate, enter]
  have other : ∀ n, n ≠ w.next → w'.body? n = w₂.body? n := fun n hn => by
    simp [w', World.body?, Heap.body?, Heap.setBody, Std.HashMap.getElem?_insert, hn.symm]
  -- every other node of the set is older than the new one, or younger
  have only : ∀ {m' name' args'}, w₂.nodes (.named m' name' args') → m'.stamp = w.next →
      name' = d.name ∧ args' = args := by
    intro m' name' args' hn hstamp
    rcases later₂.made hn with hn | ⟨hlt, -⟩
    · rw [hnodes] at hn
      rcases hn with hn | heq
      · have := (ready.wired.placed hn).2
        simp only [stamp, mark, hstamp] at this
        exact absurd this (Nat.lt_irrefl _)
      · simp only [named.injEq] at heq
        exact heq.2
    · simp only [stamp, mark, hstamp, hnext] at hlt
      omega
  have later := later₁.trans later₂
  refine ⟨?_, ?_, ?_⟩
  · exact { later with
      bodies := fun hn => by rw [other _ (Nat.ne_of_lt hn)]; exact later.bodies hn
      results := later.results }
  · exact { ready₂ with
      wired := ready₂.wired.setBody hbody.resolved fun hn hstamp hd' => by
        obtain ⟨rfl, rfl⟩ := only hn hstamp
        rw [hd] at hd'
        cases hd'
        exact ⟨hbody.same, hbody.home⟩
      fresh := ⟨fun {n} hn => by
          have hlt : w.next < n := by
            have := later₂.next
            have hn : w₂.next ≤ n := hn
            omega
          have := other n (Nat.ne_of_gt hlt)
          rw [World.body?, World.body?, ready₂.fresh.bodies hn] at this
          exact this,
        ready₂.fresh.results, ready₂.fresh.resolvers⟩ }
  · intro m' name' args' hn hnot
    by_cases hstamp : m'.stamp = w.next
    · refine ⟨by simp [w', World.body?, Heap.body?, Heap.setBody, hstamp], fun d' hd' => ?_⟩
      obtain ⟨rfl, rfl⟩ := only hn hstamp
      rw [hd] at hd'
      cases hd'
      exact hbody.noted
    · rw [other _ hstamp]
      refine completed hn fun h => ?_
      rw [hnodes] at h
      rcases h with h | heq
      · exact hnot h
      · simp only [named.injEq] at heq
        exact hstamp (by rw [heq.1])

lemma expands_reference {opening : Option Opening} (hopen : ∀ o ∈ opening, Opens registry o)
    (depth : Nat) (m : Mark) {d : Declaration} {args : List TypeExpr}
    (hd : registry.lookup d.name = some d) (arity : args.length = d.arity)
    (hargs : ∀ a ∈ args, a.ResolvedOver w.nodes) :
    Expands registry (reference registry depth opening m d args) w fun w' u =>
      u.ResolvedOver w'.nodes ∧ u.same (.named m d.name args) = true := by
  intro ready
  simp only [outcome_reference]
  cases hknown : known? registry w.state (.named m d.name args) with
  | some t =>
    obtain ⟨hnode, -, hsame⟩ := known?_spec ready hknown
    exact ⟨w.nodes, .refl w ready.fresh, ready, World.Completed.of_nodes fun _ h => h,
      ready.wired.node hnode, hsame⟩
  | none =>
    have counted_ready : w.Later ⟨w.nodes, counted w.state⟩ ∧
        World.Ready registry ⟨w.nodes, counted w.state⟩ :=
      ⟨{ World.Later.refl w ready.fresh with },
        { ready with
          resolver := ⟨ready.resolver.table, ready.resolver.distinct, ready.resolver.ordered,
            ready.resolver.pending⟩ }⟩
    cases opening with
    | none => exact ⟨w.nodes, counted_ready.1, counted_ready.2, .refused _, id⟩
    | some expandBody =>
      by_cases hlimit : w.state.resolver.maxSteps < w.state.resolver.steps + 1
      · simp only [hlimit, if_true]
        exact ⟨w.nodes, counted_ready.1, counted_ready.2, .refused _, id⟩
      · simp only [hlimit, if_false]
        obtain ⟨later₁, ready₁⟩ := expands_enter (m := m) hd arity hargs ready hknown
        have hbody : d.body.Over w.nodes :=
          ready.registry.declarations d (List.mem_of_find?_eq_some hd)
        have henv : Env.Over w.nodes (d.binding args) :=
          fun _ hf => hargs _ (d.type_mem_of_mem_binding hf)
        obtain ⟨nodes, later₂, ready₂, hout⟩ := hopen expandBody rfl _ d.body (d.binding args)
          (some d.name) (hbody.mono fun _ => .inl) (fun f hf => (henv f hf).mono fun _ => .inl)
          ready₁
        rcases hrun : outcome (expandBody d.body (d.binding args) (some d.name))
          (enter w.state (.named ⟨m.position, w.next⟩ d.name args)) with ⟨fault | body, e'⟩
        · simp only [hrun] at later₂ ready₂ hout ⊢
          exact ⟨nodes, later₁.trans later₂, ready₂, hout⟩
        · simp only [hrun] at later₂ ready₂ hout ⊢
          obtain ⟨later, ready', completed⟩ := complete_body (m := m) ready hd rfl rfl later₁
            later₂ ready₂ hout.1 hout.2
          refine ⟨nodes, later, ready', completed, ?_, ?_⟩
          · exact ready'.wired.node (later₂.nodes (.inr rfl))
          · exact alike_iff.1 (.named (eachSame_self args))

/-! ## Types -/

lemma expands_declarationOf (m : Mark) (name : String) (given : Nat) :
    Expands registry (declarationOf registry m name given) w fun _ d =>
      registry.lookup name = some d ∧ d.name = name ∧ given = d.arity := by
  unfold declarationOf
  cases hd : registry.lookup name with
  | none => exact expands_refuse _ id
  | some d =>
    by_cases harity : given = d.arity
    · simp only [harity, if_true]
      exact expands_pure ⟨rfl, by simpa using List.find?_some hd, rfl⟩
    · simp only [harity, if_false]
      exact expands_refuse _ id

section Lists

variable {depth : Nat} {opening : Option Opening} {env : Env} {scope : Option String}

/-- The expansion of a type in all worlds later than one. -/
def ExpandsLater (registry : Registry) (x : TypeExpr → Expansion TypeExpr) (w : World) (env : Env)
    (scope : Option String) (t : TypeExpr) : Prop :=
  ∀ w', w.Later w' → Expands registry (x t) w' (Result env scope t)

/-- Each of some types is at home where one of some other types was expanded. -/
def EachHome (env : Env) (scope : Option String) (w : World) (ts us : List TypeExpr) : Prop :=
  ∀ u ∈ us, ∃ t ∈ ts, u.Home w.state.store scope (t.Guest env)

lemma EachHome.later {ts us : List TypeExpr} (later : World.Later w w')
    (h : EachHome env scope w ts us) : EachHome env scope w' ts us := fun u hu => by
  obtain ⟨t, ht, home⟩ := h u hu
  exact ⟨t, ht, home.later later.next fun _ => later.suspensions⟩

lemma expands_all {x : TypeExpr → Expansion TypeExpr} {ts : List TypeExpr}
    (h : ∀ t ∈ ts, ExpandsLater registry x w env scope t) :
    Expands registry (ts.mapM x) w fun w' us => (∀ u ∈ us, u.ResolvedOver w'.nodes) ∧
      EachSame us (ts.map (instantiate env scope)) ∧ (∀ t ∈ ts, t.Discharged w'.Noted env scope) ∧
      EachHome env scope w' ts us := by
  refine (expands_mapM (P := fun w' t u => Result env scope t w' u)
    (fun _ _ _ _ later h => h.later later)
    h).mono fun w' us _ hus => ⟨?_, ?_, ?_, ?_⟩
  · intro u hu
    obtain ⟨t, -, ht⟩ := forall₂_exists_left hus u hu
    exact ht.resolved
  · exact List.forall₂_map_right_iff.2 (hus.flip.imp fun _ _ h => h.same)
  · intro t ht
    obtain ⟨u, -, hu⟩ := forall₂_exists_left hus.flip t ht
    exact hu.noted
  · intro u hu
    obtain ⟨t, ht, h⟩ := forall₂_exists_left hus u hu
    exact ⟨t, ht, h.home⟩

lemma expands_fields {x : TypeExpr → Expansion TypeExpr} {fs : List (Field TypeExpr)}
    (h : ∀ f ∈ fs, ExpandsLater registry x w env scope f.type) :
    Expands registry (fs.mapM fun f => do return (⟨f.name, ← x f.type⟩ : Field TypeExpr)) w
      fun w' gs => (∀ g ∈ gs, g.type.ResolvedOver w'.nodes) ∧
        matchAll sameField gs (instantiateFields env scope fs) = true ∧
        (∀ f ∈ fs, f.type.Discharged w'.Noted env scope) ∧
        EachHome env scope w' (fs.map (·.type)) (gs.map (·.type)) := by
  refine (expands_mapM (P := fun w' (f g : Field TypeExpr) => g.name = f.name ∧
    Result env scope f.type w' g.type)
    (fun _ _ _ _ later h => ⟨h.1, h.2.later later⟩) fun f hf w' later => ?_).mono
      fun w' gs _ hgs => ⟨?_, ?_, ?_, ?_⟩
  · exact (h f hf w' later).bind fun _ u _ hu => expands_pure ⟨rfl, hu⟩
  · intro g hg
    obtain ⟨f, -, hf⟩ := forall₂_exists_left hgs g hg
    exact hf.2.resolved
  · rw [instantiateFields_eq]
    refine matchAll_sameField (List.forall₂_map_right_iff.2 (hgs.flip.imp fun _ _ h => ?_))
    exact ⟨h.1, h.2.same⟩
  · intro f hf
    obtain ⟨g, -, hg⟩ := forall₂_exists_left hgs.flip f hf
    exact hg.2.noted
  · refine List.forall_mem_map.2 fun g hg => ?_
    obtain ⟨f, hf, h⟩ := forall₂_exists_left hgs g hg
    exact ⟨f.type, List.mem_map_of_mem hf, h.2.home⟩

lemma expands_inputs {x : TypeExpr → Expansion TypeExpr} {ps : List (Parameter TypeExpr)}
    (h : ∀ p ∈ ps, ExpandsLater registry x w env scope p.type) :
    Expands registry
      (ps.mapM fun p => do return (⟨← x p.type, p.suffix, p.position⟩ : Parameter TypeExpr)) w
      fun w' qs => (∀ q ∈ qs, q.type.ResolvedOver w'.nodes) ∧
        List.Forall₂ (fun q p => q.type.same p.type = true ∧ q.suffix = p.suffix) qs
          (instantiateInputs env scope ps) ∧
        (∀ p ∈ ps, p.type.Discharged w'.Noted env scope) ∧
        EachHome env scope w' (ps.map (·.type)) (qs.map (·.type)) := by
  refine (expands_mapM (P := fun w' (p q : Parameter TypeExpr) => q.suffix = p.suffix ∧
    Result env scope p.type w' q.type)
    (fun _ _ _ _ later h => ⟨h.1, h.2.later later⟩) fun p hp w' later => ?_).mono
      fun w' qs _ hqs => ⟨?_, ?_, ?_, ?_⟩
  · exact (h p hp w' later).bind fun _ u _ hu => expands_pure ⟨rfl, hu⟩
  · intro q hq
    obtain ⟨p, -, hp⟩ := forall₂_exists_left hqs q hq
    exact hp.2.resolved
  · rw [instantiateInputs_eq]
    exact List.forall₂_map_right_iff.2 (hqs.flip.imp fun _ _ h => ⟨h.2.same, h.1⟩)
  · intro p hp
    obtain ⟨q, -, hq⟩ := forall₂_exists_left hqs.flip p hp
    exact hq.2.noted
  · refine List.forall_mem_map.2 fun q hq => ?_
    obtain ⟨p, hp, h⟩ := forall₂_exists_left hqs q hq
    exact ⟨p.type, List.mem_map_of_mem hp, h.2.home⟩

lemma expands_tags {x : TypeExpr → Expansion TypeExpr} {gs : List (Tag TypeExpr)}
    (h : ∀ g ∈ gs, ∀ t ∈ g.fields, ExpandsLater registry x w env scope t) :
    Expands registry (gs.mapM fun g => do return (⟨g.name, ← g.fields.mapM x⟩ : Tag TypeExpr)) w
      fun w' hs => (∀ h ∈ hs, ∀ u ∈ h.fields, u.ResolvedOver w'.nodes) ∧
        List.Forall₂ (fun h g => h.name = g.name ∧ EachSame h.fields g.fields) hs
          (instantiateTags env scope gs) ∧
        (∀ g ∈ gs, ∀ t ∈ g.fields, t.Discharged w'.Noted env scope) ∧
        EachHome env scope w' (gs.flatMap (·.fields)) (hs.flatMap (·.fields)) := by
  refine (expands_mapM (P := fun w' (g h : Tag TypeExpr) => h.name = g.name ∧
      (∀ u ∈ h.fields, u.ResolvedOver w'.nodes) ∧
        EachSame h.fields (g.fields.map (instantiate env scope)) ∧
        (∀ t ∈ g.fields, t.Discharged w'.Noted env scope) ∧ EachHome env scope w' g.fields h.fields)
    (fun _ _ _ _ later h => ⟨h.1, fun u hu => (h.2.1 u hu).mono fun _ => later.nodes, h.2.2.1,
      fun t ht => (h.2.2.2.1 t ht).mono fun _ _ => later.noted, h.2.2.2.2.later later⟩)
      fun g hg w' later => ?_).mono fun w' hs _ hhs => ⟨?_, ?_, ?_, ?_⟩
  · exact (expands_all fun t ht w'' later' => h g hg t ht w'' (later.trans later')).bind
      fun _ us _ hus => expands_pure ⟨rfl, hus⟩
  · intro k hk
    obtain ⟨g, -, hg⟩ := forall₂_exists_left hhs k hk
    exact hg.2.1
  · rw [instantiateTags_eq]
    exact List.forall₂_map_right_iff.2 (hhs.flip.imp fun _ _ h => ⟨h.1, h.2.2.1⟩)
  · intro g hg
    obtain ⟨k, -, hk⟩ := forall₂_exists_left hhs.flip g hg
    exact hk.2.2.2.1
  · intro u hu
    obtain ⟨k, hk, hu⟩ := List.mem_flatMap.1 hu
    obtain ⟨g, hg, h⟩ := forall₂_exists_left hhs k hk
    obtain ⟨t, ht, home⟩ := h.2.2.2.2 u hu
    exact ⟨t, List.mem_flatMap.2 ⟨g, hg, ht⟩, home⟩

lemma expands_targets {targets : List TypeExpr} (htargets : ∀ t ∈ targets, t.Over w.nodes)
    (henv : Env.Over w.nodes env) :
    Expands registry (targets.mapM (suspend env scope)) w fun w' us =>
      (∀ u ∈ us, u.ResolvedOver w'.nodes) ∧ EachSame us (targets.map (suspended env)) ∧
        EachHome env scope w' targets us := by
  refine (expands_mapM (P := fun w' (t u : TypeExpr) => u.ResolvedOver w'.nodes ∧
      u.same (suspended env t) = true ∧ ∀ guest, u.Home w'.state.store scope guest)
    (fun _ _ _ _ later h => ⟨h.1.mono fun _ => later.nodes, h.2.1, fun guest =>
      (h.2.2 guest).later later.next fun _ => later.suspensions⟩) fun t ht w' later => ?_).mono
      fun w' us _ hus => ⟨?_, ?_, ?_⟩
  · exact expands_suspend (fun f hf => (henv f hf).mono fun _ => later.nodes) scope
      ((htargets t ht).mono fun _ => later.nodes)
  · intro u hu
    obtain ⟨t, -, ht⟩ := forall₂_exists_left hus u hu
    exact ht.1
  · exact List.forall₂_map_right_iff.2 (hus.flip.imp fun _ _ h => h.2.1)
  · intro u hu
    obtain ⟨t, hmem, ht⟩ := forall₂_exists_left hus u hu
    exact ⟨t, hmem, ht.2.2 _⟩

end Lists

/-- Expansion gives a resolved instance of a type. -/
lemma expands_expandIn {opening : Option Opening} (hopen : ∀ o ∈ opening, Opens registry o)
    (depth : Nat) (scope : Option String) {env : Env} {t : TypeExpr} (ht : t.Over w.nodes)
    (henv : Env.Over w.nodes env) :
    Expands registry (expandIn registry depth opening env scope t) w (Result env scope t) := by
  induction t using parts_induction generalizing w with
  | step t ih =>
    have sub : ∀ u ∈ t.parts, ExpandsLater registry (expandIn registry depth opening env scope) w
        env scope u := fun u hu w' later =>
      ih u hu (Over.mono (fun _ => later.nodes) (ht.part hu)) fun f hf =>
        (henv f hf).mono fun _ => later.nodes
    cases t with
    | number x =>
      simp only [expandIn]
      exact (expands_numeral x).bind fun _ y _ hy => expands_pure
        (.leaf (by simp) rfl (resolvedOver_number hy.2) (by simp [instantiate, hy.1, same_self])
          (home_number y))
    | interval m low high =>
      simp only [expandIn]
      refine (expands_interval m low high).mono fun _ _ _ h => .leaf (by simp) rfl h.1 h.2 ?_
      cases alike_iff.2 h.2
      exact .node rfl (by simp [parts, home_number])
    | unit m =>
      simp only [expandIn]
      exact expands_pure
        (.leaf (by simp) rfl (throughout_iff.2 ⟨trivial, by simp [parts]⟩) (same_self _)
          (.node rfl (by simp [parts])))
    | primitive m name =>
      simp only [expandIn]
      exact expands_pure
        (.leaf (by simp) rfl (throughout_iff.2 ⟨ht.self, by simp [parts]⟩) (same_self _)
          (.node rfl (by simp [parts])))
    | tuple m items =>
      simp only [expandIn, expandAll_eq]
      refine (expands_all sub).bind fun _ us _ hus => (expands_remark m).bind
        fun _ _ later' _ => expands_pure ⟨throughout_iff.2 ⟨trivial, fun u hu => ?_⟩, ?_, ?_, ?_⟩
      · exact (hus.1 u hu).mono fun _ => later'.nodes
      · simp only [instantiate, instantiateAll_eq]
        exact alike_iff.1 (.tuple hus.2.1)
      · exact discharged_of_parts (by simp) fun u hu =>
          (hus.2.2.1 u hu).mono fun _ _ => later'.noted
      · exact .of_parts rfl (hus.2.2.2.later later')
    | list m members =>
      simp only [expandIn, expandAll_eq]
      refine (expands_all sub).bind fun _ us _ hus => (expands_remark m).bind
        fun _ _ later' _ => expands_pure ⟨throughout_iff.2 ⟨trivial, fun u hu => ?_⟩, ?_, ?_, ?_⟩
      · exact (hus.1 u (withoutRepeats_subset us hu)).mono fun _ => later'.nodes
      · simp only [instantiate, instantiateAll_eq]
        exact listOf_congr hus.2.1
      · exact discharged_of_parts (by simp) fun u hu =>
          (hus.2.2.1 u hu).mono fun _ _ => later'.noted
      · exact .of_parts rfl fun u hu => hus.2.2.2.later later' u (withoutRepeats_subset us hu)
    | record m fields =>
      simp only [parts, List.forall_mem_map] at sub
      simp only [expandIn, expandFields_eq]
      refine (expands_fields sub).bind fun _ fs _ hfs => (expands_remark m).bind
        fun _ _ later' _ => expands_pure
          ⟨throughout_iff.2 ⟨trivial, ?_⟩, ?_, ?_, .of_parts rfl (hfs.2.2.2.later later')⟩
      · simp only [parts, List.forall_mem_map]
        exact fun f hf => (hfs.1 f hf).mono fun _ => later'.nodes
      · simp only [instantiate]
        exact alike_iff.1 (.record hfs.2.1)
      · refine discharged_of_parts (by simp) ?_
        simp only [expandedParts, parts, List.forall_mem_map]
        exact fun f hf => (hfs.2.2.1 f hf).mono fun _ _ => later'.noted
    | function m inputs outputs =>
      simp only [parts, List.forall_mem_append, List.forall_mem_map] at sub
      simp only [expandIn, expandInputs_eq, expandAll_eq]
      refine (expands_inputs sub.1).bind fun _ ps later hps => (expands_all fun t ht w' later' =>
        sub.2 t ht w' (later.trans later')).bind fun _ us later' hus => (expands_remark m).bind
        fun _ _ later'' _ => expands_pure ⟨throughout_iff.2 ⟨trivial, ?_⟩, ?_, ?_, ?_⟩
      · simp only [parts, List.forall_mem_append, List.forall_mem_map]
        exact ⟨fun p hp => (hps.1 p hp).mono fun _ hn => later''.nodes (later'.nodes hn),
          fun u hu => (hus.1 u hu).mono fun _ => later''.nodes⟩
      · simp only [instantiate, instantiateAll_eq]
        exact alike_iff.1 (.function hps.2.1 hus.2.1)
      · refine discharged_of_parts (by simp) ?_
        simp only [expandedParts, parts, List.forall_mem_append, List.forall_mem_map]
        exact ⟨fun p hp => (hps.2.2.1 p hp).mono fun _ _ hc => later''.noted (later'.noted hc),
          fun u hu => (hus.2.2.1 u hu).mono fun _ _ => later''.noted⟩
      · refine .of_parts rfl fun u hu => ?_
        rcases List.mem_append.1 hu with hu | hu
        · obtain ⟨q, hq, home⟩ := hps.2.2.2.later (later'.trans later'') u hu
          exact ⟨q, List.mem_append_left _ hq, home⟩
        · obtain ⟨q, hq, home⟩ := hus.2.2.2.later later'' u hu
          exact ⟨q, List.mem_append_right _ hq, home⟩
    | delegation m base targets =>
      simp only [parts, List.forall_mem_cons] at sub
      have hparts : ∀ u ∈ base :: targets, u.Over w.nodes := fun u hu => ht.part hu
      simp only [expandIn]
      refine .of_ready fun ready => (sub.1 w (.refl w ready.fresh)).bind fun _ b later hb =>
        (expands_targets (fun t hmem => (hparts t (List.mem_cons_of_mem _ hmem)).mono
          fun _ => later.nodes) fun f hf => (henv f hf).mono fun _ => later.nodes).bind
        fun _ us later' hus => (expands_remark m).bind
        fun _ _ later'' _ => expands_pure
          ⟨throughout_iff.2 ⟨trivial, ?_⟩, ?_, ?_, .of_parts rfl ?_⟩
      · simp only [parts, List.forall_mem_cons]
        exact ⟨hb.resolved.mono fun _ hn => later''.nodes (later'.nodes hn),
          fun u hu => (hus.1 u hu).mono fun _ => later''.nodes⟩
      · simp only [instantiate]
        exact alike_iff.1 (.delegation hb.same hus.2.1)
      · refine discharged_of_parts (by simp) (List.forall_mem_singleton.2 ?_)
        exact hb.noted.mono fun _ _ hc => later''.noted (later'.noted hc)
      · refine List.forall_mem_cons.2 ⟨⟨base, by simp [parts], ?_⟩, fun u hu => ?_⟩
        · exact (hb.later (later'.trans later'')).home
        · obtain ⟨q, hq, home⟩ := hus.2.2.later later'' u hu
          exact ⟨q, List.mem_cons_of_mem _ hq, home⟩
    | predicate m constraint body listed =>
      simp only [parts, List.forall_mem_cons] at sub
      simp only [expandIn]
      exact .of_ready fun ready => (sub.1 w (.refl w ready.fresh)).bind fun w₁ c later hc =>
        (sub.2.1 w₁ later).bind fun w₂ b later' hb => expands_predicate
          (fun f hf => (henv f hf).mono fun _ hn => later'.nodes (later.nodes hn)) scope m listed
          (hc.later later') hb
    | tagged m tags =>
      simp only [parts, List.mem_flatMap, forall_exists_index, and_imp] at sub
      simp only [expandIn, expandTags_eq]
      refine (expands_tags fun g hg t ht => sub t g hg ht).bind fun _ gs _ hgs =>
        (expands_remark m).bind fun _ _ later' _ =>
          expands_pure
            ⟨throughout_iff.2 ⟨trivial, ?_⟩, ?_, ?_, .of_parts rfl (hgs.2.2.2.later later')⟩
      · simp only [parts, List.mem_flatMap, forall_exists_index, and_imp]
        exact fun u g hg hu => (hgs.1 g hg u hu).mono fun _ => later'.nodes
      · simp only [instantiate]
        exact alike_iff.1 (.tagged hgs.2.1)
      · refine discharged_of_parts (by simp) ?_
        simp only [expandedParts, parts, List.mem_flatMap, forall_exists_index, and_imp]
        exact fun u g hg hu => (hgs.2.2.1 g hg u hu).mono fun _ _ => later'.noted
    | union m left right | complement m left right =>
      simp only [parts, List.forall_mem_cons] at sub
      simp only [expandIn]
      refine .of_ready fun ready => (sub.1 w (.refl w ready.fresh)).bind fun w₁ l later hl =>
        (sub.2.1 w₁ later).bind fun w₂ r later' hr => (expands_remark m).bind fun _ _ later'' _ =>
          expands_pure ⟨throughout_iff.2 ⟨trivial, ?_⟩, ?_, ?_, .of_parts rfl ?_⟩
      · simp only [parts, List.forall_mem_cons]
        exact ⟨(hl.later (later'.trans later'')).resolved, (hr.later later'').resolved, by simp⟩
      · simp only [instantiate]
        first
        | exact alike_iff.1 (.union hl.same hr.same)
        | exact alike_iff.1 (.complement hl.same hr.same)
      · refine discharged_of_parts (by simp) ?_
        simp only [expandedParts, parts, List.forall_mem_cons]
        exact ⟨(hl.later (later'.trans later'')).noted, (hr.later later'').noted, by simp⟩
      · refine List.forall_mem_cons.2 ⟨⟨left, by simp [parts], ?_⟩,
          List.forall_mem_singleton.2 ⟨right, by simp [parts], ?_⟩⟩
        · exact (hl.later (later'.trans later'')).home
        · exact (hr.later later'').home
    | reference m name args =>
      simp only [expandIn, expandAll_eq]
      refine (expands_declarationOf m name args.length).bind fun w₁ d later hd =>
        (expands_all fun t ht w' later' => sub t ht w' (later.trans later')).bind
          fun w₂ us later' hus => ?_
      obtain ⟨hlookup, rfl, harity⟩ := hd
      have hlength : us.length = d.arity := by
        rw [hus.2.1.length_eq, List.length_map]
        exact harity
      refine (expands_reference hopen depth m hlookup hlength hus.1).mono
        fun w' u later'' hu => ⟨hu.1, same_trans hu.2 ?_, ?_, ?_⟩
      · simp only [instantiate, instantiateAll_eq]
        exact alike_iff.1 (.named hus.2.1)
      · exact discharged_of_parts (by simp) fun u hu =>
          (hus.2.2.1 u hu).mono fun _ _ => later''.noted
      · cases alike_iff.2 hu.2
        exact .named _ _ _
    | typeVariable m v =>
      simp only [expandIn]
      exact expands_typeVariable henv scope m v
    | named m name args =>
      simp only [expandIn]
      exact .of_ready fun ready => expands_pure
        (.leaf (by simp) rfl (ready.wired.node ht.self) (by simp only [instantiate, same_self])
          (.guest (.inr ⟨rfl, mem_subterms_self _⟩)))
    | deferred m target bindings =>
      simp only [expandIn]
      exact .of_ready fun ready => expands_pure
        (.leaf (by simp) rfl (ready.wired.node ht.self) (by simp only [instantiate, same_self])
          (.guest (.inr ⟨rfl, mem_subterms_self _⟩)))

/-- Whatever room is left, expanding the body of a declaration opens it. -/
lemma opens_expandAt (registry : Registry) (room depth : Nat) :
    Opens registry fun t env scope => expandAt registry room depth env scope t := by
  induction room generalizing depth with
  | zero =>
    intro w t env scope ht henv
    exact expands_expandIn (by simp) depth scope ht henv
  | succ room ih =>
    intro w t env scope ht henv
    refine expands_expandIn (fun o ho => ?_) depth scope ht henv
    cases ho
    exact ih (depth + 1)

lemma expands_expand {env : Env} (scope : Option String) {t : TypeExpr} (ht : t.Over w.nodes)
    (henv : Env.Over w.nodes env) :
    Expands registry (expand registry env scope t) w (Result env scope t) :=
  expands_get.bind fun w' e _ h => by
    obtain ⟨rfl, rfl⟩ := h
    exact opens_expandAt registry _ 0 _ t env scope ht henv

end Expansion

end TypeNotation
