import Mathlib.Data.List.Nodup
import TypeNotation.Session
import TypeNotation.Proofs.Relation.Demand
import TypeNotation.Proofs.Resolution.Cycles
import TypeNotation.Proofs.Resolution.Expands

/-!
# Stages of a session

A *stage* is a session with the nodes that matter to it.  The nodes are *settled* once they have
passed the check for productivity; from then on they may be remembered, returned and asked about.
Until then they lie on the shelf of the resolver that has made them.  A resolver that is reused
after it failed halfway goes on with what is on its shelf.

Settled nodes are a closed set, and so are settled nodes together with those of any one shelf.
Settled nodes are grounded.  The named nodes on a shelf are all in the table of its resolver, so
that the check for productivity sees them.

When a resolution succeeds, all conditions that it noted have been checked.  So named nodes that are
settled on the way are *vouched* for: each condition that came up with their bodies was found to
hold on an earlier state of the store.  A resolution that fails has settled nodes too, and nobody
vouches for those.

Some resolvers belong to the client of the session.  They are set *aside* but for the one that is
active: no step uses them, so it does not matter what their tables hold.  The resolvers of suspended
nodes cannot be set aside, since any question may demand them.
-/

namespace TypeNotation

open TypeExpr

/-! ## Earlier stores -/

/-- One store is an earlier state of another: its nodes still have their bodies, and the same is
suspended at them.  Suspended nodes that had a result have an equal one. -/
structure Store.Precedes (s s' : Store) : Prop where
  next : s.nextStamp ≤ s'.nextStamp
  bodies : ∀ {n}, n < s.nextStamp → s'.heap.body? n = s.heap.body? n
  suspensions : ∀ {n}, n < s.nextStamp → s'.suspensions[n]? = s.suspensions[n]?
  results : ∀ {n r}, s.heap.result? n = some r →
    ∃ r', s'.heap.result? n = some r' ∧ r'.same r = true

namespace Store.Precedes

variable {s s' s'' : Store}

lemma refl (s : Store) : s.Precedes s :=
  ⟨Nat.le_refl _, fun _ => rfl, fun _ => rfl, fun hr => ⟨_, hr, same_self _⟩⟩

lemma trans (h : s.Precedes s') (h' : s'.Precedes s'') : s.Precedes s'' where
  next := Nat.le_trans h.next h'.next
  bodies hn := (h'.bodies (Nat.lt_of_lt_of_le hn h.next)).trans (h.bodies hn)
  suspensions hn := (h'.suspensions (Nat.lt_of_lt_of_le hn h.next)).trans (h.suspensions hn)
  results hr := by
    obtain ⟨r', hr', same⟩ := h.results hr
    obtain ⟨r'', hr'', same'⟩ := h'.results hr'
    exact ⟨r'', hr'', same_trans same' same⟩

/-- A change of the resolvers does not count. -/
lemma setResolver (s : Store) (key : Nat) (r : Resolver) : s.Precedes (s.setResolver key r) :=
  ⟨Nat.le_refl _, fun _ => rfl, fun _ => rfl, fun hr => ⟨_, hr, same_self _⟩⟩

end Store.Precedes

/-- A condition is found to hold on a store, where both of its types are built over a closed set of
nodes. -/
structure Store.Passes (s : Store) (registry : Registry) (K : Nodes)
    (binding constraint : TypeExpr) : Prop where
  wired : Wired registry K s
  bindingOver : binding.ResolvedOver K
  constraintOver : constraint.ResolvedOver K
  holds : (Matcher.mk s.heap true).isSubtype Action.depthBound binding constraint = .ok true

/-! ## Stages -/

/-- A session, its settled nodes, the nodes on the shelf of each resolver, the resolvers that belong
to the client, and the one among them that is active. -/
structure Stage where
  session : Session
  settled : Nodes
  shelf : Nat → Nodes
  own : Nat → Prop
  active : Option Nat

namespace Stage

/-- The store of a stage. -/
abbrev store (st : Stage) : Store := st.session.store

/-- The registry of a stage. -/
abbrev registry (st : Stage) : Registry := st.session.registry

/-- What a resolver builds on: settled nodes and those on its shelf. -/
def under (st : Stage) (key : Nat) : Nodes :=
  fun n => st.settled n ∨ st.shelf key n

/-- The resolvers that no step uses. -/
def aside (st : Stage) (key : Nat) : Prop :=
  st.own key ∧ st.active ≠ some key

/-- The invariant of sessions. -/
structure Sound (st : Stage) : Prop where
  fresh : st.store.Fresh
  known : st.registry.Over st.settled
  wired : Wired st.registry st.settled st.store
  shelved : ∀ key, Wired st.registry (st.under key) st.store
  grounded : ∀ {n}, st.settled n → st.store.heap.Grounded n
  resolvers : ∀ {key : Nat} {r : Resolver}, st.store.resolvers[key]? = some r →
    r.Over (st.under key)
  owned : ∀ {key : Nat} {n}, st.shelf key n → ∃ r : Resolver, st.store.resolvers[key]? = some r ∧
    ((∃ m name args, n = .named m name args) → n ∈ r.expanded)
  own : ∀ {key}, st.own key → key < st.store.nextStamp
  apart : ∀ {key n}, st.under key n → ¬ st.own n.stamp

/-- A later stage: nothing that was settled is lost, no declaration is forgotten, and what belongs
to older stamps is as it was.  Nodes that are settled or lie on a shelf are older ones of that kind,
or new. -/
structure Later (st st' : Stage) : Prop extends st.store.Precedes st'.store where
  settled : ∀ {n}, st.settled n → st'.settled n
  lookup : ∀ {name d}, st.registry.lookup name = some d → st'.registry.lookup name = some d
  made : ∀ {key n}, st'.under key n → (∃ k, st.under k n) ∨ st.store.nextStamp ≤ n.stamp

/-- A condition on a closed type has been checked before. -/
def Upholds (st : Stage) (binding constraint : TypeExpr) : Prop :=
  binding.isClosed → ∃ (s : Store) (K : Nodes), s.Precedes st.store ∧ (∀ n, K n → st.settled n) ∧
    s.Passes st.registry K binding constraint

/-- All conditions of the body of a named type have been checked. -/
def Vouched (st : Stage) (name : String) (args : List TypeExpr) : Prop :=
  ∀ d, st.registry.lookup name = some d →
    d.body.Discharged st.Upholds (d.binding args) (some name)

/-- Nothing lies on a shelf. -/
def Swept (st : Stage) : Prop :=
  ∀ key n, ¬ st.shelf key n

/-- Whatever lies on a shelf was made from a stamp on. -/
structure Since (st : Stage) (since : Nat) : Prop where
  next : since ≤ st.store.nextStamp
  shelf : ∀ {key n}, st.shelf key n → since ≤ n.stamp

/-- What success keeps: tables only grow, and shelves are only emptied.  If there was nothing on
them, then named nodes that have been settled are vouched for. -/
structure Kept (st st' : Stage) : Prop where
  tables : ∀ {key : Nat} {r : Resolver}, st.store.resolvers[key]? = some r →
    ∃ r' : Resolver, st'.store.resolvers[key]? = some r' ∧ r.expanded <+: r'.expanded
  shelf : ∀ {key n}, st'.shelf key n → st.shelf key n
  vouched : st.Swept → ∀ {m name args}, st'.settled (.named m name args) →
    ¬ st.settled (.named m name args) → st'.Vouched name args

/-- All settled named nodes have a body. -/
def Whole (st : Stage) : Prop :=
  ∀ m name args, st.settled (.named m name args) → (st.store.heap.body? m.stamp).isSome

/-- The table of a resolver has no unfinished node. -/
def TidyAt (st : Stage) (key : Nat) : Prop :=
  ∀ r : Resolver, st.store.resolvers[key]? = some r →
    ∀ t ∈ r.expanded, (st.store.heap.body? t.stamp).isSome

/-- No resolver that may be used has an unfinished node in its table. -/
def Tidy (st : Stage) : Prop :=
  ∀ key, ¬ st.aside key → st.TidyAt key

variable {st st' st'' : Stage}

lemma Later.refl (st : Stage) : st.Later st :=
  ⟨.refl _, fun h => h, fun h => h, fun h => .inl ⟨_, h⟩⟩

lemma Later.trans (h : st.Later st') (h' : st'.Later st'') : st.Later st'' where
  toPrecedes := h.toPrecedes.trans h'.toPrecedes
  settled hn := h'.settled (h.settled hn)
  lookup hd := h'.lookup (h.lookup hd)
  made hn := by
    rcases h'.made hn with ⟨k, hn⟩ | hn
    · exact h.made hn
    · exact .inr (Nat.le_trans h.next hn)

lemma Upholds.later (h : st.Later st') {binding constraint : TypeExpr}
    (hc : st.Upholds binding constraint) : st'.Upholds binding constraint := by
  intro closed
  obtain ⟨s, K, precedes, settled, passes⟩ := hc closed
  refine ⟨s, K, precedes.trans h.toPrecedes, fun n hn => h.settled (settled n hn), ?_⟩
  exact { passes with wired := passes.wired.registry_mono fun _ _ => h.lookup }

/-- Later one vouches for the same names, since what has been declared stays. -/
lemma Vouched.later (h : st.Later st') {name : String} {args : List TypeExpr} {d : Declaration}
    (hd : st.registry.lookup name = some d)
    (hv : st.Vouched name args) : st'.Vouched name args := by
  intro d' hd'
  rw [h.lookup hd] at hd'
  cases hd'
  exact (hv d hd).mono fun _ _ => .later h

/-- What is settled later is older, or new, if nothing lay on a shelf. -/
lemma Later.settled_or (h : st.Later st') (swept : st.Swept) {n : TypeExpr}
    (hn : st'.settled n) : st.settled n ∨ st.store.nextStamp ≤ n.stamp := by
  rcases h.made (.inl hn : st'.under 0 n) with ⟨k, hn | hn⟩ | hn
  · exact .inl hn
  · exact absurd hn (swept k n)
  · exact .inr hn

lemma Kept.swept (h : st.Kept st') (swept : st.Swept) : st'.Swept :=
  fun key n hn => swept key n (h.shelf hn)

lemma Since.zero (st : Stage) : st.Since 0 :=
  ⟨Nat.zero_le _, fun _ => Nat.zero_le _⟩

lemma Swept.since (swept : st.Swept) : st.Since st.store.nextStamp :=
  ⟨Nat.le_refl _, fun hn => absurd hn (swept _ _)⟩

lemma Kept.since (h : st.Kept st') (later : st.Later st') {since : Nat} (hs : st.Since since) :
    st'.Since since :=
  ⟨Nat.le_trans hs.next later.next, fun hn => hs.shelf (h.shelf hn)⟩

lemma Kept.refl (st : Stage) : st.Kept st :=
  ⟨fun h => ⟨_, h, List.prefix_rfl⟩, fun h => h, fun _ _ _ _ hn hnot => absurd hn hnot⟩

lemma Kept.trans (h : st.Kept st') (h' : st'.Kept st'') (sound : st'.Sound)
    (later : st'.Later st'') : st.Kept st'' where
  tables hr := by
    obtain ⟨r', hr', hpre⟩ := h.tables hr
    obtain ⟨r'', hr'', hpre'⟩ := h'.tables hr'
    exact ⟨r'', hr'', hpre.trans hpre'⟩
  shelf hn := h.shelf (h'.shelf hn)
  vouched swept m name args hn hnot := by
    by_cases hmid : st'.settled (.named m name args)
    · obtain ⟨d, hd, -⟩ := sound.wired.declared hmid
      exact (h.vouched swept hmid hnot).later later hd
    · exact h'.vouched (h.swept swept) hn hmid

/-! ## The check for productivity -/

section Check

variable {key : Nat}

lemma Sound.resolver (sound : st.Sound) (key : Nat) :
    (st.store.resolver key).Over (st.under key) := by
  unfold Store.resolver
  cases hr : st.store.resolvers[key]? with
  | some r => exact sound.resolvers hr
  | none => constructor <;> simp [Resolver.fresh, Resolver.ofBudget]

/-- The named nodes on the shelf of a resolver are in its table. -/
lemma Sound.mem_table (sound : st.Sound) {n : TypeExpr} (hn : st.shelf key n)
    (named : ∃ m name args, n = .named m name args) : n ∈ (st.store.resolver key).expanded := by
  obtain ⟨r, hr, hmem⟩ := sound.owned hn
  simpa only [Store.resolver, hr, Option.getD_some] using hmem named

/-- What is under a resolver and not grounded lies on its shelf. -/
lemma Sound.shelf_of_not_grounded (sound : st.Sound) {n : TypeExpr} (hn : st.under key n)
    (loose : ¬ st.store.heap.Grounded n) : st.shelf key n :=
  hn.resolve_left fun settled => loose (sound.grounded settled)

/-- If the check succeeds, then everything under the resolver is grounded. -/
lemma Sound.grounded_of_check (sound : st.Sound)
    (hcheck : st.store.heap.checkProductive (st.store.resolver key).expanded = .ok ())
    {n : TypeExpr} (hn : st.under key n) : st.store.heap.Grounded n := by
  have href := ((sound.shelved key).placed hn).1
  cases n <;> simp only [isReferring, Bool.false_eq_true] at href
  · by_contra loose
    exact loose (Heap.grounded_of_checkProductive hcheck _
      (sound.mem_table (sound.shelf_of_not_grounded hn loose) ⟨_, _, _, rfl⟩))
  · exact ⟨1, by simp [Heap.Within, Heap.unguarded]⟩

/-- If the check fails, then it has found a cycle of nodes that lie on the shelf of the resolver. -/
lemma Sound.cycle_of_check (sound : st.Sound) {e : ResolutionError}
    (hcheck : st.store.heap.checkProductive (st.store.resolver key).expanded = .error e) :
    ∃ n rest position, st.store.heap.Cycle n rest ∧ e = .cyclic (reported n rest) position ∧
      ∀ t ∈ n :: rest, t ∈ (st.store.resolver key).expanded ∧ st.shelf key t := by
  have wired := sound.shelved key
  obtain ⟨n, rest, t, position, chain, hstamp, hnamed, under, rfl⟩ :=
    Heap.returns_of_checkProductive (fun _ ht _ => wired.unguarded ht)
      (fun t ht => wired.node ((sound.resolver key).table t ht).1) hcheck
  have named := Heap.exists_named_of_mem_chain chain
  have loose := Heap.not_grounded_of_return chain hstamp hnamed
  have found : ∀ x ∈ n :: rest ++ [t],
      x ∈ (st.store.resolver key).expanded ∧ st.shelf key x := fun x hx => by
    obtain ⟨m, name, args, rfl⟩ : ∃ m name args, x = .named m name args :=
      (List.mem_append.1 hx).elim (named x) fun hx => List.mem_singleton.1 hx ▸ hnamed
    have shelf := sound.shelf_of_not_grounded (under _ hx).self (loose _ hx)
    exact ⟨sound.mem_table shelf ⟨m, name, args, rfl⟩, shelf⟩
  -- the stamps in a table are distinct
  have stamps : ((st.store.resolver key).expanded.map TypeExpr.stamp).Nodup :=
    List.pairwise_map.2 ((sound.resolver key).ordered.imp Nat.ne_of_lt)
  obtain rfl : t = n := List.inj_on_of_nodup_map stamps (found t (by simp)).1
    (found n (by simp)).1 hstamp
  exact ⟨t, rest, position, chain, rfl, fun x hx => found x (List.mem_append_left _ hx)⟩

/-- The check fails exactly if a cycle goes through a node under the resolver. -/
lemma Sound.check_eq_ok_iff (sound : st.Sound) :
    st.store.heap.checkProductive (st.store.resolver key).expanded = .ok () ↔
      ∀ n rest, st.under key n → ¬ st.store.heap.Cycle n rest := by
  refine ⟨fun hcheck n rest hn cycle => cycle.not_grounded (sound.grounded_of_check hcheck hn),
    fun none => ?_⟩
  cases hcheck : st.store.heap.checkProductive (st.store.resolver key).expanded with
  | ok u => rfl
  | error e =>
    obtain ⟨n, rest, -, cycle, -, found⟩ := sound.cycle_of_check hcheck
    exact absurd cycle (none n rest (.inr (found n List.mem_cons_self).2))

end Check

end Stage

/-- Whether a fault says that a reference was met where there should be none. -/
def Fault.MeetsReference : Fault → Prop
  | unresolved _ | incomparable => True
  | _ => False

/-- Whether a resolution reports a fault as an error about its input, and clears up after it. -/
def Fault.IsReported (fault : Fault) : Prop :=
  fault.isRegular = true ∨ fault = .exhausted

/-- What failure keeps: no reference was met, and shelves are only emptied if a resolution would
report the fault.  A fault that reports a cyclic type is right; the types on the cycle are new, or
lay on a shelf. -/
structure Stage.Fails (st st' : Stage) (fault : Fault) : Prop where
  apt : ¬ fault.MeetsReference
  shelf : fault.IsReported → ∀ {key n}, st'.shelf key n → st.shelf key n
  cyclic : ∀ {names position}, fault = .resolution (.cyclic names position) →
    ∀ {since}, st.Since since → st'.store.heap.Exhibits since names

/-! ## Steps of a session -/

namespace Action

variable {α β : Type} {st st' : Stage}

/-- A step leads from a stage to a later one.  If nothing was unfinished, then nothing settled is,
and something in a table is only after an overflow.  What it answers satisfies a postcondition. -/
def Acts (x : Action α) (st : Stage) (Post : Stage → α → Prop) : Prop :=
  st.Sound → ∃ settled shelf,
    let st' : Stage := ⟨(outcome x st.session).2, settled, shelf, st.own, st.active⟩
    st.Later st' ∧ st'.Sound ∧
      (st.Whole → st.Tidy →
        st'.Whole ∧ (st'.Tidy ∨ (outcome x st.session).1 = .error (.arithmetic .overflow))) ∧
      (∀ fault, (outcome x st.session).1 = .error fault → st.Fails st' fault) ∧
      ∀ a, (outcome x st.session).1 = .ok a → st.Kept st' ∧ Post st' a

lemma Acts.of_sound {x : Action α} {Post : Stage → α → Prop} (h : st.Sound → Acts x st Post) :
    Acts x st Post :=
  fun sound => h sound sound

/-- A step whose outcome is known leads to a given stage. -/
lemma Acts.of_outcome {x : Action α} {Post : Stage → α → Prop} {result : Except Fault α}
    (st' : Stage) (out : outcome x st.session = (result, st'.session)) (own : st'.own = st.own)
    (active : st'.active = st.active) (later : st.Later st') (sound' : st'.Sound)
    (neat : st.Whole → st.Tidy →
      st'.Whole ∧ (st'.Tidy ∨ result = .error (.arithmetic .overflow)))
    (fails : ∀ fault, result = .error fault → st.Fails st' fault)
    (post : ∀ a, result = .ok a → st.Kept st' ∧ Post st' a) : Acts x st Post := by
  intro _
  refine ⟨st'.settled, st'.shelf, ?_⟩
  rw [← own, ← active]
  simp only [out]
  exact ⟨later, sound', neat, fails, post⟩

lemma acts_pure {Post : Stage → α → Prop} {a : α} (h : Post st a) : Acts (pure a) st Post :=
  fun sound => ⟨st.settled, st.shelf, .refl st, sound, fun whole tidy => ⟨whole, .inl tidy⟩,
    by simp, fun b hb => by
      simp only [outcome_pure, Except.ok.injEq] at hb
      subst hb
      exact ⟨.refl st, h⟩⟩

lemma acts_throw {Post : Stage → α → Prop} {fault : Fault} (apt : ¬ fault.MeetsReference)
    (acyclic : ¬ fault.IsCyclic) : Acts (throw fault) st Post :=
  fun sound => ⟨st.settled, st.shelf, .refl st, sound, fun whole tidy => ⟨whole, .inl tidy⟩,
    fun fault' h => by
      simp only [outcome_throw, Except.error.injEq] at h
      subst h
      exact ⟨apt, fun _ _ _ hn => hn, fun h => absurd h (Fault.ne_cyclic acyclic)⟩,
    fun b hb => by simp at hb⟩

lemma acts_get : Acts (get : Action Session) st fun st' s => st' = st ∧ s = st.session :=
  fun sound => ⟨st.settled, st.shelf, .refl st, sound, fun whole tidy => ⟨whole, .inl tidy⟩,
    by simp, fun b hb => by
      simp only [outcome_get, Except.ok.injEq] at hb
      subst hb
      exact ⟨.refl st, rfl, rfl⟩⟩

lemma Acts.bind {x : Action α} {f : α → Action β} {Mid : Stage → α → Prop}
    {Post : Stage → β → Prop} (hx : Acts x st Mid)
    (hf : ∀ st' a, st.Later st' → Mid st' a → Acts (f a) st' Post) : Acts (x >>= f) st Post := by
  intro sound
  obtain ⟨settled, shelf, later, sound', neat, fails, post⟩ := hx sound
  simp only [outcome_bind]
  rcases hout : outcome x st.session with ⟨fault | a, s⟩
  · simp only [hout] at later sound' neat fails ⊢
    refine ⟨settled, shelf, later, sound', fun whole tidy => ?_, fun fault' h => ?_, by simp⟩
    · obtain ⟨whole', htidy⟩ := neat whole tidy
      exact ⟨whole', htidy.imp_right fun h => by rw [Except.error.inj h]⟩
    · exact Except.error.inj h ▸ fails fault rfl
  · simp only [hout] at later sound' neat post ⊢
    obtain ⟨kept, mid⟩ := post a rfl
    obtain ⟨settled', shelf', later', sound'', neat', fails', post'⟩ :=
      hf ⟨s, settled, shelf, st.own, st.active⟩ a later mid sound'
    refine ⟨settled', shelf', later.trans later', sound'', fun whole tidy => ?_,
      fun fault h => ?_, fun b hb => ?_⟩
    · obtain ⟨whole', htidy⟩ := neat whole tidy
      exact neat' whole' (htidy.resolve_right (by simp))
    · obtain ⟨apt, shelf, cyclic⟩ := fails' fault h
      exact ⟨apt, fun regular _ _ hn => kept.shelf (shelf regular hn),
        fun h _ since => cyclic h (kept.since later since)⟩
    · exact ⟨kept.trans (post' b hb).1 sound' later', (post' b hb).2⟩

lemma Acts.mono {x : Action α} {Post Post' : Stage → α → Prop} (hx : Acts x st Post)
    (h : ∀ st' a, st.Later st' → Post st' a → Post' st' a) : Acts x st Post' := by
  intro sound
  obtain ⟨settled, shelf, later, sound', neat, fails, post⟩ := hx sound
  exact ⟨settled, shelf, later, sound', neat, fails, fun a ha =>
    ⟨(post a ha).1, h _ a later (post a ha).2⟩⟩

/-- What success keeps may be used. -/
lemma Acts.kept {x : Action α} {Post : Stage → α → Prop} (hx : Acts x st Post) :
    Acts x st fun st' a => st.Kept st' ∧ Post st' a := by
  intro sound
  obtain ⟨settled, shelf, later, sound', neat, fails, post⟩ := hx sound
  exact ⟨settled, shelf, later, sound', neat, fails, fun a ha => ⟨(post a ha).1, post a ha⟩⟩

/-- What each step of a loop brings about holds in the end, if it lasts. -/
lemma acts_forM {f : β → Action Unit} {P : Stage → β → Prop} {xs : List β}
    (lasting : ∀ {st st' x}, st.Later st' → P st x → P st' x)
    (h : ∀ x ∈ xs, ∀ st', st.Later st' → Acts (f x) st' fun st'' _ => P st'' x) :
    Acts (xs.forM f) st fun st' _ => ∀ x ∈ xs, P st' x := by
  induction xs generalizing st with
  | nil => exact acts_pure (by simp)
  | cons x xs ih =>
    refine (h x (by simp) st (.refl st)).bind fun st' _ later hx => ?_
    refine (ih fun y hy st'' later' => h y (by simp [hy]) st'' (later.trans later')).mono
      fun st'' _ later' hxs => List.forall_mem_cons.2 ⟨lasting later' hx, hxs⟩

end Action

end TypeNotation
