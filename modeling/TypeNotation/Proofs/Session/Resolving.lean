import Mathlib.Logic.Function.Basic
import TypeNotation.Proofs.Session.Stage

/-!
# What resolving does to a stage

A resolution leads from a stage to a later one, whether it succeeds or fails.  Its expansion puts
new nodes on the shelf of its resolver.  If the expansion is refused, or a condition does not hold,
the resolver forgets its table and its shelf is cleared; an overflow leaves both as they are.  Once
the expansions have passed the check for productivity, they are settled.

Checking a condition may demand the result of a suspended target, which is a resolution of the same
kind.  So what resolutions do is said with what forcing does, by induction on the bound on the
nesting of demands.
-/

namespace TypeNotation

open TypeExpr Expansion

namespace Stage

variable {α : Type} {st st' : Stage} {key : Nat}

/-- The world in which a resolver starts. -/
def world (st : Stage) (key : Nat) : World :=
  ⟨st.under key, st.store, (st.store.resolver key).restart⟩

lemma state_world (st : Stage) (key : Nat) :
    (st.world key).state = ⟨st.store, (st.store.resolver key).restart⟩ := rfl

lemma Sound.ready (sound : st.Sound) (key : Nat) : (st.world key).Ready st.registry where
  wired := sound.shelved key
  fresh := sound.fresh
  resolver :=
    ⟨(sound.resolver key).table, (sound.resolver key).distinct, (sound.resolver key).ordered,
      (sound.resolver key).pending⟩
  registry := sound.known.mono fun _ => .inl

/-- The stage after an expansion: what is new lies on the shelf of the resolver. -/
def expanded (st : Stage) (key : Nat) (w : World) : Stage where
  session := ⟨st.registry, w.state.store.setResolver key w.state.resolver⟩
  settled := st.settled
  shelf := Function.update st.shelf key fun n => w.nodes n ∧ ¬ st.settled n
  own := st.own
  active := st.active

variable {w : World}

lemma under_expanded (later : (st.world key).Later w) :
    (st.expanded key w).under key = w.nodes := by
  funext n
  have hsub : st.settled n → w.nodes n := fun h => later.nodes (.inl h)
  simp only [under, expanded, Function.update_self, eq_iff_iff]
  tauto

lemma under_expanded_of_ne {k : Nat} (hk : k ≠ key) :
    (st.expanded key w).under k = st.under k := by
  funext n
  simp only [under, expanded, Function.update_of_ne hk]

lemma resolvers_expanded_of_ne {k : Nat} (hk : k ≠ key) :
    (st.expanded key w).store.resolvers[k]? = w.state.store.resolvers[k]? := by
  simp [expanded, Store.setResolver, Std.HashMap.getElem?_insert, hk.symm]

lemma resolvers_expanded_self :
    (st.expanded key w).store.resolvers[key]? = some w.state.resolver := by
  simp [expanded, Store.setResolver]

lemma resolver_expanded : (st.expanded key w).store.resolver key = w.state.resolver :=
  Store.resolver_setResolver _ _ _

lemma later_expanded (later : (st.world key).Later w) : st.Later (st.expanded key w) where
  next := later.next
  bodies := later.bodies
  suspensions := later.suspensions
  results {n r} hr := ⟨r, (later.result? n).trans hr, same_self r⟩
  settled h := h
  lookup h := h
  made {k n} hn := by
    by_cases hk : k = key
    · subst hk
      rw [under_expanded later] at hn
      exact (later.made hn).imp (fun h => ⟨k, h⟩) And.left
    · rw [under_expanded_of_ne hk] at hn
      exact .inl ⟨k, hn⟩

/-- What an expansion puts on the shelf is new. -/
lemma since_expanded (later : (st.world key).Later w) {since : Nat} (hs : st.Since since) :
    (st.expanded key w).Since since where
  next := Nat.le_trans hs.next later.next
  shelf {k n} hn := by
    by_cases hk : k = key
    · subst hk
      obtain ⟨hn, unsettled⟩ : w.nodes n ∧ ¬ st.settled n := by simpa [expanded] using hn
      rcases later.made hn with old | ⟨new, -⟩
      · exact hs.shelf (old.resolve_left unsettled)
      · exact Nat.le_trans hs.next new
    · exact hs.shelf (by simpa only [expanded, Function.update_of_ne hk] using hn)

lemma Sound.expanded (sound : st.Sound) (hkey : key < st.store.nextStamp)
    (later : (st.world key).Later w) (ready : w.Ready st.registry) :
    (st.expanded key w).Sound where
  fresh := ⟨ready.fresh.bodies, ready.fresh.results, fun {n} hn => by
    have hlt : key < n := Nat.lt_of_lt_of_le hkey (Nat.le_trans later.next hn)
    rw [resolvers_expanded_of_ne (Nat.ne_of_gt hlt)]
    exact ready.fresh.resolvers hn⟩
  known := sound.known
  wired := sound.wired.later later.next (fun _ => later.bodies)
    (fun n _ => later.result? n) fun _ => later.suspensions
  shelved k := by
    by_cases hk : k = key
    · subst hk
      rw [under_expanded later]
      exact ready.wired.later (Nat.le_refl _) (fun _ _ => rfl) (fun _ _ => rfl) fun _ _ => rfl
    · rw [under_expanded_of_ne hk]
      exact (sound.shelved k).later later.next (fun _ => later.bodies)
        (fun n _ => later.result? n) fun _ => later.suspensions
  grounded hn := (sound.grounded hn).later sound.wired (fun _ => later.bodies) (sound.wired.node hn)
  resolvers {k r} hr := by
    by_cases hk : k = key
    · subst hk
      rw [resolvers_expanded_self] at hr
      cases hr
      rw [under_expanded later]
      exact ready.resolver
    · rw [resolvers_expanded_of_ne hk] at hr
      rw [under_expanded_of_ne hk]
      by_cases hlt : k < st.store.nextStamp
      · rw [later.resolvers hlt] at hr
        exact sound.resolvers hr
      · obtain ⟨htable, hpending⟩ := later.idle (Nat.le_of_not_lt hlt) hr
        constructor <;> simp [htable, hpending]
  owned {k n} hn := by
    by_cases hk : k = key
    · subst hk
      refine ⟨w.state.resolver, resolvers_expanded_self, fun hnamed => ?_⟩
      simp only [Stage.expanded, Function.update_self] at hn
      rcases later.made hn.1 with (hold | hold) | hnew
      · exact absurd hold hn.2
      · obtain ⟨r, hr, hmem⟩ := sound.owned hold
        refine later.table.subset ?_
        simp only [world, Resolver.restart, Store.resolver, hr, Option.getD_some]
        exact hmem hnamed
      · exact hnew.2 hnamed
    · simp only [Stage.expanded, Function.update_of_ne hk] at hn
      obtain ⟨r, hr, hmem⟩ := sound.owned hn
      refine ⟨r, ?_, hmem⟩
      rw [resolvers_expanded_of_ne hk]
      by_cases hlt : k < st.store.nextStamp
      · rw [later.resolvers hlt]
        exact hr
      · rw [sound.fresh.resolvers (Nat.le_of_not_lt hlt)] at hr
        cases hr
  own hk := Nat.lt_of_lt_of_le (sound.own hk) later.next
  apart {k n} hn hown := by
    have hown : st.own n.stamp := hown
    by_cases hk : k = key
    · subst hk
      rw [under_expanded later] at hn
      rcases later.made hn with hold | hnew
      · exact sound.apart hold hown
      · exact absurd (sound.own hown) (Nat.not_lt_of_le hnew.1)
    · rw [under_expanded_of_ne hk] at hn
      exact sound.apart hn hown

lemma body?_expanded (later : (st.world key).Later w) {n : Nat} (hn : n < st.store.nextStamp) :
    (st.expanded key w).store.heap.body? n = st.store.heap.body? n :=
  later.bodies hn

lemma tidyAt_expanded_of_ne (sound : st.Sound) (later : (st.world key).Later w) {k : Nat}
    (hk : k ≠ key) (tidy : st.TidyAt k) : (st.expanded key w).TidyAt k := by
  intro r hr t ht
  rw [resolvers_expanded_of_ne hk] at hr
  by_cases hlt : k < st.store.nextStamp
  · rw [later.resolvers hlt] at hr
    have hplaced : t.stamp < st.store.nextStamp :=
      ((sound.shelved k).placed ((sound.resolvers hr).table t ht).1).2
    rw [body?_expanded later hplaced]
    exact tidy r hr t ht
  · simp [(later.idle (Nat.le_of_not_lt hlt) hr).1] at ht

lemma whole_expanded (sound : st.Sound) (later : (st.world key).Later w) (whole : st.Whole) :
    (st.expanded key w).Whole := by
  intro m name args hn
  have hplaced : m.stamp < st.store.nextStamp := (sound.wired.placed hn).2
  rw [body?_expanded later hplaced]
  exact whole m name args hn

lemma tidyAt_expanded (sound : st.Sound) (later : (st.world key).Later w)
    (ready : w.Ready st.registry) (completed : (st.world key).Completed st.registry w)
    (whole : st.Whole) (tidy : st.TidyAt key) : (st.expanded key w).TidyAt key := by
  intro r hr t ht
  rw [resolvers_expanded_self] at hr
  cases hr
  obtain ⟨hnode, m, name, args, rfl⟩ := ready.resolver.table t ht
  by_cases hold : st.under key (.named m name args)
  · have hplaced : m.stamp < st.store.nextStamp := ((sound.shelved key).placed hold).2
    rw [stamp, mark, body?_expanded later hplaced]
    rcases hold with hold | hold
    · exact whole m name args hold
    · obtain ⟨r, hr, hmem⟩ := sound.owned hold
      exact tidy r hr _ (hmem ⟨m, name, args, rfl⟩)
  · exact (completed hnode hold).1

/-! ## Forgetting and settling -/

/-- The stage after a resolver has forgotten what it has done. -/
def cleared (st : Stage) (key : Nat) : Stage where
  session := ⟨st.registry, st.store.setResolver key (st.store.resolver key).clear⟩
  settled := st.settled
  shelf := Function.update st.shelf key fun _ => False
  own := st.own
  active := st.active

/-- The stage after the expansions of a resolver have passed the check for productivity. -/
def concluded (st : Stage) (key : Nat) : Stage where
  session := ⟨st.registry, st.store.setResolver key { st.store.resolver key with pending := [] }⟩
  settled := st.under key
  shelf := Function.update st.shelf key fun _ => False
  own := st.own
  active := st.active

lemma shelf_cleared {k : Nat} {n : TypeExpr} (hn : (st.cleared key).shelf k n) :
    k ≠ key ∧ st.shelf k n := by
  by_cases hk : k = key
  · simp [cleared, hk] at hn
  · exact ⟨hk, by simpa [cleared, Function.update_of_ne hk] using hn⟩

lemma shelf_concluded {k : Nat} {n : TypeExpr} (hn : (st.concluded key).shelf k n) :
    k ≠ key ∧ st.shelf k n :=
  shelf_cleared hn

lemma later_cleared (st : Stage) (key : Nat) : st.Later (st.cleared key) where
  toPrecedes := Store.Precedes.setResolver _ _ _
  settled h := h
  lookup h := h
  made {k _} hn := .inl ⟨k, hn.imp id fun hn => (shelf_cleared hn).2⟩

lemma Sound.cleared (sound : st.Sound) (hkey : key < st.store.nextStamp) :
    (st.cleared key).Sound := by
  have other : ∀ {k}, k ≠ key → (st.cleared key).under k = st.under k := fun hk => by
    funext n
    simp [under, Stage.cleared, Function.update_of_ne hk]
  exact {
    fresh := Store.Fresh.setResolver sound.fresh hkey _
    known := sound.known
    wired := sound.wired.setResolver key _
    shelved := fun k => by
      by_cases hk : k = key
      · have : (st.cleared key).under k = st.settled := by
          funext n
          simp [under, Stage.cleared, hk]
        rw [this]
        exact sound.wired.setResolver key _
      · rw [other hk]
        exact (sound.shelved k).setResolver key _
    grounded := sound.grounded
    resolvers := fun {k r} hr => by
      rw [store, Stage.cleared, Store.getElem?_setResolver] at hr
      by_cases hk : k = key
      · rw [if_pos hk] at hr
        cases hr
        constructor <;> simp [Resolver.clear]
      · rw [if_neg hk] at hr
        rw [other hk]
        exact sound.resolvers hr
    owned := fun {k n} hn => by
      by_cases hk : k = key
      · simp [Stage.cleared, hk] at hn
      · simp only [Stage.cleared, Function.update_of_ne hk] at hn
        obtain ⟨r, hr, hmem⟩ := sound.owned hn
        exact ⟨r, by rw [store, Stage.cleared, Store.getElem?_setResolver, if_neg hk]; exact hr,
          hmem⟩
    own := sound.own
    apart := fun {k n} hn => by
      rcases hn with hn | hn
      · exact sound.apart (.inl hn : st.under k _)
      · by_cases hk : k = key
        · simp [Stage.cleared, hk] at hn
        · simp only [Stage.cleared, Function.update_of_ne hk] at hn
          exact sound.apart (.inr hn) }

lemma tidyAt_cleared (st : Stage) (key : Nat) : (st.cleared key).TidyAt key := by
  intro r hr t ht
  rw [store, cleared, Store.getElem?_setResolver, if_pos rfl] at hr
  cases hr
  simp [Resolver.clear] at ht

lemma tidyAt_cleared_of_ne {k : Nat} (hk : k ≠ key) (tidy : st.TidyAt k) :
    (st.cleared key).TidyAt k := by
  intro r hr
  rw [store, cleared, Store.getElem?_setResolver, if_neg hk] at hr
  exact tidy r hr

lemma Sound.concluded (sound : st.Sound) (hkey : key < st.store.nextStamp)
    (hcheck : st.store.heap.checkProductive (st.store.resolver key).expanded = .ok ()) :
    (st.concluded key).Sound := by
  have other : ∀ {k}, k ≠ key →
      (st.concluded key).under k = fun n => st.under key n ∨ st.under k n := fun hk => by
    funext n
    simp only [under, Stage.concluded, Function.update_of_ne hk, eq_iff_iff]
    tauto
  have self : (st.concluded key).under key = st.under key := by
    funext n
    simp [under, Stage.concluded]
  exact {
    fresh := Store.Fresh.setResolver sound.fresh hkey _
    known := sound.known.mono fun _ => .inl
    wired := (sound.shelved key).setResolver key _
    shelved := fun k => by
      by_cases hk : k = key
      · subst hk
        rw [self]
        exact (sound.shelved k).setResolver k _
      · rw [other hk]
        exact ((sound.shelved key).union (sound.shelved k)).setResolver key _
    grounded := sound.grounded_of_check hcheck
    resolvers := fun {k r} hr => by
      rw [store, Stage.concluded, Store.getElem?_setResolver] at hr
      by_cases hk : k = key
      · subst hk
        rw [if_pos rfl] at hr
        cases hr
        rw [self]
        exact ⟨(sound.resolver k).table, (sound.resolver k).distinct, (sound.resolver k).ordered,
          by simp⟩
      · rw [if_neg hk] at hr
        rw [other hk]
        exact (sound.resolvers hr).mono fun _ => .inr
    owned := fun {k n} hn => by
      by_cases hk : k = key
      · simp [Stage.concluded, hk] at hn
      · simp only [Stage.concluded, Function.update_of_ne hk] at hn
        obtain ⟨r, hr, hmem⟩ := sound.owned hn
        exact ⟨r, by rw [store, Stage.concluded, Store.getElem?_setResolver, if_neg hk]; exact hr,
          hmem⟩
    own := sound.own
    apart := fun {k n} hn => by
      by_cases hk : k = key
      · subst hk
        rw [self] at hn
        exact sound.apart hn
      · rw [other hk] at hn
        exact hn.elim sound.apart sound.apart }

lemma later_concluded (st : Stage) (key : Nat) : st.Later (st.concluded key) where
  toPrecedes := Store.Precedes.setResolver _ _ _
  settled := .inl
  lookup h := h
  made {k _} hn := .inl <| hn.elim (fun hn => ⟨key, hn⟩) fun hn => ⟨k, .inr (shelf_concluded hn).2⟩

lemma whole_concluded (sound : st.Sound) (whole : st.Whole) (tidy : st.TidyAt key) :
    (st.concluded key).Whole := by
  intro m name args hn
  rcases hn with hn | hn
  · exact whole m name args hn
  · obtain ⟨r, hr, hmem⟩ := sound.owned hn
    exact tidy r hr _ (hmem ⟨m, name, args, rfl⟩)

lemma tidyAt_concluded {k : Nat} (tidy : st.TidyAt k) : (st.concluded key).TidyAt k := by
  intro r hr t ht
  rw [store, concluded, Store.getElem?_setResolver] at hr
  by_cases hk : k = key
  · subst hk
    rw [if_pos rfl] at hr
    cases hr
    simp only [Store.resolver] at ht
    cases hr : st.store.resolvers[k]? with
    | some r =>
      rw [hr, Option.getD_some] at ht
      exact tidy r hr t ht
    | none =>
      rw [hr, Option.getD_none] at ht
      simp [Resolver.fresh, Resolver.ofBudget] at ht
  · rw [if_neg hk] at hr
    exact tidy r hr t ht

end Stage

/-! ## Remembering -/

namespace Registry

lemma mem_remember {memo : List TypeExpr} {t u : TypeExpr} (h : u ∈ remember memo t) :
    u ∈ memo ∨ u = t := by
  unfold remember at h
  split at h
  · obtain ⟨v, hv, rfl⟩ := List.mem_map.1 h
    split
    · exact .inr rfl
    · exact .inl hv
  · simpa using h

lemma mem_foldl_remember {ts memo : List TypeExpr} {u : TypeExpr}
    (h : u ∈ ts.foldl remember memo) : u ∈ memo ∨ u ∈ ts := by
  induction ts generalizing memo with
  | nil => exact .inl h
  | cons t ts ih =>
    rcases ih h with h | h
    · rcases mem_remember h with h | rfl
      · exact .inl h
      · exact .inr List.mem_cons_self
    · exact .inr (List.mem_cons_of_mem _ h)

lemma Over.memoize {K : Nodes} {r : Registry} (hr : r.Over K) {ts : List TypeExpr}
    (hts : ∀ t ∈ ts, K t ∧ ∃ m name args, t = .named m name args) : (r.memoize ts).Over K where
  declarations := hr.declarations
  memo t ht := by
    rcases mem_foldl_remember ht with ht | ht
    · exact hr.memo t ht
    · exact hts t ht

end Registry

namespace Action

variable {α : Type} {st st' : Stage} {key : Nat}

/-- A change of the session that keeps nodes where they are. -/
lemma acts_modify {f : Session → Session} {Post : Stage → Unit → Prop}
    (sound : st.Sound → Stage.Sound ⟨f st.session, st.settled, st.shelf, st.own, st.active⟩)
    (lookup : ∀ name d, st.registry.lookup name = some d →
      (f st.session).registry.lookup name = some d)
    (precedes : st.store.Precedes (f st.session).store)
    (bodies : ∀ n, (f st.session).store.heap.body? n = st.store.heap.body? n)
    (resolvers : (f st.session).store.resolvers = st.store.resolvers)
    (post : Post ⟨f st.session, st.settled, st.shelf, st.own, st.active⟩ ()) :
      Acts (modify f) st Post := by
  intro hsound
  refine ⟨st.settled, st.shelf, ⟨precedes, fun h => h, fun {name d} => lookup name d,
    fun h => .inl ⟨_, h⟩⟩, sound hsound, fun whole tidy => ⟨?_, .inl ?_⟩, by simp, ?_⟩
  · intro m name args hn
    have := whole m name args hn
    rwa [← bodies] at this
  · intro k haside r hr t ht
    have hr : (f st.session).store.resolvers[k]? = some r := hr
    rw [resolvers] at hr
    have := tidy k haside r hr t ht
    rwa [← bodies] at this
  · rintro ⟨⟩ -
    refine ⟨⟨fun {k r} hr => ⟨r, ?_, List.prefix_rfl⟩, fun h => h,
      fun _ _ _ _ hn hnot => absurd hn hnot⟩, post⟩
    show (f st.session).store.resolvers[k]? = some r
    rw [resolvers]
    exact hr

lemma acts_memoize (empty : ∀ n, ¬ st.shelf key n) :
    Acts (modify fun s => { s with registry := s.registry.memoize (s.store.resolver key).expanded })
      st fun st' _ => st'.settled = st.settled ∧ st'.store = st.store := by
  refine acts_modify (fun sound => ?_) (fun _ _ h => h) (.refl _) (fun _ => rfl) rfl ⟨rfl, rfl⟩
  have table : ∀ t ∈ (st.store.resolver key).expanded,
      st.settled t ∧ ∃ m name args, t = .named m name args := fun t ht =>
    ⟨((sound.resolver key).table t ht).1.resolve_right (empty t),
      ((sound.resolver key).table t ht).2⟩
  exact { sound with
    known := sound.known.memoize table
    wired := sound.wired.registry_mono fun _ _ h => h
    shelved := fun k => (sound.shelved k).registry_mono fun _ _ h => h }

/-- The result of a suspended node is kept.  One that was there before is replaced by an equal
one. -/
lemma acts_setResult {m : Mark} {target result : TypeExpr} {bindings : List (Field TypeExpr)}
    {x : Suspension} (hnode : st.settled (.deferred m target bindings))
    (hx : st.store.suspensions[m.stamp]? = some x) (hresult : result.ResolvedOver st.settled)
    (same : result.same (x.target.instantiate x.env x.scope) = true)
    (home : result.Home st.store x.scope (x.target.Guest x.env)) :
    Acts (modify fun s => { s with store :=
      { s.store with heap := s.store.heap.setResult m.stamp result } }) st fun _ _ => True := by
  refine .of_sound fun sound => acts_modify (fun sound => ?_) (fun _ _ h => h)
    ⟨Nat.le_refl _, fun _ => rfl, fun _ => rfl, fun {n r} hr => ?_⟩ (fun _ => rfl) rfl trivial
  · have hplaced : m.stamp < st.store.nextStamp := (sound.wired.placed hnode).2
    have only : ∀ y, st.store.suspensions[m.stamp]? = some y →
        result.same (y.target.instantiate y.env y.scope) = true := fun y hy => by
      rw [hx] at hy
      exact Option.some.inj hy ▸ same
    have belongs : ∀ y, st.store.suspensions[m.stamp]? = some y →
        result.Home st.store y.scope (y.target.Guest y.env) := fun y hy => by
      rw [hx] at hy
      exact Option.some.inj hy ▸ home
    exact { sound with
      fresh := ⟨sound.fresh.bodies, fun {n} hn => by
        have hn : st.store.nextStamp ≤ n := hn
        have hne : m.stamp ≠ n := by omega
        simpa [Heap.result?, Heap.setResult, Std.HashMap.getElem?_insert, hne] using
          sound.fresh.results hn, sound.fresh.resolvers⟩
      wired := sound.wired.setResult hresult only belongs
      shelved := fun k => (sound.shelved k).setResult (hresult.mono fun _ => .inl) only belongs
      grounded := fun {n} hn => by
        let s : Store := { st.store with heap := st.store.heap.setResult m.stamp result }
        have bodies : ∀ n < st.store.nextStamp, s.heap.body? n = st.store.heap.body? n :=
          fun _ _ => rfl
        exact (sound.grounded hn).later sound.wired bodies (sound.wired.node hn) }
  · show ∃ r', (st.store.heap.setResult m.stamp result).result? n = some r' ∧ _
    by_cases heq : m.stamp = n
    · subst heq
      have before := sound.wired.faithful hnode hr hx
      exact ⟨result, by simp [Heap.result?, Heap.setResult],
        same_trans same (same_symm before)⟩
    · refine ⟨r, ?_, same_self r⟩
      simpa [Heap.result?, Heap.setResult, Std.HashMap.getElem?_insert, heq] using hr

/-! ## What comes out of a resolution -/

/-- A fault that a resolution reports becomes regular, and any other stays what it is. -/
lemma report_spec (r : Resolver) (fault : Fault) :
    fault.IsReported ∧ (r.report fault).isRegular = true ∨
      ¬ fault.IsReported ∧ r.report fault = fault ∧ fault.isRegular = false := by
  unfold Fault.IsReported
  cases fault with
  | exhausted => exact .inl ⟨.inr rfl, rfl⟩
  | unreadable e => cases e <;> simp [Resolver.report, Fault.isRegular]
  | _ => simp [Resolver.report, Fault.isRegular]

lemma report_ne_exhausted (r : Resolver) (fault : Fault) : r.report fault ≠ .exhausted := by
  cases fault <;> simp [Resolver.report]

lemma eq_cyclic_of_report {r : Resolver} {fault : Fault} {names : List String}
    {position : Option Position} (h : r.report fault = .resolution (.cyclic names position)) :
    fault = .resolution (.cyclic names position) := by
  cases fault with
  | exhausted => cases h
  | _ => exact h

lemma not_meetsReference_report {r : Resolver} {fault : Fault} (h : ¬ fault.MeetsReference) :
    ¬ (r.report fault).MeetsReference := by
  cases fault with
  | exhausted => exact id
  | _ => exact h

lemma outcome_runExpansion (x : Expansion α) (s : Session) :
    outcome (runExpansion key x) s =
      let out := outcome x ⟨s.store, (s.store.resolver key).restart⟩
      (out.1, { s with store := out.2.store.setResolver key out.2.resolver }) := by
  simp only [runExpansion, outcome_bind, outcome_get]
  rcases hx : outcome x ⟨s.store, (s.store.resolver key).restart⟩ with ⟨fault | a, e⟩
  all_goals
    simp only [show x.run.run ⟨s.store, (s.store.resolver key).restart⟩ = _ from hx]
    rfl

lemma outcome_modifyResolver (f : Resolver → Resolver) (s : Session) :
    outcome (modifyResolver key f) s =
      (.ok (), { s with store := s.store.setResolver key (f (s.store.resolver key)) }) := rfl

lemma outcome_resolving (force : TypeExpr → Action TypeExpr) (x : Expansion α) (s : Session) :
    outcome (resolving force key x) s =
      match outcome (runExpansion key x >>= fun a => conclude force key >>= fun _ => pure a) s with
      | (.ok a, s') => (.ok a, s')
      | (.error raised, s') =>
        let fault := (s'.store.resolver key).report raised
        (.error fault, if fault.isRegular then
          { s' with store := s'.store.setResolver key (s'.store.resolver key).clear } else s') := by
  simp only [resolving, outcome_tryCatch]
  rcases outcome (runExpansion key x >>= fun a => conclude force key >>= fun _ => pure a) s with
    ⟨raised | a, s'⟩
  · cases hreg : ((s'.store.resolver key).report raised).isRegular
    · simp [outcome_bind, outcome_get, hreg]
    · simp [outcome_bind, outcome_get, outcome_modifyResolver, hreg]
  · rfl

/-- A resolution that goes too deep says so as an error about its input. -/
lemma outcome_resolving_ne_exhausted (force : TypeExpr → Action TypeExpr) (x : Expansion α)
    (s : Session) : (outcome (resolving force key x) s).1 ≠ .error .exhausted := by
  rw [outcome_resolving]
  split
  · simp
  · simpa using report_ne_exhausted _ _

/-- The session that a resolver leaves when nothing is wrong with its expansions. -/
def remembering (s : Session) (key : Nat) (e : Expanding) : Session :=
  ⟨s.registry.memoize e.resolver.expanded,
    (e.store.setResolver key e.resolver).setResolver key { e.resolver with pending := [] }⟩

lemma outcome_askWith {force : TypeExpr → Action TypeExpr} (question : Heap → Query α)
    (bound : Nat) (s : Session) :
    outcome (askWith force question (bound + 1)) s =
      match question s.store.heap with
      | .ok a => (.ok a, s)
      | .error (.demand t) => outcome (force t >>= fun _ => askWith force question bound) s
      | .error halt => (.error (faultOf halt), s) := by
  simp only [askWith, outcome_bind, outcome_get]
  rcases question s.store.heap with halt | a
  · cases halt <;> first | rfl | exact outcome_bind _ _ _
  · rfl

/-- Checking conditions does nothing if they hold as it is. -/
lemma outcome_forM_checkCondition {force : TypeExpr → Action TypeExpr}
    {conditions : List Condition} {s : Session}
    (hold : ∀ c ∈ conditions,
      (Matcher.mk s.store.heap true).isSubtype depthBound c.binding c.constraint = .ok true) :
    outcome (conditions.forM (checkCondition force)) s = (.ok (), s) := by
  induction conditions with
  | nil => rfl
  | cons c conditions ih =>
    rw [List.forall_mem_cons] at hold
    have asked : outcome (askWith force (fun heap =>
        (Matcher.mk heap true).isSubtype depthBound c.binding c.constraint) depthBound) s =
          (.ok true, s) :=
      (outcome_askWith _ 19999 s).trans (by simp only [hold.1])
    have checked : outcome (checkCondition force c) s = (.ok (), s) := by
      rw [checkCondition]
      by_cases closed : c.binding.isClosed
      · simp only [closed, if_true, outcome_bind, asked]
        rfl
      · simp only [closed, Bool.false_eq_true, if_false]
        rfl
    show outcome (checkCondition force c >>= fun _ => conditions.forM (checkCondition force)) s = _
    rw [outcome_bind, checked]
    exact ih hold.2

/-- A resolution succeeds if its expansion is productive and the conditions that come up hold as it
is. -/
lemma outcome_resolving_of_hold {force : TypeExpr → Action TypeExpr} {x : Expansion α} {a : α}
    {s : Session} {e : Expanding}
    (run : outcome x ⟨s.store, (s.store.resolver key).restart⟩ = (.ok a, e))
    (hold : ∀ c ∈ e.resolver.pending,
      (Matcher.mk e.store.heap true).isSubtype depthBound c.binding c.constraint = .ok true)
    (productive : e.store.heap.checkProductive e.resolver.expanded = .ok ()) :
    outcome (resolving force key x) s = (.ok a, remembering s key e) := by
  have checked (r : Resolver) : outcome (e.resolver.pending.forM (checkCondition force))
      ⟨s.registry, (e.store.setResolver key e.resolver).setResolver key r⟩ = (.ok (), _) :=
    outcome_forM_checkCondition hold
  simp only [outcome_resolving, outcome_bind, outcome_get, outcome_runExpansion, run, conclude,
    Store.resolver_setResolver, Store.heap_setResolver, productive, outcome_modifyResolver,
    outcome_pure, outcome_modify, checked, remembering]

/-- What a resolver returns is what it expands a type to, unfolded. -/
lemma outcome_resolveWith_of_hold {s : Session} {t w : TypeExpr} {e : Expanding}
    {bindings : List (Field TypeExpr)}
    (run : outcome (do
      let env ← bindings.mapM fun b =>
        return (⟨b.name, ← Expansion.expand s.registry [] none b.type⟩ : Field TypeExpr)
      Expansion.expand s.registry env none t)
      ⟨s.store, (s.store.resolver key).restart⟩ = (.ok w, e))
    (hold : ∀ c ∈ e.resolver.pending,
      (Matcher.mk e.store.heap true).isSubtype depthBound c.binding c.constraint = .ok true)
    (productive : e.store.heap.checkProductive e.resolver.expanded = .ok ()) :
    outcome (resolveWith key t bindings) s =
      (.ok (e.store.heap.unfold w), remembering s key e) := by
  rw [resolveWith, outcome_bind, outcome_get]
  simp only
  rw [outcome_bind, outcome_resolving_of_hold run hold productive]
  rfl

/-- In particular it returns that if no condition comes up. -/
lemma outcome_resolveWith {s : Session} {t w : TypeExpr} {e : Expanding}
    (run : outcome (Expansion.expand s.registry [] none t)
      ⟨s.store, (s.store.resolver key).restart⟩ = (.ok w, e))
    (unconditional : e.resolver.pending = [])
    (productive : e.store.heap.checkProductive e.resolver.expanded = .ok ()) :
    outcome (resolveWith key t []) s = (.ok (e.store.heap.unfold w), remembering s key e) :=
  outcome_resolveWith_of_hold (by rwa [List.mapM_nil, pure_bind])
    (by simp [unconditional]) productive

/-! ## Questions -/

/-- Resolving a suspended node that is settled gives a settled type. -/
def Forces (force : TypeExpr → Action TypeExpr) : Prop :=
  ∀ (st : Stage) (m : Mark) (target : TypeExpr) (bindings : List (Field TypeExpr)),
    st.settled (.deferred m target bindings) →
      Acts (force (.deferred m target bindings)) st fun st' u => u.ResolvedOver st'.settled

variable {force : TypeExpr → Action TypeExpr}

lemma acts_askWith (hforce : Forces force) {question : Heap → Query α} {P : Nodes → α → Prop}
    (hquestion : ∀ st', st.Later st' → st'.Sound →
      (question st'.store.heap).Stays st'.settled (P st'.settled)) (bound : Nat) :
    Acts (askWith force question bound) st fun st' a =>
      P st'.settled a ∧ question st'.store.heap = .ok a := by
  induction bound generalizing st with
  | zero => exact acts_throw id id
  | succ bound ih =>
    refine .of_sound fun sound => acts_get.bind fun st' s _ h => ?_
    obtain ⟨rfl, rfl⟩ := h
    have stays := hquestion st' (.refl st') sound
    change Query.Stays _ (question st'.store.heap) _ at stays
    cases hanswer : question st'.store.heap with
    | ok a =>
      rw [hanswer] at stays
      exact acts_pure ⟨stays, hanswer⟩
    | error halt =>
      cases halt with
      | demand t =>
        rw [hanswer] at stays
        obtain ⟨hnode, m, target, bindings, rfl⟩ := stays
        exact (hforce st' m target bindings hnode).bind fun st'' _ later' _ =>
          ih fun st₃ later'' => hquestion st₃ (later'.trans later'')
      | unresolved | incomparable =>
        rw [hanswer] at stays
        exact stays.elim
      | arithmetic | exhausted => exact acts_throw id id

lemma acts_checkCondition (hforce : Forces force) {c : Condition}
    (hbinding : c.binding.ResolvedOver st.settled)
    (hconstraint : c.constraint.ResolvedOver st.settled) :
    Acts (checkCondition force c) st fun st' _ => st'.Upholds c.binding c.constraint := by
  unfold checkCondition
  by_cases closed : c.binding.isClosed
  · simp only [closed, if_true]
    refine (acts_askWith hforce (P := fun _ _ => True) (fun st' later sound => ?_) depthBound).bind
      fun st' holds later h => ?_
    · exact free_isSubtype sound.wired true depthBound (hbinding.mono fun _ => later.settled)
        (hconstraint.mono fun _ => later.settled)
    · cases holds
      · exact acts_throw id id
      · refine .of_sound fun sound => acts_pure fun _ => ?_
        exact ⟨st'.store, st'.settled, .refl _, fun _ hn => hn, sound.wired,
          hbinding.mono fun _ => later.settled, hconstraint.mono fun _ => later.settled, h.2⟩
  · simp only [closed, Bool.false_eq_true, if_false]
    exact acts_pure fun h => absurd h closed

/-! ## Conclusions -/

/-- What has passed the check for productivity is settled. -/
lemma acts_settle (hkey : key < st.store.nextStamp) (haside : ¬ st.aside key)
    (hcheck : st.store.heap.checkProductive (st.store.resolver key).expanded = .ok ()) :
    Acts (modifyResolver key fun r => { r with pending := [] }) st fun st' _ =>
      (∀ n, st'.settled n ↔ st.under key n) ∧ ∀ n, ¬ st'.shelf key n := by
  intro sound
  refine ⟨(st.concluded key).settled, (st.concluded key).shelf, st.later_concluded key,
    sound.concluded hkey hcheck, fun whole tidy =>
      ⟨Stage.whole_concluded sound whole (tidy key haside),
        .inl fun k hk => Stage.tidyAt_concluded (tidy k hk)⟩, by rintro _ ⟨⟩, ?_⟩
  rintro ⟨⟩ -
  refine ⟨⟨fun {k r} hr => ?_, fun hn =>
    (Stage.shelf_concluded hn).2, fun swept _ _ _ hn hnot => ?_⟩,
    fun n => .rfl, fun n hn => (Stage.shelf_concluded hn).1 rfl⟩
  · show ∃ r', (st.store.setResolver key _).resolvers[k]? = some r' ∧ _
    rw [Store.getElem?_setResolver]
    by_cases hk : k = key
    · rw [if_pos hk]
      refine ⟨_, rfl, ?_⟩
      rw [hk] at hr
      simp [Store.resolver, hr]
    · rw [if_neg hk]
      exact ⟨r, hr, List.prefix_rfl⟩
  · exact absurd hn (not_or_intro hnot (swept key _))

/-- What a resolver has done when it has concluded: what it built on is settled, and its conditions
have been checked.  If nothing lay on the other shelves, then whatever else has been settled is
vouched for. -/
structure Concluded (key : Nat) (st st' : Stage) : Prop where
  settled : ∀ n, st.under key n → st'.settled n
  shelf : ∀ n, ¬ st'.shelf key n
  upheld : ∀ c ∈ (st.store.resolver key).pending, st'.Upholds c.binding c.constraint
  vouched : (∀ k n, k ≠ key → ¬ st.shelf k n) → ∀ {m name args},
    st'.settled (.named m name args) → ¬ st.under key (.named m name args) → st'.Vouched name args

lemma acts_conclude (hforce : Forces force) (hkey : key < st.store.nextStamp)
    (haside : ¬ st.aside key) :
    Acts (conclude force key) st fun st' _ => Concluded key st st' := by
  refine .of_sound fun sound => acts_get.bind fun st' s _ h => ?_
  obtain ⟨rfl, rfl⟩ := h
  have pending := (sound.resolver key).pending
  cases hcheck : st'.store.heap.checkProductive (st'.store.resolver key).expanded with
  | error e =>
    obtain ⟨n, rest, position, cycle, rfl, found⟩ := sound.cycle_of_check hcheck
    refine .of_outcome st' (outcome_throw _ _) rfl rfl (.refl st') sound
      (fun whole tidy => ⟨whole, .inl tidy⟩) ?_ (by simp)
    rintro _ ⟨⟩
    refine ⟨id, fun _ _ _ hn => hn, fun h since hs => ?_⟩
    cases h
    exact ⟨n, rest, cycle, rfl, fun t ht => hs.shelf (found t ht).2⟩
  | ok u =>
    refine (acts_settle hkey haside hcheck).kept.bind fun st₁ _ later₁ h₁ => ?_
    obtain ⟨kept₁, settled₁, shelf₁⟩ := h₁
    have resolved : ∀ {t : TypeExpr} {st₂ : Stage}, st₁.Later st₂ → t.ResolvedOver (st'.under key) →
        t.ResolvedOver st₂.settled := fun later₂ ht =>
      ht.mono fun n hn => later₂.settled ((settled₁ n).2 hn)
    have conditions : Acts ((st'.store.resolver key).pending.forM (checkCondition force)) st₁
        fun st₂ _ => ∀ c ∈ (st'.store.resolver key).pending, st₂.Upholds c.binding c.constraint :=
      acts_forM (fun later hc => hc.later later) fun c hc st₂ later₂ => acts_checkCondition hforce
        (resolved later₂ (pending c hc).1) (resolved later₂ (pending c hc).2)
    refine conditions.kept.bind fun st₂ _ later₂ h₂ => .of_sound fun sound₂ => ?_
    obtain ⟨kept₂, upheld⟩ := h₂
    refine (acts_memoize fun n hn => shelf₁ n (kept₂.shelf hn)).kept.mono fun st₃ _ later₃ h₃ => ?_
    have kept₃ := kept₂.trans h₃.1 sound₂ later₃
    exact {
      settled := fun n hn => later₃.settled (later₂.settled ((settled₁ n).2 hn))
      shelf := fun n hn => shelf₁ n (kept₃.shelf hn)
      upheld := fun c hc => (upheld c hc).later later₃
      vouched := fun others m name args hn hnot => by
        refine kept₃.vouched (fun k n hshelf => ?_) hn (mt (settled₁ _).1 hnot)
        by_cases hk : k = key
        · exact shelf₁ n (hk ▸ hshelf)
        · exact others k n hk (kept₁.shelf hshelf) }

/-! ## Resolutions -/

/-- Expanding keeps the tables, and puts nothing on the shelves of other resolvers. -/
lemma tables_expanded {w : World} (sound : st.Sound) (later : (st.world key).Later w) {k : Nat}
    {r : Resolver} (hr : st.store.resolvers[k]? = some r) :
    ∃ r' : Resolver, (st.expanded key w).store.resolvers[k]? = some r' ∧
      r.expanded <+: r'.expanded := by
  by_cases hk : k = key
  · subst hk
    refine ⟨w.state.resolver, Stage.resolvers_expanded_self, ?_⟩
    have := later.table
    simpa [Stage.world, Resolver.restart, Store.resolver, hr] using this
  · refine ⟨r, ?_, List.prefix_rfl⟩
    have hlt : k < st.store.nextStamp := by
      by_contra hlt
      rw [sound.fresh.resolvers (Nat.le_of_not_lt hlt)] at hr
      cases hr
    rw [Stage.resolvers_expanded_of_ne hk, later.resolvers hlt]
    exact hr

lemma tidy_expanded {w : World} (sound : st.Sound) (later : (st.world key).Later w)
    (ready : w.Ready st.registry) (completed : (st.world key).Completed st.registry w)
    (whole : st.Whole) (tidy : st.Tidy) : (st.expanded key w).Tidy := by
  intro k haside
  by_cases hk : k = key
  · subst hk
    exact Stage.tidyAt_expanded sound later ready completed whole (tidy k haside)
  · exact Stage.tidyAt_expanded_of_ne sound later hk (tidy k haside)

/-- Expanding puts something on one shelf only. -/
lemma shelf_expanded {w : World} {k : Nat} {n : TypeExpr} (hk : k ≠ key)
    (hn : (st.expanded key w).shelf k n) : st.shelf k n := by
  simpa only [Stage.expanded, Function.update_of_ne hk] using hn

lemma tidy_cleared (other : ∀ k, k ≠ key → ¬ st.aside k → st.TidyAt k) :
    (st.cleared key).Tidy := by
  intro k haside
  by_cases hk : k = key
  · subst hk
    exact Stage.tidyAt_cleared _ k
  · exact Stage.tidyAt_cleared_of_ne hk (other k hk haside)

/-- A resolution whose expansion fails. -/
lemma acts_resolving_fail {x : Expansion α} {w : World} {fault : Fault}
    (hkey : key < st.store.nextStamp) (sound : st.Sound) (later : (st.world key).Later w)
    (ready : w.Ready st.registry) (hfault : fault.OfExpansion) (acyclic : ¬ fault.IsCyclic)
    (hrun : outcome x (st.world key).state = (.error fault, w.state)) {Post : Stage → α → Prop} :
    Acts (resolving force key x) st Post := by
  have expanded := sound.expanded hkey later ready
  have hrun : outcome (runExpansion key x) st.session =
      (.error fault, (st.expanded key w).session) := by
    rw [outcome_runExpansion, ← Stage.state_world, hrun]
    rfl
  cases hfault with
  | refused error =>
    refine .of_outcome ((st.expanded key w).cleared key)
      (by rw [outcome_resolving, outcome_bind, hrun]; rfl) rfl rfl
      ((Stage.later_expanded later).trans (Stage.later_cleared _ key))
      (expanded.cleared (Nat.lt_of_lt_of_le hkey later.next)) (fun whole tidy => ⟨?_, .inl ?_⟩)
      ?_ (by simp)
    · show (st.expanded key w).Whole
      exact Stage.whole_expanded sound later whole
    · exact tidy_cleared fun k hk haside =>
        Stage.tidyAt_expanded_of_ne sound later hk (tidy k haside)
    · rintro _ ⟨⟩
      refine ⟨id, fun _ k n hn => ?_, fun h => absurd h (Fault.ne_cyclic acyclic)⟩
      obtain ⟨hk, hn⟩ := Stage.shelf_cleared hn
      exact shelf_expanded hk hn
  | overflow =>
    exact .of_outcome (st.expanded key w)
      (by rw [outcome_resolving, outcome_bind, hrun]; rfl) rfl rfl
      (Stage.later_expanded later) expanded
      (fun whole _ => ⟨Stage.whole_expanded sound later whole, .inr rfl⟩)
      (by rintro _ ⟨⟩; exact ⟨id, nofun, nofun⟩) (by simp)

/-- What is in the world after an expansion is settled when its resolver has concluded. -/
lemma Concluded.nodes {w : World} (later : (st.world key).Later w)
    (concluded : Concluded key (st.expanded key w) st') {n : TypeExpr} (hn : w.nodes n) :
    st'.settled n := by
  refine concluded.settled n ?_
  rw [Stage.under_expanded later]
  exact hn

/-- What an expansion has noted has been checked when its resolver has concluded. -/
lemma Concluded.upholds {w : World} (concluded : Concluded key (st.expanded key w) st')
    {binding constraint : TypeExpr} (noted : w.Noted binding constraint) :
    st'.Upholds binding constraint := by
  obtain ⟨c, hc, rfl, rfl⟩ := noted
  refine concluded.upheld c ?_
  show c ∈ ((w.state.store.setResolver key w.state.resolver).resolver key).pending
  rwa [Store.resolver_setResolver]

/-- What success keeps from before an expansion to when its resolver has concluded. -/
lemma Concluded.kept {w : World} (sound : st.Sound) (later : (st.world key).Later w)
    (ready : w.Ready st.registry) (completed : (st.world key).Completed st.registry w)
    (later' : (st.expanded key w).Later st') (kept : (st.expanded key w).Kept st')
    (concluded : Concluded key (st.expanded key w) st') : st.Kept st' where
  tables hr := by
    obtain ⟨r', hr', hpre⟩ := tables_expanded sound later hr
    obtain ⟨r'', hr'', hpre'⟩ := kept.tables hr'
    exact ⟨r'', hr'', hpre.trans hpre'⟩
  shelf {k n} hn := by
    by_cases hk : k = key
    · subst hk
      exact absurd hn (concluded.shelf n)
    · exact shelf_expanded hk (kept.shelf hn)
  vouched swept m name args hn hnot := by
    by_cases hnode : w.nodes (.named m name args)
    -- a node that the expansion has made
    · obtain ⟨d, hd, -⟩ := ready.wired.declared hnode
      obtain ⟨-, conditions⟩ := completed hnode (not_or_intro hnot (swept key _))
      intro d' hd'
      rw [later'.lookup hd] at hd'
      cases hd'
      exact (conditions d hd).mono fun _ _ => concluded.upholds
    -- a node that a demand has made while a condition was checked
    · refine concluded.vouched (fun k n hk hn => swept k n (shelf_expanded hk hn)) hn ?_
      rw [Stage.under_expanded later]
      exact hnode

/-- A resolution whose expansion succeeds. -/
lemma acts_resolving_ok (hforce : Forces force) {x : Expansion α} {w : World} {a : α}
    (hkey : key < st.store.nextStamp) (haside : ¬ st.aside key) (sound : st.Sound)
    (later : (st.world key).Later w) (ready : w.Ready st.registry)
    (completed : (st.world key).Completed st.registry w)
    (hrun : outcome x (st.world key).state = (.ok a, w.state)) {Post : Stage → α → Prop}
    (post : ∀ st', (∀ n, w.nodes n → st'.settled n) →
      (∀ b c, w.Noted b c → st'.Upholds b c) → w.state.store.Precedes st'.store → Post st' a) :
    Acts (resolving force key x) st Post := by
  have hrun : outcome (runExpansion key x) st.session =
      (.ok a, (st.expanded key w).session) := by
    rw [outcome_runExpansion, ← Stage.state_world, hrun]
    rfl
  have hnext : key < (st.expanded key w).store.nextStamp := Nat.lt_of_lt_of_le hkey later.next
  obtain ⟨settled, shelf, later', sound', neat, fails, post'⟩ :=
    acts_conclude hforce hnext haside (sound.expanded hkey later ready)
  rcases hconc : outcome (conclude force key) (st.expanded key w).session with ⟨fault | ⟨⟩, s⟩
  · simp only [hconc] at later' sound' neat fails
    obtain ⟨apt, spared, cyclic⟩ := fails fault rfl
    have cyclic {names position} (h : fault = .resolution (.cyclic names position)) {since : Nat}
        (hs : st.Since since) : s.store.heap.Exhibits since names :=
      cyclic h (Stage.since_expanded later hs)
    have neat (whole : st.Whole) (tidy : st.Tidy) :=
      neat (Stage.whole_expanded sound later whole)
        (tidy_expanded sound later ready completed whole tidy)
    rcases report_spec (s.store.resolver key) fault with
      ⟨reported, hreg⟩ | ⟨silent, same, hreg⟩
    -- the resolver forgets what it has done
    · refine .of_outcome (Stage.cleared ⟨s, settled, shelf, st.own, st.active⟩ key)
        (by rw [outcome_resolving, outcome_bind, hrun]; simp only [outcome_bind, hconc, hreg]; rfl)
        rfl rfl
        (((Stage.later_expanded later).trans later').trans (Stage.later_cleared _ key))
        (sound'.cleared (Nat.lt_of_lt_of_le hnext later'.next)) (fun whole tidy => ?_) ?_ (by simp)
      · obtain ⟨whole', tidy' | hfault⟩ := neat whole tidy
        · exact ⟨whole', .inl (tidy_cleared fun k _ haside => tidy' k haside)⟩
        · cases hfault
          cases hreg
      · rintro _ ⟨⟩
        refine ⟨not_meetsReference_report apt, fun _ k n hn => ?_, fun h => ?_⟩
        · obtain ⟨hk, hn⟩ := Stage.shelf_cleared hn
          exact shelf_expanded hk (spared reported hn)
        · exact cyclic (eq_cyclic_of_report h)
    -- the resolver is left as it stands
    · refine .of_outcome ⟨s, settled, shelf, st.own, st.active⟩
        (by
          rw [outcome_resolving, outcome_bind, hrun]
          simp only [outcome_bind, hconc, same, hreg]
          rfl)
        rfl rfl
        ((Stage.later_expanded later).trans later') sound' (fun whole tidy => ?_) ?_ (by simp)
      · obtain ⟨whole', tidy'⟩ := neat whole tidy
        exact ⟨whole', tidy'.imp_right fun h => by rw [Except.error.inj h]⟩
      · rintro _ ⟨⟩
        exact ⟨apt, fun reported => absurd reported silent, cyclic⟩
  · simp only [hconc] at later' sound' neat post'
    obtain ⟨kept, concluded⟩ := post' () trivial
    have out : outcome (resolving force key x) st.session = (.ok a, s) := by
      rw [outcome_resolving, outcome_bind, hrun]
      simp only [outcome_bind, hconc, outcome_pure]
    refine .of_outcome ⟨s, settled, shelf, st.own, st.active⟩ out rfl rfl
      ((Stage.later_expanded later).trans later') sound' (fun whole tidy => ?_) (by simp)
      fun b hb => ?_
    · obtain ⟨whole', tidy'⟩ := neat (Stage.whole_expanded sound later whole)
        (tidy_expanded sound later ready completed whole tidy)
      exact ⟨whole', .inl (tidy'.resolve_right (by simp))⟩
    · cases hb
      exact ⟨concluded.kept sound later ready completed later' kept,
        post _ (fun _ => concluded.nodes later) (fun _ _ => concluded.upholds)
          ((Store.Precedes.setResolver _ _ _).trans later'.toPrecedes)⟩

/-- A resolution whose expansion keeps worlds closed: its answer is built over settled nodes, and
what it noted has been checked. -/
lemma acts_resolving (hforce : Forces force) {x : Expansion α} (hkey : key < st.store.nextStamp)
    (haside : ¬ st.aside key) {P : (TypeExpr → TypeExpr → Prop) → Nodes → Store → α → Prop}
    (hP : ∀ {D D' : TypeExpr → TypeExpr → Prop} {K L : Nodes} {s s' : Store} {a},
      (∀ b c, D b c → D' b c) → (∀ n, K n → L n) → s.Precedes s' → P D K s a → P D' L s' a)
    (hx : st.Sound → Expands st.registry x (st.world key)
      fun w a => P w.Noted w.nodes w.state.store a) :
    Acts (resolving force key x) st fun st' a => P st'.Upholds st'.settled st'.store a := by
  refine .of_sound fun sound => ?_
  obtain ⟨nodes, later, ready, hout⟩ := hx sound (sound.ready key)
  rcases hrun : outcome x (st.world key).state with ⟨fault | a, e⟩
  · simp only [hrun] at later ready hout
    exact acts_resolving_fail hkey sound later ready hout.1 hout.2 hrun
  · simp only [hrun] at later ready hout
    exact acts_resolving_ok hforce hkey haside sound later ready hout.1 hrun
      fun st' hsub noted precedes => hP noted hsub precedes hout.2

/-- Resolving what is suspended at a settled node. -/
lemma forces_forceAnew (hforce : Forces force) : Forces (forceAnew force) := by
  intro st m target bindings hnode
  refine .of_sound fun sound => acts_get.bind fun st' s _ h => ?_
  obtain ⟨rfl, rfl⟩ := h
  obtain ⟨x, hx, htarget, henv⟩ := sound.wired.suspended hnode
  have hplaced : m.stamp < st'.store.nextStamp := (sound.wired.placed hnode).2
  simp only [suspensionAt, stamp, mark, hx, Option.getD_some]
  refine (acts_resolving hforce hplaced (fun h => sound.apart (.inl hnode : st'.under 0 _) h.1)
    (P := fun _ K s (u : TypeExpr) => u.ResolvedOver K ∧
      u.same (x.target.instantiate x.env x.scope) = true ∧
      u.Home s x.scope (x.target.Guest x.env))
    (fun _ h precedes hu => ⟨hu.1.mono h, hu.2.1, hu.2.2.later precedes.next
      fun _ => precedes.suspensions⟩) fun _ => ?_).bind fun st₁ u later hu => ?_
  · exact (expands_expand x.scope (htarget.mono fun _ => .inl)
      fun f hf => (henv f hf).mono fun _ => .inl).mono fun _ _ _ h => ⟨h.resolved, h.same, h.home⟩
  · have hx₁ : st₁.store.suspensions[m.stamp]? = some x := (later.suspensions hplaced).trans hx
    exact (acts_setResult (later.settled hnode) hx₁ hu.1 hu.2.1 hu.2.2).bind
      fun st₂ _ later₂ _ => acts_pure (hu.1.mono fun _ => later₂.settled)

lemma forces_forceWithin (bound : Nat) : Forces (forceWithin bound) := by
  induction bound with
  | zero => exact fun st _ _ _ _ => acts_throw id id
  | succ bound ih =>
    intro st m target bindings hnode
    refine .of_sound fun sound => acts_get.bind fun st' s _ h => ?_
    obtain ⟨rfl, rfl⟩ := h
    cases hresult : st'.store.heap.result? (TypeExpr.deferred m target bindings).stamp with
    | none => exact forces_forceAnew ih st' m target bindings hnode
    | some result => exact acts_pure (sound.wired.result hnode hresult)

lemma forces_force : Forces Action.force :=
  forces_forceWithin depthBound

end Action

end TypeNotation
