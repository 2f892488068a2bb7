import TypeNotation.Proofs.Resolution.Suspensions
import TypeNotation.Proofs.Session.Advances
import TypeNotation.Proofs.Session.NormalForm

/-!
# Clients that write

A client *writes* if the types that it declares and resolves are all given as they are written, and
not put together from nodes of earlier results.  In the session of such a client only written
targets are suspended, in environments of direct types.  Resolving keeps it so, and never replaces
the result of a suspended target by another one.
-/

namespace TypeNotation

open TypeExpr Expansion

/-- A session where all declarations were written, and only written targets are suspended. -/
structure Session.Direct (s : Session) : Prop where
  written : s.registry.Written
  store : s.store.Direct

/-- What becomes of a direct session when types are resolved: it stays direct, and results stay the
same. -/
def Session.Ripens (s s' : Session) : Prop :=
  s.Direct → s'.Direct ∧
    ∀ n r, s.store.heap.result? n = some r → s'.store.heap.result? n = some r

/-- Neither the resolvers nor the memo count. -/
lemma Session.lasting_ripens : Session.Lasting Session.Ripens where
  refl _ h := ⟨h, fun _ _ => id⟩
  trans h h' direct :=
    ⟨(h' (h direct).1).1, fun n r hr => (h' (h direct).1).2 n r ((h direct).2 n r hr)⟩
  settle _ _ h := ⟨⟨h.written, h.store⟩, fun _ _ => id⟩
  clear _ _ h := ⟨⟨h.written, h.store⟩, fun _ _ => id⟩
  memoize _ _ h := ⟨⟨h.written, h.store⟩, fun _ _ => id⟩

namespace Registry

lemma written_initial {r : Registry} (h : r ∈ [empty, withPrelude]) : r.Written :=
  (over_initial h fun _ => False).declarations

end Registry

namespace Action

open Session

variable {α : Type} {st : Stage} {key : Nat} {s s' : Session} {force : TypeExpr → Action TypeExpr}

/-! ## Resolutions -/

lemma ripens_runExpansion {x : Expansion α} {Post : α → Prop}
    (hx : s.Direct → StaysDirect x Post) : s.Ripens (outcome (runExpansion key x) s).2 := by
  intro direct
  obtain ⟨store, results, -⟩ := hx direct ⟨s.store, (s.store.resolver key).restart⟩ direct.store
  rw [outcome_runExpansion]
  refine ⟨⟨direct.written, store⟩, fun n r hr => ?_⟩
  show (outcome x _).2.store.heap.results[n]? = some r
  rw [results]
  exact hr

/-- The result of a suspended target is set once. -/
lemma ripens_forceAnew (hforce : Forces force) (advancing : Advancing Ripens force) {m : Mark}
    {target : TypeExpr} {bindings : List (Field TypeExpr)}
    (hnode : st.settled (.deferred m target bindings))
    (unknown : st.store.heap.result? m.stamp = none) :
    Advances Ripens (forceAnew force (.deferred m target bindings)) st := by
  intro sound direct
  obtain ⟨x, hx, htarget, henv⟩ := sound.wired.suspended hnode
  have hplaced : m.stamp < st.store.nextStamp := (sound.wired.placed hnode).2
  have suspension : suspensionAt st.store (.deferred m target bindings) = x := by
    simp only [suspensionAt, stamp, mark, hx, Option.getD_some]
  let y : Expansion TypeExpr := expand st.registry x.env x.scope x.target
  have expands : Expands st.registry y (st.world m.stamp) (Result x.env x.scope x.target) :=
    expands_expand x.scope (htarget.mono fun _ => .inl)
      fun f hf => (henv f hf).mono fun _ => .inl
  have stays : st.session.Direct → StaysDirect y Direct := fun direct =>
    staysDirect_expand direct.written (direct.store hx).2 (direct.store hx).1
  have ripens : st.session.Ripens (outcome (resolving force m.stamp y) st.session).2 :=
    advances_resolving lasting_ripens hforce advancing hplaced
      (fun h => sound.apart (.inl hnode : st.under 0 _) h.1) (fun _ => expands)
      (fun _ => ripens_runExpansion stays) sound
  obtain ⟨direct', results⟩ := ripens direct
  simp only [forceAnew, outcome_bind, outcome_get, suspension, stamp, mark]
  rcases hout : outcome (resolving force m.stamp y) st.session with ⟨fault | r, s⟩ <;>
    rw [hout] at direct' results
  · exact ⟨direct', results⟩
  · refine ⟨⟨direct'.written, direct'.store⟩, fun n r' hr => ?_⟩
    -- a node that had a result before is another one
    have other : m.stamp ≠ n := by
      rintro rfl
      rw [unknown] at hr
      cases hr
    show (s.store.heap.setResult m.stamp r).result? n = some r'
    simpa [Heap.result?, Heap.setResult, Std.HashMap.getElem?_insert, other] using results n r' hr

lemma advancing_force : Advancing Ripens Action.force :=
  advancing_forceWithin lasting_ripens
    (fun hforce advancing _ _ _ _ hnode unknown => ripens_forceAnew hforce advancing hnode unknown)
    depthBound

/-! ## Questions -/

lemma ripens_ask {question : Heap → Query α}
    (hquestion : ∀ st', st.Later st' → st'.Sound → (question st'.store.heap).Free st'.settled) :
    Advances Ripens (ask question) st :=
  advances_askWith lasting_ripens forces_force advancing_force hquestion depthBound

lemma ripens_question {q : Question} (hq : ∀ t ∈ q.types, t.ResolvedOver st.settled) :
    Advances Ripens q.action st := by
  obtain ⟨β, question, answer, action, stays⟩ := exists_ask hq
  rw [action]
  have free : ∀ st', st.Later st' → st'.Sound → (question st'.store.heap).Free st'.settled :=
    fun st' later sound => (stays st' later sound).free
  exact advances_bind lasting_ripens (acts_ask (P := fun _ _ => True) free) (ripens_ask free)
    fun _ _ _ _ => advances_pure lasting_ripens _

/-! ## Calls -/

lemma staysDirect_instance {registry : Registry} (written : registry.Written) {t : TypeExpr}
    {bindings : List (Field TypeExpr)} (ht : t.Written)
    (hbindings : ∀ b ∈ bindings, b.type.Written) :
    StaysDirect (do
      let env ← bindings.mapM fun b =>
        return (⟨b.name, ← expand registry [] none b.type⟩ : Field TypeExpr)
      expand registry env none t) Direct := by
  have bound : StaysDirect (bindings.mapM fun b => do
      return (⟨b.name, ← expand registry [] none b.type⟩ : Field TypeExpr)) fun env =>
        List.Forall₂ (fun _ (f : Field TypeExpr) => f.type.Direct) bindings env :=
    staysDirect_mapM fun b hb => (staysDirect_expand written (fun _ hf => by cases hf)
      (hbindings b hb)).bind fun u hu => staysDirect_pure hu
  refine bound.bind fun env henv => staysDirect_expand written (fun f hf => ?_) ht
  obtain ⟨_, -, h⟩ := forall₂_exists_left henv f hf
  exact h

lemma ripens_resolveWith (hkey : key < st.store.nextStamp) (haside : ¬ st.aside key) {t : TypeExpr}
    {bindings : List (Field TypeExpr)} (ht : t.Written)
    (hbindings : ∀ b ∈ bindings, b.type.Written) :
    Advances Ripens (resolveWith key t bindings) st := by
  have expands : st.Sound → Expands st.registry _ (st.world key) _ := fun _ =>
    expands_instance (ht.over) fun b hb => (hbindings b hb).over
  have acts := acts_resolving forces_force hkey haside
    (P := fun D K _ u => Instantiates D K bindings t u)
    (fun conditions h _ hu => hu.mono conditions h) expands
  refine advances_get (advances_bind lasting_ripens acts ?_ fun st' u _ _ => ?_)
  · exact advances_resolving lasting_ripens forces_force advancing_force hkey haside expands
      fun _ => ripens_runExpansion fun direct => staysDirect_instance direct.written ht hbindings
  · exact advances_get (advances_pure lasting_ripens _)

/-- Declarations may be added that were written. -/
lemma ripens_updateRegistry {f : Registry → Except Conflict Registry}
    (hf : ∀ registry, st.registry.Written → f st.registry = .ok registry → registry.Written) :
    Advances Ripens (updateRegistry f) st := by
  intro _ direct
  rw [outcome_updateRegistry]
  cases hregistry : f st.registry with
  | error c => exact ⟨direct, fun _ _ => id⟩
  | ok registry => exact ⟨⟨hf registry direct.written hregistry, direct.store⟩, fun _ _ => id⟩

lemma ripens_load {ds : List Declaration} (hds : ∀ d ∈ ds, d.body.Written) :
    Advances Ripens (load ds) st := by
  refine ripens_updateRegistry fun registry written h => ?_
  obtain ⟨_, -, h⟩ := bind_eq_ok.1 h
  cases h
  exact Registry.forall_foldl_insert written hds

lemma ripens_newResolver (maxSteps maxDepth : Nat) :
    Advances Ripens (newResolver maxSteps maxDepth) st :=
  fun _ direct => ⟨⟨direct.written, direct.store⟩, fun _ _ => id⟩

lemma ripens_reading {result : Except SyntaxError α} : Advances Ripens (reading result) st := by
  cases result with
  | error e => exact advances_throw lasting_ripens _
  | ok a => exact advances_pure lasting_ripens a

lemma ripens_resolveText (text : String) : Advances Ripens (resolveText text) st :=
  advances_bind lasting_ripens acts_reading ripens_reading fun _ t _ h =>
    advances_bind lasting_ripens (acts_newResolver 10000 64) (ripens_newResolver 10000 64)
      fun _ _ _ unused => ripens_resolveWith unused.placed (fun aside => unused.foreign aside.1)
        (over_of_parseType h.2) (by simp)

lemma ripens_lookupMember (text name : String) : Advances Ripens (lookupMember text name) st := by
  refine advances_bind lasting_ripens (acts_resolveText text) (ripens_resolveText text)
    fun st' t _ ht => ripens_ask fun st'' later sound => ?_
  exact (stays_member? sound.wired depthBound (ht.1.mono fun _ => later.settled) name).free

end Action

/-! ## Clients -/

/-- A call whose types are all given as they are written. -/
def Call.Written : Call → Prop
  | declare d => d.body.Written
  | load ds => ∀ d ∈ ds, d.body.Written
  | resolve _ t bindings => t.Written ∧ ∀ b ∈ bindings, b.type.Written
  | loadText _ | newResolver .. | lookupMember .. | ask _ => True

namespace Client

/-- The clients that write: all types that they have declared or resolved were given as they are
written. -/
inductive Writes : Client → Prop
  | start {registry : Registry} (h : registry ∈ [.empty, .withPrelude]) : Writes (start registry)
  | call {c : Client} {call : Call} (h : Writes c) (can : c.CanMake call) (written : call.Written) :
    Writes (c.after call)

variable {c : Client} {st : Stage}

lemma Writes.reachable (h : c.Writes) : c.Reachable := by
  induction h with
  | start h => exact .start h
  | call _ can _ ih => exact .call ih can

open TypeNotation.Action Session in
/-- A written call keeps a session direct. -/
lemma On.ripens (on : c.On st) {call : Call} (active : st.active = call.resolver?)
    (can : c.CanMake call) (written : call.Written) : Advances Ripens call.action st := by
  have replies {α : Type} {x : Action α} {Mid : Stage → α → Prop} (reply : α → Reply)
      (acts : Acts x st Mid) (ripens : Advances Ripens x st) :
      Advances Ripens (do return reply (← x)) st :=
    advances_bind lasting_ripens acts ripens fun _ _ _ _ => advances_pure lasting_ripens _
  cases call with
  | declare d =>
    refine replies (fun _ => ⟨[], []⟩) (acts_declare (over_settled on.held can)) ?_
    refine ripens_updateRegistry fun registry known h => ?_
    rw [(Registry.declare_eq_ok.1 h).2]
    exact Registry.forall_insert known written
  | load ds =>
    exact replies (fun _ => ⟨[], []⟩) (acts_load fun d hd => over_settled on.held (can d hd))
      (ripens_load written)
  | loadText text =>
    refine replies (fun _ => ⟨[], []⟩) (acts_loadText text) ?_
    exact advances_bind lasting_ripens acts_reading ripens_reading fun st' ds _ h =>
      advances_bind lasting_ripens (acts_load (over_of_parse h.2)) (ripens_load (over_of_parse h.2))
        fun _ _ _ _ => advances_pure lasting_ripens ds
  | newResolver maxSteps maxDepth =>
    exact replies (fun key => ⟨[], [key]⟩) (acts_newResolver maxSteps maxDepth)
      (ripens_newResolver maxSteps maxDepth)
  | resolve key t bindings =>
    obtain ⟨placed, free⟩ := on.usable active key can.1 rfl
    exact replies (fun u => ⟨[u], []⟩) (acts_resolveWith placed free (over_settled on.held can.2.1)
      fun b hb => over_settled on.held (can.2.2 b hb))
      (ripens_resolveWith placed free written.1 written.2)
  | lookupMember text name =>
    exact replies (fun u => ⟨u.toList, []⟩) (acts_lookupMember text name)
      (ripens_lookupMember text name)
  | ask q =>
    have held : ∀ t ∈ q.types, t.ResolvedOver st.settled :=
      fun t ht => resolvedOver_settled on.held (can t ht)
    exact replies (fun us => ⟨us, []⟩) (acts_question held) (ripens_question held)

lemma session_after (c : Client) (call : Call) :
    (c.after call).session = (outcome call.action c.session).2 := by
  unfold after
  rcases outcome call.action c.session with ⟨fault | reply, s⟩ <;> rfl

/-- The session of a client that writes is direct. -/
lemma Writes.direct (h : c.Writes) : c.session.Direct := by
  induction h with
  | start h =>
    refine ⟨Registry.written_initial h, fun {n x} hx => ?_⟩
    have none : (∅ : Std.HashMap Nat Suspension)[n]? = none := Std.HashMap.getElem?_empty
    cases none.symm.trans hx
  | @call c call h can written ih =>
    obtain ⟨st, on⟩ := h.reachable.on
    have on := on.activate call.resolver?
    rw [session_after, ← on.session]
    exact (on.ripens rfl can written on.sound (by rw [on.session]; exact ih)).1

end Client

end TypeNotation
