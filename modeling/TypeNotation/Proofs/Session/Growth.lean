import TypeNotation.Proofs.Session.Memo
import TypeNotation.Proofs.Session.Writing

/-!
# Stages that grow

While a question is asked, suspended targets are resolved one after the other.  In the sessions of a
client that writes, the types that come of it are direct, and a target that has a result keeps it.
-/

namespace TypeNotation

open TypeExpr

namespace Stage

variable {st st' st'' : Stage}

/-- A sound stage with a direct session. -/
structure Ripe (st : Stage) : Prop where
  sound : st.Sound
  direct : st.session.Direct

/-- A later stage where results are still the same. -/
structure Grows (st st' : Stage) : Prop where
  later : st.Later st'
  ripe : st'.Ripe
  results : ∀ {n r}, st.store.heap.result? n = some r → st'.store.heap.result? n = some r

lemma Ripe.refl (ripe : st.Ripe) : st.Grows st :=
  ⟨.refl st, ripe, id⟩

lemma Grows.trans (h : st.Grows st') (h' : st'.Grows st'') : st.Grows st'' :=
  ⟨h.later.trans h'.later, h'.ripe, fun hr => h'.results (h.results hr)⟩

/-- Settled types stand for the same later. -/
lemma Later.unfold (later : st.Later st') (sound : st.Sound) {t : TypeExpr}
    (ht : t.ResolvedOver st.settled) : st'.store.heap.unfold t = st.store.heap.unfold t := by
  obtain ⟨n, hn⟩ := sound.grounded_of_resolvedOver ht
  obtain ⟨stamps, u, chain⟩ := hn.chain
  rw [chain.unfold_eq, (chain.later sound.wired (fun _ => later.bodies) ht).unfold_eq]

/-- A settled type that is direct stands for a direct one. -/
lemma Ripe.direct_unfold (ripe : st.Ripe) {t : TypeExpr} (ht : t.ResolvedOver st.settled)
    (direct : t.Direct) : (st.store.heap.unfold t).Direct := by
  obtain ⟨n, hn⟩ := ripe.sound.grounded_of_resolvedOver ht
  obtain ⟨stamps, u, chain⟩ := hn.chain
  rw [chain.unfold_eq]
  clear hn
  induction chain with
  | done _ => exact direct
  | @step m name args body u stamps hbody rest ih =>
    obtain ⟨d, hd, -, declared⟩ := ripe.sound.wired.declared ht.self
    obtain ⟨based, same⟩ := declared body hbody
    have applied : (d.applied args).Direct :=
      d.direct_applied (ripe.direct.written.lookup hd) fun a ha => direct.part ha
    exact ih based (applied.of_same same)

/-- What a written type with written bindings is resolved to is direct. -/
lemma Ripe.direct_instance (ripe : st.Ripe) {t w : TypeExpr} {bindings : List (Field TypeExpr)}
    (ht : t.Written) (hbindings : ∀ b ∈ bindings, b.type.Written)
    (hw : Action.Instantiates st.Upholds st.settled bindings t w) :
    (st.store.heap.unfold w).Direct := by
  obtain ⟨env, henv, hover, same, -⟩ := hw
  have bound : ∀ f ∈ env, f.type.Direct := fun f hf => by
    obtain ⟨b, hb, -, -, same⟩ := forall₂_exists_left henv f hf
    exact (direct_instantiate (by simp) none (hbindings b hb)).of_same same
  exact ripe.direct_unfold hover ((direct_instantiate bound none ht).of_same same)

end Stage

open Stage

namespace Action

variable {α : Type} {st : Stage}

/-- Resolving a suspended target makes a stage grow.  If it succeeds, then the target has a
result. -/
lemma grows_force (ripe : st.Ripe) {m : Mark} {target : TypeExpr}
    {bindings : List (Field TypeExpr)} (hnode : st.settled (.deferred m target bindings)) :
    ∃ settled shelf,
      let out := outcome (force (.deferred m target bindings)) st.session
      let st' : Stage := ⟨out.2, settled, shelf, st.own, st.active⟩
      st.Grows st' ∧ (out.1.isOk → (st'.store.heap.result? m.stamp).isSome) := by
  obtain ⟨settled, shelf, later, sound, -⟩ := forces_force st m target bindings hnode ripe.sound
  obtain ⟨direct, results⟩ := advancing_force st m target bindings hnode ripe.sound ripe.direct
  refine ⟨settled, shelf, ⟨later, ⟨sound, direct⟩, fun hr => results _ _ hr⟩, fun hok => ?_⟩
  cases hr : st.store.heap.result? m.stamp with
  | some r => exact Option.isSome_iff_exists.2 ⟨r, results _ _ hr⟩
  | none =>
    rcases hout : outcome (force (.deferred m target bindings)) st.session with ⟨fault | u, s⟩
    · rw [hout] at hok
      cases hok
    · exact Option.isSome_iff_exists.2 ⟨u, (handed_forceWithin hr hout).2⟩

/-- A question that demands nothing leaves the session as it is. -/
lemma outcome_askWith_of_undemanding {question : Heap → Query α} {s : Session} {answer : Query α}
    (h : question s.store.heap = answer) (undemanding : ∀ t, answer ≠ .error (.demand t))
    (demands : Nat) :
    outcome (askWith force question (demands + 1)) s = (answer.mapError faultOf, s) := by
  rw [outcome_askWith, h]
  cases answer with
  | ok a => rfl
  | error halt =>
    cases halt with
    | demand t => exact absurd rfl (undemanding t)
    | _ => rfl

end Action

end TypeNotation
