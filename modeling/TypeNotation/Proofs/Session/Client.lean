import TypeNotation.Proofs.Parser.Written
import TypeNotation.Proofs.Session.Loading
import TypeNotation.Proofs.Session.Resolving

/-!
# Clients

A client works on a session by calls, in any order: it declares names, makes resolvers, resolves
types with them, and asks questions about the types that it has been given.  A call may fail in any
way; the client goes on all the same.

What a client passes to a call is built from its own syntax and from the nodes of types that it has
been given; it cannot make nodes itself.  So every session that a client can bring about has a sound
stage in which all types that the client holds are settled.
-/

namespace TypeNotation

open TypeExpr Expansion

/-! ## Calls -/

/-- A question about types that have been resolved. -/
inductive Question where
  | isMember (openRecords : Bool) (v : Value) (t : TypeExpr)
  | isSubtype (openRecords : Bool) (a b : TypeExpr)
  | overlaps (openRecords : Bool) (a b : TypeExpr)
  | member (t : TypeExpr) (name : String)
  | members (t : TypeExpr)
  | spans (t : TypeExpr)
  | reveal (t : TypeExpr)

/-- A call of a client. -/
inductive Call where
  | declare (d : Declaration)
  | load (ds : List Declaration)
  | loadText (text : String)
  | newResolver (maxSteps maxDepth : Nat)
  | resolve (resolver : Nat) (t : TypeExpr) (bindings : List (Field TypeExpr))
  | lookupMember (text name : String)
  | ask (question : Question)

/-- What a call gives to the client that can be passed to further calls. -/
structure Reply where
  types : List TypeExpr
  resolvers : List Nat

namespace Question

/-- The types that a question is about. -/
def types : Question → List TypeExpr
  | isMember _ (.type a) t => [a, t]
  | isMember _ _ t | member t _ | members t | spans t | reveal t => [t]
  | isSubtype _ a b | overlaps _ a b => [a, b]

/-- The types that answering a question gives to the client. -/
def action : Question → Action (List TypeExpr)
  | isMember openRecords v t => do
    let _ ← Action.isMember openRecords v t
    return []
  | isSubtype openRecords a b => do
    let _ ← Action.isSubtype openRecords a b
    return []
  | overlaps openRecords a b => do
    let _ ← Action.overlaps openRecords a b
    return []
  | member t name => do
    return (← Action.member? t name).toList
  | members t => do
    let _ ← Action.members t
    return []
  | spans t => do
    let _ ← Action.spans t
    return []
  | reveal t => do
    return [← Action.reveal t]

end Question

namespace Call

/-- What a call does. -/
def action : Call → Action Reply
  | declare d => do
    Action.declare d
    return ⟨[], []⟩
  | load ds => do
    Action.load ds
    return ⟨[], []⟩
  | loadText text => do
    let _ ← Action.loadText text
    return ⟨[], []⟩
  | newResolver maxSteps maxDepth => do
    return ⟨[], [← Action.newResolver maxSteps maxDepth]⟩
  | resolve resolver t bindings => do
    return ⟨[← Action.resolveWith resolver t bindings], []⟩
  | lookupMember text name => do
    return ⟨(← Action.lookupMember text name).toList, []⟩
  | ask question => do
    return ⟨← question.action, []⟩

/-- The resolver of the client that a call uses. -/
def resolver? : Call → Option Nat
  | resolve resolver _ _ => some resolver
  | _ => none

end Call

/-- A client: the session that it works on, the resolvers that it has made, and the types that it
has been given. -/
structure Client where
  session : Session
  resolvers : List Nat
  held : List TypeExpr

namespace Client

/-- A client that has made no call yet. -/
def start (registry : Registry) : Client :=
  ⟨.ofRegistry registry, [], []⟩

/-- The nodes that occur in the types that a client holds. -/
def nodes (c : Client) : Nodes :=
  fun n => ∃ t ∈ c.held, n ∈ t.subterms

/-- A client after a call. -/
def after (c : Client) (call : Call) : Client :=
  match outcome call.action c.session with
  | (.ok reply, session) => ⟨session, c.resolvers ++ reply.resolvers, c.held ++ reply.types⟩
  | (.error _, session) => ⟨session, c.resolvers, c.held⟩

/-- A call that a client can make: with resolvers that it has made, declarations and types that are
built over the nodes that it holds, and questions about resolved types. -/
def CanMake (c : Client) : Call → Prop
  | .declare d => d.body.Over c.nodes
  | .load ds => ∀ d ∈ ds, d.body.Over c.nodes
  | .loadText _ | .newResolver .. | .lookupMember .. => True
  | .resolve resolver t bindings =>
    resolver ∈ c.resolvers ∧ t.Over c.nodes ∧ ∀ b ∈ bindings, b.type.Over c.nodes
  | .ask question => ∀ t ∈ question.types, t.ResolvedOver c.nodes

/-- The resolvers that a call may use: its own, and those that belong to suspended nodes.  Any other
resolver of the client is left alone. -/
def MayUse (c : Client) (call : Call) (key : Nat) : Prop :=
  key ∈ c.resolvers → call.resolver? = some key

/-- The clients that there can be: those that have made some calls, one after the other, on a new
registry. -/
inductive Reachable : Client → Prop
  | start {registry : Registry} (h : registry ∈ [.empty, .withPrelude]) :
    Reachable (start registry)
  | call {c : Client} {call : Call} (h : Reachable c) (can : c.CanMake call) :
    Reachable (c.after call)

end Client

/-! ## Registries -/

namespace Registry

lemma Over.insert {K : Nodes} {r : Registry} (hr : r.Over K) {d : Declaration}
    (hd : d.body.Over K) : (r.insert d).Over K := by
  unfold Registry.insert
  split
  · exact hr
  · refine ⟨fun e he => ?_, by simp⟩
    rcases mem_assign he with he | rfl
    · exact hr.declarations e he
    · exact hd

lemma Over.foldl_insert {K : Nodes} {ds : List Declaration} {r : Registry} (hr : r.Over K)
    (hds : ∀ d ∈ ds, d.body.Over K) : (ds.foldl Registry.insert r).Over K := by
  induction ds generalizing r with
  | nil => exact hr
  | cons d ds ih =>
    rw [List.forall_mem_cons] at hds
    exact ih (hr.insert hds.1) hds.2

lemma over_empty (K : Nodes) : Registry.empty.Over K where
  declarations d hd := by
    simp only [empty, builtins, List.map_cons, List.map_nil, List.mem_cons, List.not_mem_nil,
      or_false] at hd
    rcases hd with rfl | rfl
    · exact throughout_iff.2 ⟨.inl rfl, by simp [parts]⟩
    · exact throughout_iff.2 ⟨.inr rfl, by simp [parts]⟩
  memo t ht := by cases ht

lemma over_withPrelude (K : Nodes) : Registry.withPrelude.Over K := by
  unfold withPrelude
  cases h : parse preludeText with
  | error e => exact over_empty K
  | ok ds => exact (over_empty K).foldl_insert (over_of_parse h)

lemma over_initial {r : Registry} (h : r ∈ [empty, withPrelude]) (K : Nodes) : r.Over K := by
  rcases List.mem_cons.1 h with h | h
  · rw [h]
    exact over_empty K
  · rw [List.mem_singleton.1 h]
    exact over_withPrelude K

end Registry

/-! ## What calls do -/

namespace Action

variable {α : Type} {st : Stage}

/-- A registry may be replaced by one that knows at least the same declarations. -/
lemma acts_updateRegistry {f : Registry → Except Conflict Registry}
    (hf : ∀ registry, st.registry.Over st.settled → f st.registry = .ok registry →
      registry.Over st.settled ∧
        ∀ name d, st.registry.lookup name = some d → registry.lookup name = some d) :
    Acts (updateRegistry f) st fun _ _ => True := by
  refine .of_sound fun sound => ?_
  cases hregistry : f st.registry with
  | error c =>
    have out : outcome (updateRegistry f) st.session = (.error (.conflict c), st.session) := by
      rw [outcome_updateRegistry]
      simp only [hregistry]
    exact .of_outcome st out rfl rfl (.refl st) sound (fun whole tidy => ⟨whole, .inl tidy⟩)
      (by rintro _ ⟨⟩; exact ⟨id, fun _ _ _ hn => hn, nofun⟩) (by simp)
  | ok registry =>
    obtain ⟨known, lookup⟩ := hf registry sound.known hregistry
    let st' : Stage := { st with session := ⟨registry, st.store⟩ }
    have out : outcome (updateRegistry f) st.session = (.ok (), st'.session) := by
      rw [outcome_updateRegistry]
      simp only [hregistry]
      rfl
    have sound' : st'.Sound := { sound with
      known := known
      wired := sound.wired.registry_mono lookup
      shelved := fun key => (sound.shelved key).registry_mono lookup }
    refine .of_outcome st' out rfl rfl ⟨.refl _, fun h => h, fun {name d} => lookup name d,
      fun h => .inl ⟨_, h⟩⟩ sound' (fun whole tidy => ⟨whole, .inl tidy⟩) (by simp)
      fun _ _ => ⟨?_, trivial⟩
    exact ⟨fun h => ⟨_, h, List.prefix_rfl⟩, fun h => h, fun _ _ _ _ hn hnot => absurd hn hnot⟩

lemma acts_load {ds : List Declaration} (hds : ∀ d ∈ ds, d.body.Over st.settled) :
    Acts (load ds) st fun _ _ => True := by
  refine acts_updateRegistry fun registry known h => ⟨?_, fun _ _ => Registry.lookup_of_load h⟩
  obtain ⟨_, -, h⟩ := bind_eq_ok.1 h
  cases h
  exact known.foldl_insert hds

lemma acts_declare {d : Declaration} (hd : d.body.Over st.settled) :
    Acts (declare d) st fun _ _ => True := by
  refine acts_updateRegistry fun registry known h => ⟨?_, fun _ _ => Registry.lookup_of_declare h⟩
  rw [(Registry.declare_eq_ok.1 h).2]
  exact known.insert hd

/-- Reading does not touch the session. -/
lemma acts_reading {result : Except SyntaxError α} :
    Acts (reading result) st fun st' a => st' = st ∧ result = .ok a := by
  cases result with
  | error e => exact acts_throw id id
  | ok a => exact acts_pure ⟨rfl, rfl⟩

lemma acts_loadText (text : String) : Acts (loadText text) st fun _ _ => True :=
  acts_reading.bind fun _ _ _ h => (acts_load (over_of_parse h.2)).bind fun _ _ _ _ =>
    acts_pure trivial

/-! ### Resolvers -/

/-- The session with a new resolver. -/
def withResolver (s : Session) (maxSteps maxDepth : Nat) : Session :=
  { s with store :=
    { s.store.setResolver s.store.nextStamp (.ofBudget maxSteps maxDepth) with
      nextStamp := s.store.nextStamp + 1 } }

lemma outcome_newResolver (maxSteps maxDepth : Nat) (s : Session) :
    outcome (newResolver maxSteps maxDepth) s =
      (.ok s.store.nextStamp, withResolver s maxSteps maxDepth) := rfl

/-- A resolver that belongs to no node and has not done anything yet. -/
structure Unused (st : Stage) (key : Nat) : Prop where
  placed : key < st.store.nextStamp
  foreign : ¬ st.own key
  apart : ∀ {k n}, st.under k n → n.stamp ≠ key

lemma acts_newResolver (maxSteps maxDepth : Nat) :
    Acts (newResolver maxSteps maxDepth) st Unused := by
  refine .of_sound fun sound => ?_
  let st' : Stage := { st with session := withResolver st.session maxSteps maxDepth }
  have other : ∀ {k : Nat}, k ≠ st.store.nextStamp →
      st'.store.resolvers[k]? = st.store.resolvers[k]? := fun hk => by
    show (Store.setResolver _ _ _).resolvers[_]? = _
    rw [Store.getElem?_setResolver, if_neg hk]
  have self : st'.store.resolvers[st.store.nextStamp]? = some (.ofBudget maxSteps maxDepth) := by
    show (Store.setResolver _ _ _).resolvers[_]? = _
    rw [Store.getElem?_setResolver, if_pos rfl]
  have same : ∀ {k : Nat} {r : Resolver}, st.store.resolvers[k]? = some r →
      st'.store.resolvers[k]? = some r := fun {k r} hr => by
    rw [other]
    · exact hr
    · rintro rfl
      rw [sound.fresh.resolvers (Nat.le_refl _)] at hr
      cases hr
  have sound' : st'.Sound := { sound with
    fresh := ⟨fun hn => sound.fresh.bodies (Nat.le_of_succ_le hn),
      fun hn => sound.fresh.results (Nat.le_of_succ_le hn), fun {n} hn => by
        have hn : st.store.nextStamp + 1 ≤ n := hn
        rw [other (by omega)]
        exact sound.fresh.resolvers (Nat.le_of_succ_le hn)⟩
    wired := sound.wired.later (Nat.le_succ _) (fun _ _ => rfl) (fun _ _ => rfl) fun _ _ => rfl
    shelved := fun key => (sound.shelved key).later (Nat.le_succ _) (fun _ _ => rfl)
      (fun _ _ => rfl) fun _ _ => rfl
    grounded := sound.grounded
    resolvers := fun {k r} hr => by
      by_cases hk : k = st.store.nextStamp
      · subst hk
        rw [self] at hr
        cases hr
        constructor <;> simp [Resolver.ofBudget]
      · rw [other hk] at hr
        exact sound.resolvers hr
    owned := fun {k n} hn => by
      obtain ⟨r, hr, hmem⟩ := sound.owned hn
      exact ⟨r, same hr, hmem⟩
    own := fun hk => Nat.lt_succ_of_lt (sound.own hk) }
  refine .of_outcome st' (outcome_newResolver maxSteps maxDepth st.session) rfl rfl
    ⟨⟨Nat.le_succ _, fun _ => rfl, fun _ => rfl, fun hr => ⟨_, hr, same_self _⟩⟩, fun h => h,
      fun h => h, fun h => .inl ⟨_, h⟩⟩ sound'
    (fun whole tidy => ⟨whole, .inl fun k haside r hr t ht => ?_⟩) (by simp) ?_
  · by_cases hk : k = st.store.nextStamp
    · subst hk
      rw [self] at hr
      cases hr
      simp [Resolver.ofBudget] at ht
    · rw [other hk] at hr
      exact tidy k haside r hr t ht
  · rintro key ⟨⟩
    refine ⟨⟨fun hr => ⟨_, same hr, List.prefix_rfl⟩, fun h => h,
      fun _ _ _ _ hn hnot => absurd hn hnot⟩, Nat.lt_succ_self _,
      fun h => absurd (sound.own h) (Nat.lt_irrefl _), fun {k n} hn => ?_⟩
    exact Nat.ne_of_lt ((sound.shelved k).placed hn).2

/-! ### Resolutions and questions -/

/-- An environment that binds the names of some bindings to instances of their types, built over a
set of nodes. -/
abbrev Binds (K : Nodes) (bindings : List (Field TypeExpr)) (env : Env) : Prop :=
  List.Forall₂ (fun (b f : Field TypeExpr) => f.name = b.name ∧ f.type.ResolvedOver K ∧
    f.type.same (b.type.instantiate [] none) = true) bindings env

/-- What a resolution makes of a type with bindings, before it is unfolded: an instance of the type,
built over a set of nodes, in an environment of instances of the bindings.  The conditions of the
type are discharged there. -/
def Instantiates (D : TypeExpr → TypeExpr → Prop) (K : Nodes) (bindings : List (Field TypeExpr))
    (t w : TypeExpr) : Prop :=
  ∃ env : Env, Binds K bindings env ∧ w.ResolvedOver K ∧ w.same (t.instantiate env none) = true ∧
    t.Discharged D env none

lemma Binds.mono {K L : Nodes} (h : ∀ n, K n → L n) {bindings : List (Field TypeExpr)} {env : Env}
    (henv : Binds K bindings env) : Binds L bindings env :=
  henv.imp fun _ _ hf => ⟨hf.1, hf.2.1.mono h, hf.2.2⟩

lemma Instantiates.mono {D D' : TypeExpr → TypeExpr → Prop} {K L : Nodes}
    (conditions : ∀ b c, D b c → D' b c) (h : ∀ n, K n → L n) {bindings : List (Field TypeExpr)}
    {t w : TypeExpr} (hw : Instantiates D K bindings t w) : Instantiates D' L bindings t w := by
  obtain ⟨env, henv, hover, hsame, discharged⟩ := hw
  exact ⟨env, henv.mono h, hover.mono h, hsame, discharged.mono conditions⟩

lemma expands_instance {registry : Registry} {w : World} {t : TypeExpr}
    {bindings : List (Field TypeExpr)} (ht : t.Over w.nodes)
    (hbindings : ∀ b ∈ bindings, b.type.Over w.nodes) :
    Expands registry (do
      let env ← bindings.mapM fun b =>
        return (⟨b.name, ← expand registry [] none b.type⟩ : Field TypeExpr)
      expand registry env none t) w fun w' u =>
        Instantiates w'.Noted w'.nodes bindings t u := by
  have envs : Expands registry (bindings.mapM fun b => do
      return (⟨b.name, ← expand registry [] none b.type⟩ : Field TypeExpr)) w
      fun w' env => Binds w'.nodes bindings env :=
    expands_mapM (P := fun w' (b f : Field TypeExpr) => f.name = b.name ∧
        f.type.ResolvedOver w'.nodes ∧ f.type.same (b.type.instantiate [] none) = true)
      (fun _ _ _ _ later h => ⟨h.1, h.2.1.mono fun _ => later.nodes, h.2.2⟩)
      fun b hb w' later => (expands_expand none ((hbindings b hb).mono fun _ => later.nodes)
        fun f hf => by cases hf).bind fun _ u _ hu => expands_pure ⟨rfl, hu.resolved, hu.same⟩
  refine envs.bind fun w₁ env later henv => ?_
  have envOver : Env.Over w₁.nodes env := fun f hf => by
    obtain ⟨_, -, h⟩ := forall₂_exists_left henv f hf
    exact h.2.1
  refine (expands_expand none (ht.mono fun _ => later.nodes) envOver).mono fun w₂ u later' hu => ?_
  exact ⟨env, henv.mono fun _ => later'.nodes, hu.resolved, hu.same, hu.noted⟩

/-- A resolution of what is built over settled nodes gives a settled type: the unfolding of an
instance. -/
lemma acts_resolveWith {key : Nat} (hkey : key < st.store.nextStamp) (haside : ¬ st.aside key)
    {t : TypeExpr} {bindings : List (Field TypeExpr)} (ht : t.Over st.settled)
    (hbindings : ∀ b ∈ bindings, b.type.Over st.settled) :
    Acts (resolveWith key t bindings) st fun st' u => u.ResolvedOver st'.settled ∧
      ∃ w, u = st'.store.heap.unfold w ∧ Instantiates st'.Upholds st'.settled bindings t w := by
  refine acts_get.bind fun st' s _ h => ?_
  obtain ⟨rfl, rfl⟩ := h
  refine (acts_resolving forces_force hkey haside
    (P := fun D K _ u => Instantiates D K bindings t u) (fun conditions h _ hu =>
      hu.mono conditions h) fun _ => expands_instance (ht.mono fun _ => .inl)
      fun b hb => (hbindings b hb).mono fun _ => .inl).bind fun st₁ w later hw => ?_
  refine .of_sound fun sound => acts_get.bind fun st₂ s _ h => ?_
  obtain ⟨rfl, rfl⟩ := h
  have hover : w.ResolvedOver st₂.settled := by
    obtain ⟨-, -, hover, -, -⟩ := hw
    exact hover
  exact acts_pure ⟨resolvedOver_unfold sound.wired hover, w, rfl, hw⟩

/-- Asking about settled types. -/
lemma acts_ask {question : Heap → Query α} {P : Nodes → α → Prop}
    (hquestion : ∀ st', st.Later st' → st'.Sound →
      (question st'.store.heap).Stays st'.settled (P st'.settled)) :
    Acts (ask question) st fun st' a => P st'.settled a :=
  (acts_askWith forces_force hquestion depthBound).mono fun _ _ _ h => h.1

lemma acts_resolveText (text : String) :
    Acts (resolveText text) st fun st' u => u.ResolvedOver st'.settled ∧
      ∃ t w, parseType text = .ok t ∧ u = st'.store.heap.unfold w ∧
        Instantiates st'.Upholds st'.settled [] t w := by
  refine acts_reading.bind fun st₁ t _ h => (acts_newResolver 10000 64).bind
    fun st₂ key _ hkey => (acts_resolveWith hkey.placed (fun h => hkey.foreign h.1)
      (over_of_parseType h.2) (by simp)).mono fun st' u _ hu => ?_
  obtain ⟨based, w, hw, hinst⟩ := hu
  exact ⟨based, t, w, h.2, hw, hinst⟩

lemma acts_lookupMember (text name : String) :
    Acts (lookupMember text name) st fun st' (u : Option TypeExpr) =>
      ∀ t ∈ u, t.ResolvedOver st'.settled := by
  refine (acts_resolveText text).bind fun st₁ t _ ht => ?_
  exact acts_ask (P := fun K (u : Option TypeExpr) => ∀ t ∈ u, t.ResolvedOver K)
    fun st' later sound =>
    stays_member? sound.wired depthBound (ht.1.mono fun _ => later.settled) name

/-- A question is put to the heap.  It stays within reach, and so do the types that its answer
gives.
-/
lemma exists_ask {q : Question} (hq : ∀ t ∈ q.types, t.ResolvedOver st.settled) :
    ∃ (β : Type) (question : Heap → Query β) (answer : β → List TypeExpr),
      q.action = (do return answer (← ask question)) ∧
        ∀ st', st.Later st' → st'.Sound → (question st'.store.heap).Stays st'.settled
          fun b => ∀ t ∈ answer b, t.ResolvedOver st'.settled := by
  have nothing (K : Nodes) : ∀ t ∈ ([] : List TypeExpr), t.ResolvedOver K := by simp
  cases q with
  | isMember openRecords v t =>
    have ht : t ∈ (Question.isMember openRecords v t).types := by
      cases v <;> simp [Question.types]
    refine ⟨Bool, _, fun _ => [], rfl, fun st' later sound => ?_⟩
    have settled := (hq t ht).mono fun _ => later.settled
    cases v with
    | type a =>
      exact (free_isSubtype sound.wired openRecords depthBound
        ((hq a (by simp [Question.types])).mono fun _ => later.settled) settled).mono
          fun _ _ => nothing _
    | _ =>
      exact (free_contains sound.wired openRecords depthBound _ settled Bounds.all_nil).mono
        fun _ _ => nothing _
  | isSubtype openRecords a b =>
    simp only [Question.types, List.forall_mem_cons] at hq
    refine ⟨Bool, _, fun _ => [], rfl, fun st' later sound => ?_⟩
    exact (free_isSubtype sound.wired openRecords depthBound (hq.1.mono fun _ => later.settled)
      (hq.2.1.mono fun _ => later.settled)).mono fun _ _ => nothing _
  | overlaps openRecords a b =>
    simp only [Question.types, List.forall_mem_cons] at hq
    refine ⟨Bool, _, fun _ => [], rfl, fun st' later sound => ?_⟩
    exact (free_overlaps sound.wired openRecords depthBound (hq.1.mono fun _ => later.settled)
      (hq.2.1.mono fun _ => later.settled)).mono fun _ _ => nothing _
  | member t name =>
    simp only [Question.types, List.forall_mem_singleton] at hq
    refine ⟨Option TypeExpr, _, Option.toList, rfl, fun st' later sound => ?_⟩
    exact (stays_member? sound.wired depthBound (hq.mono fun _ => later.settled) name).mono
      fun b hb u hu => hb u (Option.mem_toList.1 hu)
  | members t =>
    simp only [Question.types, List.forall_mem_singleton] at hq
    refine ⟨List String, _, fun _ => [], rfl, fun st' later sound => ?_⟩
    exact (free_members sound.wired depthBound (hq.mono fun _ => later.settled)).mono
      fun _ _ => nothing _
  | spans t =>
    refine ⟨List Span, _, fun _ => [], rfl, fun st' _ _ => ?_⟩
    exact (free_spans st'.store.heap depthBound t).mono fun _ _ => nothing _
  | reveal t =>
    simp only [Question.types, List.forall_mem_singleton] at hq
    refine ⟨TypeExpr, _, ([·]), rfl, fun st' later sound => ?_⟩
    simpa only [List.forall_mem_singleton] using
      stays_reveal sound.wired (hq.mono fun _ => later.settled)

lemma acts_question {q : Question} (hq : ∀ t ∈ q.types, t.ResolvedOver st.settled) :
    Acts q.action st fun st' (us : List TypeExpr) => ∀ t ∈ us, t.ResolvedOver st'.settled := by
  obtain ⟨β, question, answer, action, stays⟩ := exists_ask hq
  rw [action]
  exact (acts_ask (P := fun K b => ∀ t ∈ answer b, t.ResolvedOver K) stays).bind
    fun _ b _ hb => acts_pure hb

end Action

/-! ## Clients on stages -/

/-- A stage that a client works on: all types that it holds are settled, and the resolvers that it
has made are its own. -/
structure Client.On (c : Client) (st : Stage) : Prop where
  session : st.session = c.session
  sound : st.Sound
  own : ∀ {key}, st.own key ↔ key ∈ c.resolvers
  held : ∀ t ∈ c.held, t.ResolvedOver st.settled

namespace Client

variable {c : Client} {st : Stage}

section Held

variable (held : ∀ t ∈ c.held, t.ResolvedOver st.settled)
include held

/-- What is built over the nodes that a client holds is built over settled nodes. -/
lemma settled_of_nodes {n : TypeExpr} (href : n.isReferring) (hn : c.nodes n) : st.settled n := by
  obtain ⟨t, ht, hn⟩ := hn
  have := held t ht n hn
  cases n <;> simp only [isReferring, Bool.false_eq_true] at href <;> exact this

lemma over_settled {t : TypeExpr} (ht : t.Over c.nodes) : t.Over st.settled :=
  Throughout.mono ht fun u hu => by
    cases u <;> first | exact settled_of_nodes held rfl hu | exact hu

lemma resolvedOver_settled {t : TypeExpr} (ht : t.ResolvedOver c.nodes) :
    t.ResolvedOver st.settled :=
  Throughout.mono ht fun u hu => by
    cases u <;> first | exact settled_of_nodes held rfl hu | exact hu

end Held

/-- What the reply to a call consists of: settled types, and unused resolvers. -/
def Given (st : Stage) (reply : Reply) : Prop :=
  (∀ t ∈ reply.types, t.ResolvedOver st.settled) ∧ ∀ key ∈ reply.resolvers, Action.Unused st key

/-- Every call that a client can make leads from a stage where all that it holds is settled to a
later one, if the resolver that the call names may be used. -/
lemma acts_call (held : ∀ t ∈ c.held, t.ResolvedOver st.settled) {call : Call}
    (usable : ∀ key ∈ c.resolvers, call.resolver? = some key →
      key < st.store.nextStamp ∧ ¬ st.aside key)
    (can : c.CanMake call) : Action.Acts call.action st Given := by
  have nothing (st' : Stage) : Given st' ⟨[], []⟩ := ⟨by simp, by simp⟩
  cases call with
  | declare d =>
    exact (Action.acts_declare (over_settled held can)).bind fun st' _ _ _ =>
      Action.acts_pure (nothing st')
  | load ds =>
    exact (Action.acts_load fun d hd => over_settled held (can d hd)).bind fun st' _ _ _ =>
      Action.acts_pure (nothing st')
  | loadText text =>
    exact (Action.acts_loadText text).bind fun st' _ _ _ => Action.acts_pure (nothing st')
  | newResolver maxSteps maxDepth =>
    exact (Action.acts_newResolver maxSteps maxDepth).bind fun st' key _ hkey =>
      Action.acts_pure ⟨by simp, by simpa using hkey⟩
  | resolve key t bindings =>
    obtain ⟨placed, free⟩ := usable key can.1 rfl
    refine (Action.acts_resolveWith placed free (over_settled held can.2.1)
      fun b hb => over_settled held (can.2.2 b hb)).bind fun st' u _ hu =>
        Action.acts_pure ⟨?_, by simp⟩
    simpa using hu.1
  | lookupMember text name =>
    exact (Action.acts_lookupMember text name).bind fun st' u _ hu =>
      Action.acts_pure ⟨by simpa using hu, by simp⟩
  | ask q =>
    exact (Action.acts_question fun t ht => resolvedOver_settled held (can t ht)).bind
      fun st' us _ hus => Action.acts_pure ⟨hus, by simp⟩

/-- A client may use the resolver that is active. -/
lemma On.usable (on : c.On st) {call : Call} (active : st.active = call.resolver?) :
    ∀ key ∈ c.resolvers, call.resolver? = some key → key < st.store.nextStamp ∧ ¬ st.aside key :=
  fun _ hkey named =>
    ⟨on.sound.own (on.own.2 hkey), fun aside => aside.2 (active.trans named)⟩

/-- It does not matter which resolver was active. -/
lemma On.activate (on : c.On st) (active : Option Nat) : c.On { st with active } where
  session := on.session
  sound := { on.sound with }
  own := on.own
  held := on.held

/-- Unused resolvers may be given to the client. -/
lemma sound_given (sound : st.Sound) {keys : List Nat}
    (unused : ∀ key ∈ keys, Action.Unused st key) :
    Stage.Sound { st with own := fun key => st.own key ∨ key ∈ keys } := { sound with
  own := fun {key} hkey => hkey.elim sound.own fun h => (unused key h).placed
  apart := fun {k n} hn hown => by
    rcases hown with hown | hown
    · exact sound.apart hn hown
    · exact (unused _ hown).apart hn rfl }

lemma On.tidy_iff (on : c.On st) {call : Call} (active : st.active = call.resolver?) :
    st.Tidy ↔ ∀ key, c.MayUse call key → st.TidyAt key := by
  have mayUse (key : Nat) : ¬ st.aside key ↔ c.MayUse call key := by
    simp only [Stage.aside, MayUse, on.own, active, not_and, ne_eq, not_not]
  simp only [Stage.Tidy, mayUse]

/-- After a call the client works on a later stage.  If all that was settled was finished, and so
were the tables of the resolvers that the call may use, then both still are, or the call ended in an
overflow. -/
lemma On.after (on : c.On st) {call : Call} (active : st.active = call.resolver?)
    (can : c.CanMake call) :
    ∃ st', (c.after call).On st' ∧ st.Later st' ∧
      (st.Whole → st.Tidy → st'.Whole ∧ ((∀ key, c.MayUse call key → st'.TidyAt key) ∨
        (outcome call.action c.session).1 = .error (.arithmetic .overflow))) ∧
      ((outcome call.action c.session).1.isOk → st.Kept st') := by
  obtain ⟨settled, shelf, later, sound, neat, -, post⟩ :=
    acts_call on.held (on.usable active) can on.sound
  have own : ∀ {key}, st.own key ↔ key ∈ c.resolvers := on.own
  rw [on.session] at later sound neat post
  unfold Client.after
  rcases hout : outcome call.action c.session with ⟨fault | reply, s⟩
  · rw [hout] at later sound neat
    have on' : Client.On ⟨s, c.resolvers, c.held⟩ ⟨s, settled, shelf, st.own, st.active⟩ :=
      ⟨rfl, sound, own, fun t ht => (on.held t ht).mono fun _ => later.settled⟩
    refine ⟨_, on', later, fun whole tidy => ?_, fun h => by cases h⟩
    obtain ⟨whole', tidy'⟩ := neat whole tidy
    exact ⟨whole', tidy'.imp (on'.tidy_iff active).1 fun h => by rw [Except.error.inj h]⟩
  · rw [hout] at later sound neat post
    obtain ⟨kept, types, unused⟩ := post reply rfl
    let st' : Stage := ⟨s, settled, shelf, fun key => st.own key ∨ key ∈ reply.resolvers, st.active⟩
    have sound' : st'.Sound := sound_given sound unused
    have later' : st.Later st' := ⟨later.toPrecedes, later.settled, later.lookup, later.made⟩
    have kept' : st.Kept st' := ⟨kept.tables, kept.shelf, kept.vouched⟩
    have own' {key : Nat} : st'.own key ↔ key ∈ c.resolvers ++ reply.resolvers := by
      rw [List.mem_append, ← own]
    have held' : ∀ t ∈ c.held ++ reply.types, t.ResolvedOver st'.settled := by
      intro t ht
      rcases List.mem_append.1 ht with ht | ht
      · exact (on.held t ht).mono fun _ => later.settled
      · exact types t ht
    have neat' (whole : st.Whole) (tidy : st.Tidy) :
        st'.Whole ∧ ∀ key, c.MayUse call key → st'.TidyAt key := by
      obtain ⟨whole', tidy'⟩ := neat whole tidy
      have tidy' := tidy'.resolve_right (by simp)
      refine ⟨whole', fun key hkey => tidy' key fun h => h.2 ?_⟩
      exact active.trans (hkey (own.1 h.1))
    exact ⟨st', ⟨rfl, sound', own', held'⟩, later', fun whole tidy =>
      ⟨(neat' whole tidy).1, .inl (neat' whole tidy).2⟩, fun _ => kept'⟩

/-- A client that has made no call yet works on the stage without nodes. -/
lemma on_start {registry : Registry} (h : ∀ K, registry.Over K) :
    (start registry).On ⟨.ofRegistry registry, fun _ => False, fun _ _ => False, fun _ => False,
      none⟩ where
  session := rfl
  own := by simp [start]
  held t ht := by cases ht
  sound := {
    fresh := ⟨fun _ => by simp [Session.ofRegistry, Store.empty, Heap.empty, Heap.body?],
      fun _ => by simp [Session.ofRegistry, Store.empty, Heap.empty, Heap.result?],
      fun _ => by simp [Session.ofRegistry, Store.empty]⟩
    known := h _
    wired := ⟨False.elim, False.elim, False.elim, False.elim, False.elim, fun h => h.elim,
      fun h => h.elim, fun h => h.elim, fun h => h.elim, fun h => h.elim⟩
    shelved := fun key => by
      have none : ∀ {n}, ¬ Stage.under ⟨.ofRegistry registry, fun _ => False,
        fun _ _ => False, fun _ => False, none⟩ key n := fun h => h.elim id id
      exact ⟨fun h => (none h).elim, fun h => (none h).elim, fun h => (none h).elim,
        fun h => (none h).elim, fun h => (none h).elim, fun h => (none h).elim,
        fun h => (none h).elim, fun h => (none h).elim, fun h => (none h).elim,
        fun h => (none h).elim⟩
    grounded := False.elim
    resolvers := fun hr => by simp [Session.ofRegistry, Store.empty] at hr
    owned := False.elim
    own := False.elim
    apart := fun _ h => h }

lemma Reachable.on (h : c.Reachable) : ∃ st, c.On st := by
  induction h with
  | start h => exact ⟨_, on_start (Registry.over_initial h)⟩
  | @call _ call _ can ih =>
    obtain ⟨st, on⟩ := ih
    obtain ⟨st', on', -⟩ := (on.activate call.resolver?).after rfl can
    exact ⟨st', on'⟩

end Client

end TypeNotation
