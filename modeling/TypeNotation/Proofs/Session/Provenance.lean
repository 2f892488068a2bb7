import TypeNotation.Proofs.Resolution.Realm
import TypeNotation.Proofs.Session.Declarations
import TypeNotation.Proofs.Session.OpenRecords

/-!
# Whose variables come up

A variable of a declaration that is not among its parameters is given the name of the declaration as
its scope, so that implicit variables of different declarations are told apart.  What comes up in a
type that has been resolved, and in everything that the type leads to, are its own variables,
without a scope, and those of declarations that it uses.

There is one way for the variables of other declarations to come in.  A delegation target that
stands in an argument is suspended with the scope of the declaration around it, but the expansion of
the reference is found again wherever equal arguments are given, and equality does not look at the
scope.  If the target has no variables apart from parameters, then nothing is given that scope.
Nothing else needs to be asked for, and nothing at all of what was resolved before.
-/

namespace TypeNotation

open TypeExpr

/-- A name that a type refers to, or the body of a declaration that the type uses. -/
inductive Registry.Uses (r : Registry) (t : TypeExpr) : String → Prop
  | self {name : String} (h : t.Mentions name) : Uses r t name
  | body {name name' : String} {d : Declaration} (h : Uses r t name) (hd : r.lookup name = some d)
    (h' : d.body.Mentions name') : Uses r t name'

/-- A variable belongs to a type: it occurs in the type, without a scope, or it occurs in a
declaration that the type uses, is not a parameter, and has the name of the declaration as its
scope. -/
def Registry.Owns (r : Registry) (t : TypeExpr) (v : Variable) : Prop :=
  match v.scope with
  | none => t.HasLetter v.letter
  | some name => r.Uses t name ∧
    ∃ d, r.lookup name = some d ∧ d.body.HasLetter v.letter ∧ v.letter ∉ d.letters

/-- In a type, and in the declarations that it uses, delegation targets that stand in arguments have
no variables apart from parameters. -/
structure Registry.Confines (r : Registry) (t : TypeExpr) : Prop where
  self : t.ArgumentsIn fun _ => False
  used : ∀ {name d}, r.Uses t name → r.lookup name = some d → d.body.ArgumentsIn (· ∈ d.letters)

/-- What a type uses, and the variables that belong to it. -/
def Registry.realm (r : Registry) (t : TypeExpr) : Realm where
  names := r.Uses t
  vars := r.Owns t

/-- Everything that a type leads to: through its parts, the bodies of named types, and the results
of suspended targets. -/
inductive Heap.Sees (h : Heap) (t : TypeExpr) : TypeExpr → Prop
  | refl : Sees h t t
  | part {u v : TypeExpr} (hu : Sees h t u) (hv : v ∈ u.parts) : Sees h t v
  | body {m : Mark} {name : String} {args : List TypeExpr} {b : TypeExpr}
    (hu : Sees h t (.named m name args)) (hb : h.body? m.stamp = some b) : Sees h t b
  | result {m : Mark} {target r : TypeExpr} {bindings : List (Field TypeExpr)}
    (hu : Sees h t (.deferred m target bindings)) (hr : h.result? m.stamp = some r) : Sees h t r

lemma TypeExpr.Written.not_referring {t u : TypeExpr} (h : t.Written) (hu : u ∈ t.subterms) :
    u.isReferring = false := by
  have self := h u hu
  cases u <;> first | rfl | exact self.elim

lemma TypeExpr.Parsed.unscoped {t : TypeExpr} (h : t.Parsed) : t.Unscoped :=
  fun _ _ hv => h _ hv

namespace Registry

variable {r r' : Registry} {t : TypeExpr} {name : String}

/-! ## The realm of a type -/

section Later

variable (lookup : ∀ name d, r.lookup name = some d → r'.lookup name = some d)
include lookup

lemma Uses.later (h : r.Uses t name) : r'.Uses t name := by
  induction h with
  | self h => exact .self h
  | body _ hd h' ih => exact .body ih (lookup _ _ hd) h'

lemma Owns.later {v : Variable} (h : r.Owns t v) : r'.Owns t v := by
  unfold Owns at h ⊢
  split at h
  · exact h
  · obtain ⟨uses, d, hd, h⟩ := h
    exact ⟨uses.later lookup, d, lookup _ _ hd, h⟩

lemma Confines.earlier (h : r'.Confines t) : r.Confines t where
  self := h.self
  used uses hd := h.used (uses.later lookup) (lookup _ _ hd)

end Later

/-- The realm of a type is closed. -/
lemma closed_realm (written : r.Written) (unscoped : ∀ d ∈ r.declarations, d.body.Unscoped)
    (confines : r.Confines t) : (r.realm t).Closed r where
  body {_ d} uses hd := {
    plain := fun _ hs => (written.lookup hd).not_referring hs
    unscoped := unscoped d (List.mem_of_find?_eq_some hd)
    names := fun _ h => .body uses hd h
    arguments := confines.used uses hd }
  free {_ d _} uses hd hletter free := ⟨uses, d, hd, hletter, free⟩

/-- A type that is read belongs to its realm. -/
lemma writes_realm (ht : t.Parsed) (confines : r.Confines t) :
    (r.realm t).Writes (Env.Binds []) t where
  plain _ hs := Written.not_referring ht.over hs
  unscoped := ht.unscoped
  names _ h := .self h
  arguments m name args href a ha := (confines.self m name args href a ha).mono fun _ _ h => h.elim

lemma suits_realm : (r.realm t).Suits [] none t where
  bound _ h := by cases h
  free hletter _ := hletter

end Registry

namespace Stage

variable {st : Stage} {R : Realm} {t u : TypeExpr}

/-- What a type of a closed realm leads to stays in the realm. -/
lemma Sound.keeps_of_sees (sound : st.Sound) (closed : R.Closed st.registry)
    (ht : t.ResolvedOver st.settled) (h : R.Keeps st.store t) (hu : st.store.heap.Sees t u) :
    u.ResolvedOver st.settled ∧ R.Keeps st.store u := by
  induction hu with
  | refl => exact ⟨ht, h⟩
  | part _ hv ih => exact ⟨ih.1.part hv, ih.2.part hv⟩
  | body _ hb ih =>
    have hnode := ih.1.self
    obtain ⟨d, -, -, declared⟩ := sound.wired.declared hnode
    exact ⟨(declared _ hb).1, closed.keeps_body sound.wired hnode ih.2.seals hb⟩
  | result _ hr ih =>
    have hnode := ih.1.self
    exact ⟨sound.wired.result hnode hr, Realm.keeps_result sound.wired hnode ih.2 hr⟩

/-- So does what the type stands for. -/
lemma Sound.sees_unfold (sound : st.Sound) (ht : t.ResolvedOver st.settled) :
    st.store.heap.Sees t (st.store.heap.unfold t) := by
  obtain ⟨n, hn⟩ := sound.grounded_of_resolvedOver ht
  obtain ⟨stamps, u, chain⟩ := hn.chain
  rw [chain.unfold_eq]
  suffices ∀ {s}, st.store.heap.Sees s t → st.store.heap.Sees s u from this .refl
  clear hn ht
  intro s hs
  induction chain with
  | done _ => exact hs
  | step hbody _ ih => exact ih (.body hs hbody)

end Stage

open Stage

namespace Action

open Expansion

variable {st : Stage} {key : Nat} {t : TypeExpr}

/-- What a type is resolved to stands for an instance of the type that is at home outside of all
declarations. -/
lemma acts_resolveWith_home (hkey : key < st.store.nextStamp) (haside : ¬ st.aside key)
    (ht : t.Over st.settled) :
    Acts (resolveWith key t []) st fun st' u => ∃ w, u = st'.store.heap.unfold w ∧
      w.ResolvedOver st'.settled ∧ w.same (t.instantiate [] none) = true ∧
        w.Home st'.store none (t.Guest []) := by
  refine acts_get.bind fun st' s _ h => ?_
  obtain ⟨rfl, rfl⟩ := h
  refine (acts_resolving forces_force hkey haside
    (P := fun _ K s (w : TypeExpr) => w.ResolvedOver K ∧ w.same (t.instantiate [] none) = true ∧
      w.Home s none (t.Guest []))
    (fun _ h precedes hw => ⟨hw.1.mono h, hw.2.1, hw.2.2.later precedes.next
      fun _ => precedes.suspensions⟩) fun _ => ?_).bind fun st₁ w later hw => ?_
  · have based : t.Over (st'.world key).nodes := ht.mono fun _ => .inl
    exact (expands_expand none based (fun f hf => by cases hf)).mono
      fun _ _ _ h => ⟨h.resolved, h.same, h.home⟩
  · refine acts_get.bind fun st₂ s _ h => ?_
    obtain ⟨rfl, rfl⟩ := h
    exact acts_pure ⟨w, rfl, hw⟩

/-- What a type that is read is resolved to stays in the realm of the type. -/
lemma realm_keeps (sound : st.Sound) (hkey : key < st.store.nextStamp) (haside : ¬ st.aside key)
    (ht : t.Parsed) {u : TypeExpr} {s : Session}
    (ok : outcome (resolveWith key t []) st.session = (.ok u, s)) (written : s.registry.Written)
    (unscoped : ∀ d ∈ s.registry.declarations, d.body.Unscoped)
    (confines : s.registry.Confines t) : (s.registry.realm t).Keeps s.store u := by
  obtain ⟨settled, shelf, -, sound', -, -, post⟩ := acts_resolveWith_home hkey haside ht.over sound
  rw [ok] at sound' post
  obtain ⟨-, w, unfolds, hw, same, home⟩ := post u rfl
  let st' : Stage := ⟨s, settled, shelf, st.own, st.active⟩
  replace sound' : st'.Sound := sound'
  rw [unfolds]
  have writes := Registry.writes_realm ht confines
  have keeps := writes.keeps_of_same Registry.suits_realm same
    (home.mono (Registry.suits_realm.seals_guest writes))
  exact (sound'.keeps_of_sees (Registry.closed_realm written unscoped confines) hw keeps
    (sound'.sees_unfold hw)).2

end Action

/-! ## Clients that read -/

/-- A call whose types were all read from texts. -/
def Call.Parsed : Call → Prop
  | declare d => d.body.Parsed
  | load ds => ∀ d ∈ ds, d.body.Parsed
  | resolve _ t bindings => t.Parsed ∧ ∀ b ∈ bindings, b.type.Parsed
  | loadText _ | newResolver .. | lookupMember .. | ask _ => True

lemma Call.Parsed.written {call : Call} (h : call.Parsed) : call.Written := by
  cases call with
  | declare => exact TypeExpr.Parsed.over h
  | load => exact fun d hd => (h d hd).over
  | resolve => exact ⟨h.1.over, fun b hb => (h.2 b hb).over⟩
  | _ => trivial

/-- What a call declares has no variables with a scope, if its types were read. -/
lemma Call.Parsed.unscoped {call : Call} (h : call.Parsed) {d : Declaration}
    (hd : call.Declares d) : d.body.Unscoped := by
  cases call with
  | declare e =>
    obtain rfl : d = e := hd
    exact TypeExpr.Parsed.unscoped h
  | load ds => exact (h d hd).unscoped
  | loadText text =>
    obtain ⟨ds, parsed, hd⟩ := hd
    exact (parsed_of_parse parsed d hd).unscoped
  | _ => exact hd.elim

namespace Client

/-- The clients whose types were all read from texts. -/
inductive Reads : Client → Prop
  | start {registry : Registry} (h : registry ∈ [.empty, .withPrelude]) : Reads (start registry)
  | call {c : Client} {call : Call} (h : Reads c) (can : c.CanMake call) (parsed : call.Parsed) :
    Reads (c.after call)

/-- The types that such a client has been given for a type that it resolved. -/
inductive ResolvedFrom (t : TypeExpr) : Client → TypeExpr → Prop
  | given {c : Client} {key : Nat} {u : TypeExpr} {s : Session} (h : c.Reads)
      (can : c.CanMake (.resolve key t [])) (parsed : t.Parsed)
      (ok : outcome (Action.resolveWith key t []) c.session = (.ok u, s)) :
      ResolvedFrom t (c.after (.resolve key t [])) u
  | later {c : Client} {call : Call} {u : TypeExpr} (h : ResolvedFrom t c u) (can : c.CanMake call)
      (parsed : call.Parsed) : ResolvedFrom t (c.after call) u

variable {c : Client} {t u : TypeExpr}

lemma Reads.writes (h : c.Reads) : c.Writes := by
  induction h with
  | start h => exact .start h
  | call _ can parsed ih => exact .call ih can parsed.written

lemma unscoped_initial {registry : Registry} (h : registry ∈ [.empty, .withPrelude]) :
    ∀ d ∈ registry.declarations, d.body.Unscoped := by
  have builtin : ∀ d ∈ Registry.empty.declarations, d.body.Unscoped := by
    simp [Registry.empty, Registry.builtins, Unscoped, subterms]
  rcases List.mem_cons.1 h with h | h
  · rw [h]
    exact builtin
  · rw [List.mem_singleton.1 h]
    unfold Registry.withPrelude
    cases hds : parse Registry.preludeText with
    | error e => exact builtin
    | ok ds =>
      exact Registry.forall_foldl_insert builtin fun d hd => (parsed_of_parse hds d hd).unscoped

/-- What was read has no variables with a scope. -/
lemma Reads.unscoped (h : c.Reads) :
    ∀ d ∈ c.session.registry.declarations, d.body.Unscoped := by
  induction h with
  | start h => exact unscoped_initial h
  | @call c call _ _ parsed ih =>
    rw [session_after]
    exact call.forall_declarations ih fun _ => parsed.unscoped

namespace ResolvedFrom

lemma reads (h : ResolvedFrom t c u) : c.Reads := by
  induction h with
  | given h can parsed _ => exact .call h can ⟨parsed, by simp⟩
  | later _ can parsed ih => exact .call ih can parsed

lemma resolved (h : ResolvedFrom t c u) : c.Resolved u := by
  induction h with
  | given h can parsed ok => exact .given h.writes can ⟨parsed.over, by simp⟩ ok
  | later _ can parsed ih => exact .later ih can parsed.written

/-- What was resolved stays in the realm of the type that it was resolved from. -/
lemma keeps (h : ResolvedFrom t c u) (confines : c.session.registry.Confines t) :
    (c.session.registry.realm t).Keeps c.session.store u := by
  induction h with
  | @given c key u s h can parsed ok =>
    obtain ⟨st, on⟩ := h.writes.reachable.on
    have on := on.activate (some key)
    have active : some key = (Call.resolve key t []).resolver? := rfl
    obtain ⟨placed, free⟩ := on.usable active key can.1 rfl
    have reads : (c.after (.resolve key t [])).Reads := .call h can ⟨parsed, by simp⟩
    have session : (c.after (.resolve key t [])).session = s := by
      rw [session_after, Call.action, outcome_bind, ok]
      rfl
    have written := reads.writes.direct.written
    have unscoped := reads.unscoped
    rw [session] at confines written unscoped ⊢
    exact Action.realm_keeps on.sound placed free parsed (by rw [on.session]; exact ok) written
      unscoped confines
  | @later c call u h can _ ih =>
    obtain ⟨st, on⟩ := h.resolved.writes.reachable.on
    obtain ⟨st', on', later, -⟩ := (on.activate call.resolver?).after rfl can
    have lookup (name : String) (d : Declaration)
        (hd : c.session.registry.lookup name = some d) :
        (c.after call).session.registry.lookup name = some d := by
      rw [← on.session] at hd
      rw [← on'.session]
      exact later.lookup hd
    refine (ih (confines.earlier lookup)).mono (fun _ uses => uses.later lookup)
      (fun _ owns => owns.later lookup) ?_ ?_ <;> rw [← on.session, ← on'.session]
    · exact later.next
    · exact fun _ => later.suspensions

/-- Implicit variables of different declarations do not meet.

Whatever was resolved before, all variables that come up in what a type was resolved to, and in
everything that this leads to, belong to the type: they are its own, without a scope, or come from
declarations that it uses.  Delegation targets that stand in arguments may have no variables apart
from parameters, neither in the type nor in the declarations that it uses. -/
theorem owns_of_sees (h : ResolvedFrom t c u) (confines : c.session.registry.Confines t) {m : Mark}
    {v : Variable} (sees : c.session.store.heap.Sees u (.typeVariable m v)) :
    c.session.registry.Owns t v := by
  obtain ⟨st, on⟩ := h.resolved.writes.reachable.on
  have keeps := h.keeps confines
  have closed := Registry.closed_realm h.resolved.writes.direct.written h.reads.unscoped confines
  have held := on.held u h.resolved.held
  rw [← on.session] at keeps sees closed ⊢
  exact (on.sound.keeps_of_sees closed held keeps sees).2.letter

end ResolvedFrom

/-! ### A variable of a declaration that was resolved before -/

lemma Reads.resolvedAnew (h : c.Reads) {maxSteps maxDepth : Nat} (ht : t.Parsed) :
    (c.resolvedAnew maxSteps maxDepth t).Reads := by
  have made : (c.after (.newResolver maxSteps maxDepth)).Reads := h.call trivial trivial
  exact made.call ⟨List.mem_append_right _ (List.mem_singleton_self _), ht.over, by simp⟩
    ⟨ht, by simp⟩

/-- What a new resolver returns for a type that is read has been resolved from it. -/
lemma Reads.resolvedFrom (h : c.Reads) {maxSteps maxDepth : Nat} {w : TypeExpr} {e : Expanding}
    (ht : t.Parsed)
    (run : outcome (Expansion.expand c.session.registry [] none t)
      ⟨(Action.withResolver c.session maxSteps maxDepth).store, .ofBudget maxSteps maxDepth⟩ =
        (.ok w, e))
    (unconditional : e.resolver.pending = [])
    (productive : e.store.heap.checkProductive e.resolver.expanded = .ok ()) :
    ResolvedFrom t (c.resolvedAnew maxSteps maxDepth t) (e.store.heap.unfold w) := by
  have made : (c.after (.newResolver maxSteps maxDepth)).Reads := h.call trivial trivial
  have ok := Action.outcome_resolveAnew run unconditional productive
  rw [Action.resolveAnew, outcome_bind, Action.outcome_newResolver] at ok
  exact .given made ⟨List.mem_append_right _ (List.mem_singleton_self _), ht.over, by simp⟩ ht ok

/-- A declaration of a variable that is not a parameter. -/
def loose : Declaration :=
  ⟨"d", [], .typeVariable (.written none) ⟨"X", none⟩, none⟩

/-- The lists of what it stands for. -/
def enclosing : Declaration :=
  ⟨"e", [], .list (.written none) [.reference (.written none) "d" []], none⟩

/-- A client that has declared both and resolved the first. -/
def loosened : Client :=
  ((start .empty).after (.load [loose, enclosing])).resolvedAnew 1 1
    (.reference (.written none) "d" [])

/-- The client after it has resolved the second. -/
def enclosed : Client :=
  loosened.resolvedAnew 1 1 (.reference (.written none) "e" [])

/-- The name of the first, when it is resolved. -/
def looseName : TypeExpr := .named ⟨none, 2⟩ "d" []

/-- What it stands for. -/
def looseBody : TypeExpr := .typeVariable ⟨none, 3⟩ ⟨"X", some "d"⟩

/-- What the second stands for: the name of the first is the one that was there before. -/
def enclosedList : TypeExpr := .list ⟨none, 6⟩ [looseName]

lemma parsed_variable (letter : String) :
    Parsed (.typeVariable (.written none) ⟨letter, none⟩) :=
  throughout_iff.2 ⟨rfl, by simp [parts]⟩

lemma parsed_name (name : String) : Parsed (.reference (.written none) name []) :=
  throughout_iff.2 ⟨trivial, by simp [parts]⟩

lemma loosened_spec : loosened.Reads ∧
    loosened.session.registry.declarations = Registry.builtins ++ [loose, enclosing] ∧
      loosened.session.registry.memo = [looseName] ∧
      loosened.session.store.heap = Heap.empty.setBody 2 looseBody ∧
      loosened.session.store.nextStamp = 4 := by
  have list : Parsed (.list (.written none) [.reference (.written none) "d" []]) :=
    throughout_iff.2 ⟨trivial, List.forall_mem_singleton.2 (parsed_name "d")⟩
  have declared : ((start .empty).after (.load [loose, enclosing])).Reads :=
    .call (.start List.mem_cons_self)
      (show ∀ d ∈ [loose, enclosing], d.body.Over _ by
        simpa [loose, enclosing] using ⟨(parsed_variable "X").over, list.over⟩)
      (show ∀ d ∈ [loose, enclosing], d.body.Parsed by
        simpa [loose, enclosing] using ⟨parsed_variable "X", list⟩)
  have productive : (Heap.empty.setBody 2 looseBody).checkProductive [looseName] = .ok () := by
    simp [looseName, looseBody, Heap.checkProductive, Heap.walk, Heap.walkWith, Heap.body?,
      Heap.setBody, Heap.empty, Std.HashMap.size_insert]
  refine ⟨declared.resolvedAnew (parsed_name "d"), ?_⟩
  rw [loosened, resolvedAnew_eq rfl rfl productive]
  exact ⟨rfl, rfl, rfl, rfl⟩

open Expansion in
lemma run_enclosed : ∃ e : Expanding,
    outcome (expand loosened.session.registry [] none (.reference (.written none) "e" []))
      ⟨(Action.withResolver loosened.session 1 1).store, .ofBudget 1 1⟩ =
        (.ok (.named ⟨none, 5⟩ "e" []), e) ∧
    e.resolver.pending = [] ∧ e.resolver.expanded = [.named ⟨none, 5⟩ "e" []] ∧
    e.store.heap = (Heap.empty.setBody 2 looseBody).setBody 5 enclosedList := by
  obtain ⟨-, declarations, memo, heap, stamp⟩ := loosened_spec
  have lookup : loosened.session.registry.lookup "d" = some loose := by
    rw [Registry.lookup, declarations]
    rfl
  have lookup' : loosened.session.registry.lookup "e" = some enclosing := by
    rw [Registry.lookup, declarations]
    rfl
  have next : (Action.withResolver loosened.session 1 1).store.nextStamp = 5 := by
    simp [Action.withResolver, stamp]
  have heap : (Action.withResolver loosened.session 1 1).store.heap =
      Heap.empty.setBody 2 looseBody := heap
  simp [expand, outcome_bind, Resolver.ofBudget, expandAt, expandIn, declarationOf, lookup, lookup',
    expandAll, loose, enclosing, Declaration.arity, outcome_reference, known?, Registry.memoized,
    memo, enter, same, sameAll, looseName, Mark.written, remark, Except.map, listOf, withoutRepeats,
    next, heap, enclosedList]

lemma enclosed_spec : ResolvedFrom (.reference (.written none) "e" []) enclosed enclosedList ∧
    enclosed.session.registry.declarations = Registry.builtins ++ [loose, enclosing] ∧
      enclosed.session.store.heap = (Heap.empty.setBody 2 looseBody).setBody 5 enclosedList := by
  obtain ⟨reads, declarations, -⟩ := loosened_spec
  obtain ⟨e, run, pending, expanded, heap⟩ := run_enclosed
  have productive : e.store.heap.checkProductive e.resolver.expanded = .ok () := by
    rw [heap, expanded]
    simp [enclosedList, Heap.checkProductive, Heap.walk, Heap.walkWith, Heap.body?, Heap.setBody,
      Heap.empty, Std.HashMap.size_insert]
  have unfolds : e.store.heap.unfold (.named ⟨none, 5⟩ "e" []) = enclosedList := by
    rw [heap]
    simp [enclosedList, Heap.unfold, Heap.unfoldFrom, Heap.body?, Heap.setBody, Heap.empty,
      Std.HashMap.size_insert]
  have resolved := reads.resolvedFrom (parsed_name "e") run pending productive
  rw [unfolds] at resolved
  refine ⟨resolved, ?_⟩
  rw [enclosed, resolvedAnew_eq run pending productive]
  exact ⟨declarations, heap⟩

/-- The variable comes with a name that an earlier resolution has left, and still belongs to the
type that is resolved now, which uses the declaration that it comes from. -/
theorem owns_of_sees_enclosed : looseName ∈ loosened.session.registry.memo ∧
    ResolvedFrom (.reference (.written none) "e" []) enclosed enclosedList ∧
      enclosed.session.registry.Confines (.reference (.written none) "e" []) ∧
      enclosed.session.store.heap.Sees enclosedList looseBody ∧
      enclosed.session.registry.Owns (.reference (.written none) "e" []) ⟨"X", some "d"⟩ := by
  obtain ⟨-, -, memo, -⟩ := loosened_spec
  obtain ⟨resolved, declarations, heap⟩ := enclosed_spec
  have confines : enclosed.session.registry.Confines (.reference (.written none) "e" []) := by
    have bare {r : TypeExpr} {allowed : String → Prop}
        (h : ∀ m name args, .reference m name args ∈ r.subterms → args = []) :
        r.ArgumentsIn allowed := by
      rintro m name args href a ha
      rw [h m name args href] at ha
      cases ha
    refine ⟨bare (by simp [subterms, subtermsOfAll]), fun {name d} _ hd => bare ?_⟩
    -- no reference in a declaration has arguments
    have hd : d ∈ Registry.builtins ++ [loose, enclosing] :=
      declarations ▸ List.mem_of_find?_eq_some hd
    simp only [Registry.builtins, List.map_cons, List.map_nil, List.cons_append, List.nil_append,
      List.mem_cons, List.not_mem_nil, or_false] at hd
    rcases hd with rfl | rfl | rfl | rfl <;> simp [loose, enclosing, subterms, subtermsOfAll]
  have sees : enclosed.session.store.heap.Sees enclosedList looseBody := by
    have name : enclosed.session.store.heap.Sees enclosedList looseName :=
      .part .refl (by simp [enclosedList, parts])
    refine .body name ?_
    simp [heap, Heap.body?, Heap.setBody, Std.HashMap.getElem_insert]
  exact ⟨by simp [memo], resolved, confines, sees, resolved.owns_of_sees confines sees⟩

/-! ### A target in an argument -/

/-- A declaration that stands for its argument. -/
def passing : Declaration :=
  ⟨"g", [⟨none, ⟨"A", none⟩⟩], .typeVariable (.written none) ⟨"A", none⟩, none⟩

/-- It is applied to a delegation to a variable. -/
def handing : TypeExpr :=
  .reference (.written none) "g" [.delegation (.written none) (.record (.written none) [])
    [.typeVariable (.written none) ⟨"X", none⟩]]

/-- A declaration where this is done. -/
def handed : Declaration :=
  ⟨"d", [], handing, none⟩

/-- A client that has declared both. -/
def declaring : Client :=
  (start .empty).after (.load [passing, handed])

/-- What the client has resolved first. -/
def preceded : Client :=
  declaring.resolvedAnew 2 2 (.reference (.written none) "d" [])

/-- The target in the result. -/
def shared : TypeExpr :=
  .deferred ⟨none, 4⟩ (.typeVariable (.written none) ⟨"X", none⟩) []

/-- The result, a delegation. -/
def passedOn : TypeExpr :=
  .delegation ⟨none, 5⟩ (.record ⟨none, 3⟩ []) [shared]

/-- The client after it has resolved the same reference for itself, and then the target. -/
def intruded : Client :=
  (preceded.resolvedAnew 2 2 handing).after (.ask (.reveal shared))

/-- The heap on which the client holds it. -/
def passedHeap : Heap :=
  (Heap.empty.setBody 6 passedOn).setBody 2 (.named ⟨none, 6⟩ "g" [passedOn])

lemma body?_passedHeap : passedHeap.body? 2 = some (.named ⟨none, 6⟩ "g" [passedOn]) ∧
    passedHeap.body? 6 = some passedOn ∧ passedHeap.bodies.size = 2 := by
  simp [passedHeap, Heap.body?, Heap.setBody, Heap.empty, Std.HashMap.size_insert,
    Std.HashMap.getElem_insert]

lemma productive_passedHeap : passedHeap.checkProductive
    [.named ⟨none, 2⟩ "d" [], .named ⟨none, 6⟩ "g" [passedOn]] = .ok () := by
  obtain ⟨body, body', size⟩ := body?_passedHeap
  have passed (enter) (path : Heap.Path) (done : List Nat) :
      passedHeap.walkWith enter path passedOn done = .ok done := rfl
  simp [Heap.checkProductive, Heap.walk, Heap.walkWith, body, body', size, passed, bind,
    Except.bind, pure, Except.pure]

lemma unfold_passedHeap : passedHeap.unfold (.named ⟨none, 6⟩ "g" [passedOn]) = passedOn := by
  obtain ⟨-, body', size⟩ := body?_passedHeap
  simp [Heap.unfold, Heap.unfoldFrom, body', size, passedOn]

open Expansion in
lemma run_preceded : ∃ e : Expanding,
    outcome (expand declaring.session.registry [] none (.reference (.written none) "d" []))
      ⟨(Action.withResolver declaring.session 2 2).store, .ofBudget 2 2⟩ =
        (.ok (.named ⟨none, 2⟩ "d" []), e) ∧
    e.resolver.pending = [] ∧ e.store.heap = passedHeap ∧
    e.resolver.expanded = [.named ⟨none, 2⟩ "d" [], .named ⟨none, 6⟩ "g" [passedOn]] ∧
    e.store.nextStamp = 7 ∧ e.store.resolver 4 = .ofBudget 2 2 ∧
    e.store.suspensions[4]? = some ⟨.typeVariable (.written none) ⟨"X", none⟩, [], some "d"⟩ := by
  have lookup : declaring.session.registry.lookup "g" = some passing := by rfl
  have lookup' : declaring.session.registry.lookup "d" = some handed := by rfl
  have memo (t : TypeExpr) : declaring.session.registry.memoized t = none := by rfl
  have next : (Action.withResolver declaring.session 2 2).store.nextStamp = 2 := by rfl
  have heap : (Action.withResolver declaring.session 2 2).store.heap = .empty := by rfl
  simp [expand, outcome_bind, Resolver.ofBudget, expandAt, expandIn, declarationOf, lookup, lookup',
    expandAll, expandFields, handed, handing, passing, Declaration.arity, outcome_reference, known?,
    memo, enter, same, Mark.written, next, Expansion.typeVariable, Field.find?, Declaration.binding,
    Declaration.letters, Expansion.remark, outcome_suspend, withSuspension, targetBindings_nil,
    passedHeap, passedOn, shared, heap, Store.resolver]

/-- The reference has been expanded before, with an equal argument. -/
lemma preceded_spec :
    preceded.session.registry.declarations = Registry.builtins ++ [passing, handed] ∧
      preceded.session.registry.memo =
        [.named ⟨none, 2⟩ "d" [], .named ⟨none, 6⟩ "g" [passedOn]] ∧
      preceded.session.store.heap = passedHeap ∧ preceded.session.store.nextStamp = 7 ∧
      preceded.session.store.resolver 4 = .ofBudget 2 2 ∧
      preceded.session.store.suspensions[4]? =
        some ⟨.typeVariable (.written none) ⟨"X", none⟩, [], some "d"⟩ := by
  obtain ⟨e, run, pending, heap, expanded, next, resolver, suspended⟩ := run_preceded
  have productive : e.store.heap.checkProductive e.resolver.expanded = .ok () := by
    rw [heap, expanded]
    exact productive_passedHeap
  rw [preceded, resolvedAnew_eq run pending productive]
  have opened : declaring.session.store.nextStamp = 1 := rfl
  refine ⟨rfl, ?_, heap, next, ?_, suspended⟩
  · have memo : declaring.session.registry.memo = [] := rfl
    show (declaring.session.registry.memoize e.resolver.expanded).memo = _
    simp [expanded, Registry.memoize, Registry.remember, memo, same]
  · rw [← resolver]
    simp [Action.remembering, Store.resolver, Store.setResolver, opened,
      Std.HashMap.getElem?_insert]

open Expansion in
lemma run_intruded : ∃ e : Expanding,
    outcome (expand preceded.session.registry [] none handing)
      ⟨(Action.withResolver preceded.session 2 2).store, .ofBudget 2 2⟩ =
        (.ok (.named ⟨none, 6⟩ "g" [passedOn]), e) ∧
    e.resolver.pending = [] ∧ e.store.heap = passedHeap ∧ e.resolver.expanded = [] ∧
    e.store.resolver 4 = .ofBudget 2 2 ∧
    e.store.suspensions[4]? = some ⟨.typeVariable (.written none) ⟨"X", none⟩, [], some "d"⟩ := by
  obtain ⟨declarations, memo, heap, stamp, resolver, suspended⟩ := preceded_spec
  have lookup : preceded.session.registry.lookup "g" = some passing := by
    rw [Registry.lookup, declarations]
    rfl
  have next : (Action.withResolver preceded.session 2 2).store.nextStamp = 8 := by
    simp [Action.withResolver, stamp]
  have resolver : ((Action.withResolver preceded.session 2 2).store.resolvers[4]?).getD .fresh =
      ⟨2, 2, 0, [], []⟩ := by
    refine Eq.trans ?_ resolver
    simp [Action.withResolver, Store.resolver, Store.setResolver, stamp,
      Std.HashMap.getElem?_insert]
  have heap : (Action.withResolver preceded.session 2 2).store.heap = passedHeap := heap
  have suspended : (Action.withResolver preceded.session 2 2).store.suspensions[4]? =
    some ⟨.typeVariable (.written none) ⟨"X", none⟩, [], some "d"⟩ := suspended
  simp [expand, outcome_bind, Resolver.ofBudget, expandAt, expandIn, declarationOf, lookup,
    expandAll, expandFields, handing, passing, Declaration.arity, outcome_reference, known?,
    Registry.memoized, memo, same, sameAll, sameFields, Mark.written, next, Expansion.remark,
    outcome_suspend, withSuspension, targetBindings_nil, passedOn, shared, heap, suspended,
    Std.HashMap.getElem?_insert, Store.resolver, resolver]

lemma session_after_reveal :
    (c.after (.ask (.reveal t))).session = (outcome (Action.reveal t) c.session).2 := by
  rw [session_after, Call.action, Question.action]
  simp only [outcome_bind]
  rcases outcome (Action.reveal t) c.session with ⟨fault | u, s⟩ <;> rfl

/-- A suspended target has a result after it was revealed, if its expansion notes no condition and
is productive. -/
lemma result?_reveal {s : Session} {m : Mark} {target r : TypeExpr}
    {bindings : List (Field TypeExpr)} {x : Suspension} {e : Expanding}
    (unknown : s.store.heap.result? m.stamp = none)
    (suspended : s.store.suspensions[m.stamp]? = some x)
    (run : outcome (Expansion.expand s.registry x.env x.scope x.target)
      ⟨s.store, (s.store.resolver m.stamp).restart⟩ = (.ok r, e))
    (unconditional : e.resolver.pending = [])
    (productive : e.store.heap.checkProductive e.resolver.expanded = .ok ()) :
    (outcome (Action.reveal (.deferred m target bindings)) s).2.store.heap.result? m.stamp =
      some r := by
  obtain ⟨bound, hbound⟩ : ∃ bound, Action.depthBound = bound + 1 + 1 := ⟨_, rfl⟩
  let later := e.store.heap.setResult m.stamp r
  have known : later.result? m.stamp = some r := by
    simp [later, Heap.result?, Heap.setResult]
  have demanded : s.store.heap.reveal (.deferred m target bindings) =
      .error (.demand (.deferred m target bindings)) := by
    simp only [Heap.reveal, unknown]
  have revealed : later.reveal (.deferred m target bindings) = .ok r := by
    simp only [Heap.reveal, known]
  have forced (bound : Nat) :
      outcome (Action.forceWithin (bound + 1) (.deferred m target bindings)) s =
        (.ok r, { Action.remembering s m.stamp e with store :=
          { (Action.remembering s m.stamp e).store with heap := later } }) := by
    have resolving : outcome (Action.resolving (Action.forceWithin bound) m.stamp _) s = _ :=
      Action.outcome_resolving_of_hold run (by simp [unconditional]) productive
    simp only [Action.forceWithin, outcome_bind, outcome_get, stamp, mark, unknown,
      Action.forceAnew, Action.suspensionAt, suspended, Option.getD_some, resolving]
    rfl
  have forced : outcome (Action.force (.deferred m target bindings)) s = _ := forced _
  rw [Action.reveal, Action.ask, hbound, Action.outcome_askWith, demanded]
  simp only [outcome_bind, forced]
  rw [Action.outcome_askWith, revealed]
  exact known

lemma result?_intruded :
    ∃ m, intruded.session.store.heap.result? 4 = some (.typeVariable m ⟨"X", some "d"⟩) := by
  obtain ⟨e, run, pending, heap, expanded, resolver, suspended⟩ := run_intruded
  have productive : e.store.heap.checkProductive e.resolver.expanded = .ok () := by
    rw [expanded]
    rfl
  have session : (preceded.resolvedAnew 2 2 handing).session =
      Action.remembering (Action.withResolver preceded.session 2 2)
        preceded.session.store.nextStamp e := by
    rw [resolvedAnew_eq run pending productive]
  obtain ⟨-, -, -, next, -⟩ := preceded_spec
  generalize hs : (preceded.resolvedAnew 2 2 handing).session = s at session
  have unknown : s.store.heap.result? 4 = none := by
    rw [session]
    show e.store.heap.result? 4 = none
    simp [heap, passedHeap, Heap.setBody, Heap.result?, Heap.empty]
  have suspended : s.store.suspensions[4]? =
      some ⟨.typeVariable (.written none) ⟨"X", none⟩, [], some "d"⟩ := by
    rw [session]
    exact suspended
  have resolver : s.store.resolver 4 = .ofBudget 2 2 := by
    rw [session, ← resolver]
    simp [Action.remembering, Store.resolver, Store.setResolver, next,
      Std.HashMap.getElem?_insert]
  have run : outcome (Expansion.expand s.registry [] (some "d")
      (.typeVariable (.written none) ⟨"X", none⟩)) ⟨s.store, (s.store.resolver 4).restart⟩ =
        (.ok (.typeVariable ⟨none, s.store.nextStamp⟩ ⟨"X", some "d"⟩),
          ⟨{ s.store with nextStamp := s.store.nextStamp + 1 }, .ofBudget 2 2⟩) := by
    rw [resolver]
    rfl
  rw [intruded, session_after_reveal, hs]
  exact ⟨_, result?_reveal unknown suspended run rfl rfl⟩

lemma parsed_handing : handing.Parsed := by
  have base : Parsed (.record (.written none) []) := throughout_iff.2 ⟨trivial, by simp [parts]⟩
  have argument : Parsed (.delegation (.written none) (.record (.written none) [])
      [.typeVariable (.written none) ⟨"X", none⟩]) :=
    throughout_iff.2 ⟨trivial, by simpa [parts] using ⟨base, parsed_variable "X"⟩⟩
  exact throughout_iff.2 ⟨trivial, List.forall_mem_singleton.2 argument⟩

lemma lookup_intruded : intruded.session.registry.lookup "g" = some passing := by
  obtain ⟨e, run, pending, heap, expanded, -⟩ := run_intruded
  have productive : e.store.heap.checkProductive e.resolver.expanded = .ok () := by
    rw [expanded]
    rfl
  obtain ⟨declarations, -⟩ := preceded_spec
  have declarations : intruded.session.registry.declarations =
      Registry.builtins ++ [passing, handed] := by
    rw [intruded, session_after_reveal, Action.reveal, Action.keeps_ask, ← declarations,
      resolvedAnew_eq run pending productive]
    rfl
  rw [Registry.lookup, declarations]
  rfl

lemma reads_preceded : preceded.Reads := by
  have target : handing.Parsed := parsed_handing
  have declared : declaring.Reads :=
    .call (.start List.mem_cons_self)
      (show ∀ d ∈ [passing, handed], d.body.Over _ by
        simpa [passing, handed] using ⟨(parsed_variable "A").over, target.over⟩)
      (show ∀ d ∈ [passing, handed], d.body.Parsed by
        simpa [passing, handed] using ⟨parsed_variable "A", target⟩)
  exact declared.resolvedAnew (parsed_name "d")

lemma resolvedFrom_intruded : ResolvedFrom handing intruded passedOn := by
  obtain ⟨e, run, pending, heap, expanded, -⟩ := run_intruded
  have productive : e.store.heap.checkProductive e.resolver.expanded = .ok () := by
    rw [expanded]
    rfl
  have resolved := reads_preceded.resolvedFrom parsed_handing run pending productive
  rw [heap, unfold_passedHeap] at resolved
  have node : (preceded.resolvedAnew 2 2 handing).nodes shared :=
    ⟨passedOn, resolved.resolved.held, by simp [passedOn, shared, subterms, subtermsOfAll]⟩
  refine .later resolved (fun t ht => ?_) trivial
  rw [List.mem_singleton.1 ht]
  exact resolvedOver_deferred.2 node

/-- What the reference uses is the declaration that stands for its argument. -/
lemma uses_handing {r : Registry} (lookup : r.lookup "g" = some passing) {name : String}
    (h : r.Uses handing name) : name = "g" := by
  induction h with
  | self h =>
    obtain ⟨m, args, h⟩ := h
    simp [handing, subterms, subtermsOfAll, subtermsOfFields] at h
    exact h.2.1
  | body _ hd h' ih =>
    obtain rfl := ih
    cases hd.symm.trans lookup
    obtain ⟨m, args, h⟩ := h'
    simp [passing, subterms] at h

/-- A variable of a declaration that the type does not use. -/
theorem not_owns_intruded : ResolvedFrom handing intruded passedOn ∧
    ∃ m, intruded.session.store.heap.Sees passedOn (.typeVariable m ⟨"X", some "d"⟩) ∧
      ¬ intruded.session.registry.Owns handing ⟨"X", some "d"⟩ := by
  obtain ⟨m, result⟩ := result?_intruded
  have sees : intruded.session.store.heap.Sees passedOn shared :=
    .part .refl (by simp [passedOn, parts])
  refine ⟨resolvedFrom_intruded, m, .result sees result, ?_⟩
  rintro ⟨uses, -⟩
  exact absurd (uses_handing lookup_intruded uses) (by decide)

end Client

end TypeNotation
