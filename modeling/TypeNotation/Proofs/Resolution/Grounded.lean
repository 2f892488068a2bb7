import Mathlib.Data.List.Perm.Subperm
import TypeNotation.Resolution.Productive
import TypeNotation.Proofs.Answer
import TypeNotation.Proofs.Resolution.World

/-!
# What the check for productivity guarantees

A type is *grounded* if the walk through its unguarded positions is finite: there is a bound on how
many named types, unions and complements a value is checked against before it is taken apart.  The
check for productivity succeeds only if all its roots are grounded.  Its bound is never reached,
since the named types on a path all have a body, and are distinct.
-/

namespace TypeNotation

namespace Heap

variable {h h' : Heap}

/-- Walks through unguarded positions of a type take fewer than a number of steps. -/
def Within (h : Heap) : Nat → TypeExpr → Prop
  | 0, _ => False
  | n + 1, t => ∀ u ∈ h.unguarded t, h.Within n u

lemma Within.succ {n : Nat} {t : TypeExpr} (ht : h.Within n t) : h.Within (n + 1) t := by
  induction n generalizing t with
  | zero => exact ht.elim
  | succ n ih => exact fun u hu => ih (ht u hu)

lemma Within.mono {n m : Nat} {t : TypeExpr} (ht : h.Within n t) (hnm : n ≤ m) :
    h.Within m t := by
  induction hnm with
  | refl => exact ht
  | step _ ih => exact ih.succ

/-- A type whose walks through unguarded positions are bounded. -/
def Grounded (h : Heap) (t : TypeExpr) : Prop :=
  ∃ n, h.Within n t

lemma grounded_of_unguarded {t : TypeExpr} (ht : ∀ u ∈ h.unguarded t, h.Grounded u) :
    h.Grounded t := by
  suffices ∃ n, ∀ u ∈ h.unguarded t, h.Within n u from this.imp' (· + 1) fun _ hn => hn
  generalize h.unguarded t = us at ht
  induction us with
  | nil => exact ⟨0, by simp⟩
  | cons u us ih =>
    rw [List.forall_mem_cons] at ht
    obtain ⟨n, hn⟩ := ht.1
    obtain ⟨m, hm⟩ := ih ht.2
    refine ⟨max n m, List.forall_mem_cons.2 ⟨hn.mono (Nat.le_max_left n m), fun v hv => ?_⟩⟩
    exact (hm v hv).mono (Nat.le_max_right n m)

lemma Grounded.unguarded {t u : TypeExpr} (ht : h.Grounded t) (hu : u ∈ h.unguarded t) :
    h.Grounded u := by
  obtain ⟨_ | n, hn⟩ := ht
  · exact hn.elim
  · exact ⟨n, hn u hu⟩

/-! ## The walk -/

/-- Stamps of named types whose bodies, if they have one, are grounded. -/
def Done (h : Heap) (done : List Nat) : Prop :=
  ∀ stamp ∈ done, ∀ body, h.body? stamp = some body → h.Grounded body

/-- The path on which a walk stands: distinct named types that all have a body. -/
structure OnPath (h : Heap) (path : Path) : Prop where
  nodup : (path.map (·.1)).Nodup
  bodies : ∀ p ∈ path, (h.body? p.1).isSome

/-- There are no more named types on a path than bodies. -/
lemma OnPath.length_le {path : Path} (hp : h.OnPath path) : path.length ≤ h.bodies.size := by
  have hsub : path.map (·.1) ⊆ h.bodies.keys := by
    intro stamp hstamp
    obtain ⟨p, hmem, rfl⟩ := List.mem_map.1 hstamp
    have := hp.bodies p hmem
    rw [Std.HashMap.mem_keys, Std.HashMap.mem_iff_isSome_getElem?]
    exact this
  have := (List.subperm_of_subset hp.nodup hsub).length_le
  rwa [List.length_map, Std.HashMap.length_keys] at this

lemma OnPath.snoc {path : Path} (hp : h.OnPath path) {stamp : Nat} (name : String)
    (hnot : path.findIdx? (·.1 = stamp) = none) (hbody : (h.body? stamp).isSome) :
    h.OnPath (path ++ [(stamp, name)]) where
  nodup := by
    rw [List.map_append, List.nodup_append]
    refine ⟨hp.nodup, by simp, ?_⟩
    intro x hx y hy hxy
    obtain ⟨p, hmem, rfl⟩ := List.mem_map.1 hx
    simp only [List.map_cons, List.map_nil, List.mem_singleton] at hy
    have := List.findIdx?_eq_none_iff.1 hnot p hmem
    simp [hxy, hy] at this
  bodies p hmem := by
    rcases List.mem_append.1 hmem with hmem | hmem
    · exact hp.bodies p hmem
    · rw [List.mem_singleton] at hmem
      subst hmem
      exact hbody

lemma grounded_named {m : Mark} {name : String} {args : List TypeExpr}
    (hbody : ∀ body, h.body? m.stamp = some body → h.Grounded body) :
    h.Grounded (.named m name args) :=
  grounded_of_unguarded fun u hu => hbody u (by simpa [Heap.unguarded] using hu)

/-- One level of the walk, if walking on in the body of a named type is sound. -/
lemma walkWith_sound {enter : Path → TypeExpr → List Nat → Except ResolutionError (List Nat)}
    {path : Path} (hp : h.OnPath path)
    (hent : ∀ stamp name body done done', h.OnPath (path ++ [(stamp, name)]) → h.Done done →
      enter (path ++ [(stamp, name)]) body done = .ok done' → h.Done done' ∧ h.Grounded body)
    {t : TypeExpr} {done done' : List Nat} (hdone : h.Done done)
    (hwalk : h.walkWith enter path t done = .ok done') : h.Done done' ∧ h.Grounded t := by
  induction t using TypeExpr.parts_induction generalizing done done' with
  | step t ih =>
    cases t with
    | named m name args =>
      simp only [walkWith] at hwalk
      by_cases hmem : m.stamp ∈ done
      · simp only [hmem, if_true, Except.ok.injEq] at hwalk
        subst hwalk
        exact ⟨hdone, grounded_named (hdone m.stamp hmem)⟩
      · simp only [hmem, if_false] at hwalk
        cases hfind : path.findIdx? (·.1 = m.stamp) with
        | some i => simp [hfind] at hwalk
        | none =>
          cases hbody : h.body? m.stamp with
          | none =>
            simp only [hfind, hbody, Except.ok.injEq] at hwalk
            subst hwalk
            have bare : ∀ body, h.body? m.stamp = some body → h.Grounded body := by simp [hbody]
            exact ⟨List.forall_mem_cons.2 ⟨bare, hdone⟩, grounded_named bare⟩
          | some body =>
            simp only [hfind, hbody] at hwalk
            obtain ⟨done₁, henter, hpure⟩ := bind_eq_ok.1 hwalk
            rw [pure_eq_ok] at hpure
            subst hpure
            obtain ⟨hdone₁, hgrounded⟩ := hent m.stamp name body done done₁
              (hp.snoc name hfind (by simp [hbody])) hdone henter
            have only : ∀ b, h.body? m.stamp = some b → h.Grounded b := fun b hb => by
              rw [hbody] at hb
              cases hb
              exact hgrounded
            exact ⟨List.forall_mem_cons.2 ⟨only, hdone₁⟩, grounded_named only⟩
    | union m left right | complement m left right | predicate m left right listed =>
      simp only [walkWith] at hwalk
      obtain ⟨done₁, hleft, hright⟩ := bind_eq_ok.1 hwalk
      obtain ⟨hdone₁, hl⟩ := ih left (by simp [TypeExpr.parts]) hdone hleft
      obtain ⟨hdone₂, hr⟩ := ih right (by simp [TypeExpr.parts]) hdone₁ hright
      exact ⟨hdone₂, grounded_of_unguarded (by simp [Heap.unguarded, hl, hr])⟩
    | delegation m base targets =>
      simp only [walkWith] at hwalk
      obtain ⟨hdone', hbase⟩ := ih base (by simp [TypeExpr.parts]) hdone hwalk
      exact ⟨hdone', grounded_of_unguarded (by simpa [Heap.unguarded] using hbase)⟩
    | _ =>
      simp only [walkWith, Except.ok.injEq] at hwalk
      subst hwalk
      exact ⟨hdone, 1, by simp [Within, Heap.unguarded]⟩

/-- The walk, with a bound that the length of the path leaves room for. -/
lemma walk_sound {bound : Nat} {path : Path} (hp : h.OnPath path)
    (hbound : path.length + bound = h.bodies.size + 1) {t : TypeExpr} {done done' : List Nat}
    (hdone : h.Done done) (hwalk : h.walk bound path t done = .ok done') :
    h.Done done' ∧ h.Grounded t := by
  induction bound generalizing path t done done' with
  | zero =>
    have := hp.length_le
    omega
  | succ bound ih =>
    refine walkWith_sound hp (fun stamp name body done₁ done₂ hp' hdone₁ hwalk' => ?_) hdone hwalk
    refine ih hp' ?_ hdone₁ hwalk'
    rw [List.length_append, List.length_singleton]
    omega

/-- All roots of a successful check are grounded. -/
lemma grounded_of_checkProductive {roots : List TypeExpr}
    (hcheck : h.checkProductive roots = .ok ()) : ∀ t ∈ roots, h.Grounded t := by
  obtain ⟨done', hfold, -⟩ := bind_eq_ok.1 hcheck
  suffices ∀ done, h.Done done →
      roots.foldlM (fun done t => h.walk (h.bodies.size + 1) [] t done) done = .ok done' →
        ∀ t ∈ roots, h.Grounded t from this [] (by simp [Done]) hfold
  clear hfold hcheck
  induction roots with
  | nil => simp
  | cons t roots ih =>
    intro done hdone hfold
    rw [List.foldlM_cons] at hfold
    obtain ⟨done₁, hwalk, hrest⟩ := bind_eq_ok.1 hfold
    obtain ⟨hdone₁, ht⟩ := walk_sound ⟨by simp, by simp⟩ (by simp) hdone hwalk
    exact List.forall_mem_cons.2 ⟨ht, ih done₁ hdone₁ hrest⟩

/-! ## Later heaps -/

end Heap

/-- What is at the unguarded positions of a type is built over the same nodes. -/
lemma Wired.unguarded {registry : Registry} {K : Nodes} {s : Store} (hK : Wired registry K s)
    {t u : TypeExpr} (ht : t.ResolvedOver K) (hu : u ∈ s.heap.unguarded t) : u.ResolvedOver K := by
  cases t with
  | named m name args =>
    obtain ⟨d, -, -, hbody⟩ := hK.declared ht.self
    exact (hbody u (by simpa [Heap.unguarded] using hu)).1
  | union m left right | complement m left right | delegation m base targets
  | predicate m constraint body listed =>
    refine ht.part ?_
    simp only [Heap.unguarded, List.mem_cons, List.not_mem_nil, or_false] at hu
    simp only [TypeExpr.parts, List.mem_cons, List.not_mem_nil, or_false]
    first | exact hu | exact .inl hu
  | _ => simp [Heap.unguarded] at hu

namespace Heap

variable {h h' : Heap}

/-- Whether a type over a set of nodes is grounded is decided by the bodies of these nodes. -/
lemma Grounded.later {registry : Registry} {K : Nodes} {s s' : Store} (hK : Wired registry K s)
    (bodies : ∀ n < s.nextStamp, s'.heap.body? n = s.heap.body? n) {t : TypeExpr}
    (ht : t.ResolvedOver K) (hg : s.heap.Grounded t) : s'.heap.Grounded t := by
  obtain ⟨n, hn⟩ := hg
  refine ⟨n, ?_⟩
  induction n generalizing t with
  | zero => exact hn
  | succ n ih =>
    intro u hu
    have hunguarded : s'.heap.unguarded t = s.heap.unguarded t := by
      cases t with
      | named m name args =>
        have hstamp : m.stamp < s.nextStamp := (hK.placed ht.self).2
        simp only [Heap.unguarded, bodies _ hstamp]
      | _ => rfl
    rw [hunguarded] at hu
    exact ih (hK.unguarded ht hu) (hn u hu)

end Heap

end TypeNotation
