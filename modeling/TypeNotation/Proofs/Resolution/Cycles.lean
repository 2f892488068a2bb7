import Mathlib.Data.List.Chain
import Mathlib.Data.Nat.Init
import TypeNotation.Proofs.Resolution.Grounded

/-!
# Named types that lead back to themselves

The check for productivity refuses a cycle of named types, where each step goes through unguarded
positions only.  Such a cycle cannot be there if a named type on it is grounded, since each step
takes one off the bound; so a successful check excludes cycles.

A check that fails has found one.  The path on which the walk stands is a chain of such steps, and
what is reported is the part of it from the first type with the stamp that came up again.
-/

namespace TypeNotation

open TypeExpr

namespace TypeExpr

/-- The named types at the unguarded positions of a type. -/
def exposed : TypeExpr → List TypeExpr
  | named m name args => [named m name args]
  | union _ left right | complement _ left right | predicate _ left right _ =>
    left.exposed ++ right.exposed
  | delegation _ base _ => base.exposed
  | _ => []

/-- The name of a named type. -/
def label : TypeExpr → String
  | named _ name _ => name
  | _ => ""

@[simp] lemma label_named (m : Mark) (name : String) (args : List TypeExpr) :
    (named m name args).label = name := rfl

/-- What is reported of a cycle of named types: their names, the first of them repeated at the
end. -/
def reported (n : TypeExpr) (rest : List TypeExpr) : List String :=
  (n :: rest ++ [n]).map label

end TypeExpr

namespace Heap

variable {h : Heap} {t u n : TypeExpr} {rest nodes : List TypeExpr} {K : Nodes}

/-- A named type leads to another one through its body and unguarded positions only. -/
def Enters (h : Heap) (t u : TypeExpr) : Prop :=
  ∃ m name args body, t = .named m name args ∧ h.body? m.stamp = some body ∧ u ∈ body.exposed

/-- Named types each of which leads to the next one through unguarded positions only, and the last
of them to the first. -/
def Cycle (h : Heap) (n : TypeExpr) (rest : List TypeExpr) : Prop :=
  List.IsChain h.Enters (n :: rest ++ [n])

/-- There is a cycle with some names, whose types were all made from a stamp on. -/
def Exhibits (h : Heap) (since : Nat) (names : List String) : Prop :=
  ∃ n rest, h.Cycle n rest ∧ names = reported n rest ∧ ∀ t ∈ n :: rest, since ≤ t.stamp

/-! ## Grounded types are on no cycle -/

lemma Within.exposed {k : Nat} (ht : h.Within k t) (hu : u ∈ t.exposed) : h.Within k u := by
  induction t using parts_induction generalizing k with
  | step t ih =>
    have through {v : TypeExpr} (hv : v ∈ h.unguarded t) (hpart : v ∈ t.parts)
      (hu : u ∈ v.exposed) :
        h.Within k u := by
      cases k with
      | zero => exact ht.elim
      | succ k => exact (ih v hpart (ht v hv) hu).succ
    cases t with
    | named m name args => exact List.mem_singleton.1 hu ▸ ht
    | union m left right | complement m left right | predicate m left right listed =>
      rcases List.mem_append.1 hu with hu | hu
      · exact through (by simp [Heap.unguarded]) (by simp [parts]) hu
      · exact through (by simp [Heap.unguarded]) (by simp [parts]) hu
    | delegation m base targets =>
      exact through (v := base) (by simp [Heap.unguarded]) (by simp [parts]) hu
    | _ => cases hu

/-- Each step takes one off the bound. -/
lemma Within.enters {k : Nat} (ht : h.Within (k + 1) t) (enters : h.Enters t u) : h.Within k u := by
  obtain ⟨m, name, args, body, rfl, hbody, hu⟩ := enters
  exact (ht body (Option.mem_toList.2 hbody)).exposed hu

/-- The bound of a named type depends on its stamp only. -/
lemma Within.of_stamp {k : Nat} {m m' : Mark} {name name' : String} {args args' : List TypeExpr}
    (hstamp : m.stamp = m'.stamp) (ht : h.Within k (.named m name args)) :
    h.Within k (.named m' name' args') := by
  cases k with
  | zero => exact ht.elim
  | succ k => exact fun u hu => ht u (by simpa only [Heap.unguarded, hstamp] using hu)

/-- A chain of steps takes its length off the bound. -/
lemma Within.passed {k : Nat} (ht : h.Within k n)
    (chain : List.IsChain h.Enters (n :: rest ++ [t])) : ∃ j, j < k ∧ h.Within j t := by
  induction rest generalizing n k with
  | nil =>
    cases k with
    | zero => exact ht.elim
    | succ k => exact ⟨k, Nat.lt_succ_self k, ht.enters (List.isChain_pair.1 chain)⟩
  | cons v rest ih =>
    obtain ⟨enters, chain⟩ := List.isChain_cons_cons.1 chain
    cases k with
    | zero => exact ht.elim
    | succ k =>
      obtain ⟨j, hj, within⟩ := ih (ht.enters enters) chain
      exact ⟨j, Nat.lt_succ_of_lt hj, within⟩

/-- A named type from which a chain comes back to its stamp is not grounded. -/
lemma not_grounded_of_chain {m m' : Mark} {name name' : String} {args args' : List TypeExpr}
    (hstamp : m'.stamp = m.stamp) (chain : List.IsChain h.Enters
      (.named m name args :: rest ++ [.named m' name' args'])) :
    ¬ h.Grounded (.named m name args) := by
  rintro ⟨k, within⟩
  induction k using Nat.strong_induction_on with
  | _ k ih =>
    obtain ⟨j, hj, back⟩ := within.passed chain
    exact ih j hj (back.of_stamp hstamp)

lemma Grounded.enters (ht : h.Grounded t) (enters : h.Enters t u) : h.Grounded u := by
  obtain ⟨k, within⟩ := ht
  exact ⟨k, Within.enters within.succ enters⟩

/-- Nothing on a chain that ends in a type which is not grounded is grounded. -/
lemma not_grounded_of_mem_chain (chain : List.IsChain h.Enters (nodes ++ [t]))
    (bad : ¬ h.Grounded t) : ∀ x ∈ nodes, ¬ h.Grounded x := by
  induction nodes with
  | nil => simp
  | cons v nodes ih =>
    have tail : List.IsChain h.Enters (nodes ++ [t]) := chain.tail
    have rest := ih tail
    refine List.forall_mem_cons.2 ⟨fun grounded => ?_, rest⟩
    cases nodes with
    | nil => exact bad (grounded.enters (List.isChain_pair.1 chain))
    | cons w nodes =>
      exact rest w List.mem_cons_self (grounded.enters (List.isChain_cons_cons.1 chain).1)

/-- Everything on a chain but its end is a named type. -/
lemma exists_named_of_mem_chain (chain : List.IsChain h.Enters (nodes ++ [t])) :
    ∀ x ∈ nodes, ∃ m name args, x = .named m name args := by
  induction nodes with
  | nil => simp
  | cons v nodes ih =>
    refine List.forall_mem_cons.2 ⟨?_, ih chain.tail⟩
    have next : ∃ w, h.Enters v w := by
      cases nodes with
      | nil => exact ⟨t, List.isChain_pair.1 chain⟩
      | cons w nodes => exact ⟨w, (List.isChain_cons_cons.1 chain).1⟩
    obtain ⟨w, m, name, args, -, rfl, -⟩ := next
    exact ⟨m, name, args, rfl⟩

/-- Nothing on a chain of named types that comes back to a stamp is grounded. -/
lemma not_grounded_of_return (chain : List.IsChain h.Enters (n :: rest ++ [t]))
    (hstamp : t.stamp = n.stamp) (ht : ∃ m name args, t = .named m name args) :
    ∀ x ∈ n :: rest ++ [t], ¬ h.Grounded x := by
  obtain ⟨m, name, args, rfl⟩ := exists_named_of_mem_chain chain n List.mem_cons_self
  obtain ⟨m', name', args', rfl⟩ := ht
  have start := not_grounded_of_chain hstamp chain
  have back : ¬ h.Grounded (.named m' name' args') := fun ⟨k, within⟩ =>
    start ⟨k, within.of_stamp hstamp⟩
  exact List.forall_mem_append.2
    ⟨not_grounded_of_mem_chain chain back, List.forall_mem_singleton.2 back⟩

lemma Cycle.not_grounded (cycle : h.Cycle n rest) : ¬ h.Grounded n :=
  not_grounded_of_return cycle rfl (exists_named_of_mem_chain cycle n List.mem_cons_self) n
    List.mem_cons_self

/-! ## What a failed walk has found -/

/-- The path of a walk that stands in the bodies of some named types. -/
def trail (nodes : List TypeExpr) : Path :=
  nodes.map fun n => (n.stamp, n.label)

/-- A walk has come back to a stamp: a chain of nodes of a set leads from a named type to one with
the same stamp, and the error names them. -/
def Returns (h : Heap) (K : Nodes) (e : ResolutionError) : Prop :=
  ∃ n rest t position, List.IsChain h.Enters (n :: rest ++ [t]) ∧ t.stamp = n.stamp ∧
    (∃ m name args, t = .named m name args) ∧ (∀ x ∈ n :: rest ++ [t], K x) ∧
      e = .cyclic ((n :: rest ++ [t]).map label) position

section Walk

variable (closed : ∀ t, K t → ∀ u ∈ h.unguarded t, K u)
include closed

/-- One level of the walk, if walking on in the body of a named type is right about its errors. -/
lemma returns_of_walkWith {enter : Path → TypeExpr → List Nat → Except ResolutionError (List Nat)}
    (hent : ∀ m name args body done e, List.IsChain h.Enters (nodes ++ [.named m name args]) →
      K (.named m name args) → h.body? m.stamp = some body →
        enter (trail (nodes ++ [.named m name args])) body done = .error e → h.Returns K e)
    (hnodes : ∀ x ∈ nodes, K x) {done : List Nat} {e : ResolutionError} (ht : K t)
    (next : ∀ u ∈ t.exposed, List.IsChain h.Enters (nodes ++ [u]))
    (hwalk : h.walkWith enter (trail nodes) t done = .error e) : h.Returns K e := by
  induction t using parts_induction generalizing done with
  | step t ih =>
    cases t with
    | named m name args =>
      have chain := next _ (List.mem_singleton_self _)
      simp only [walkWith] at hwalk
      split at hwalk
      · cases hwalk
      · cases hfind : (trail nodes).findIdx? (·.1 = m.stamp) with
        | none =>
          cases hbody : h.body? m.stamp with
          | none => simp [hfind, hbody] at hwalk
          | some body =>
            simp only [hfind, hbody] at hwalk
            have longer : trail nodes ++ [(m.stamp, name)] =
              trail (nodes ++ [.named m name args]) := by
              simp [trail, stamp, mark, label]
            rw [longer] at hwalk
            cases henter : enter (trail (nodes ++ [.named m name args])) body done with
            | ok done' =>
              rw [henter] at hwalk
              cases hwalk
            | error e' =>
              rw [henter] at hwalk
              cases hwalk
              exact hent m name args body done _ chain ht hbody henter
        | some i =>
          simp only [hfind, Except.error.injEq] at hwalk
          obtain ⟨hi, hstamp, -⟩ := List.findIdx?_eq_some_iff_getElem.1 hfind
          have hi : i < nodes.length := by simpa [trail] using hi
          have hstamp : nodes[i].stamp = m.stamp := by simpa [trail] using hstamp
          have split : nodes = nodes.take i ++ nodes[i] :: nodes.drop (i + 1) := by simp
          refine ⟨nodes[i], nodes.drop (i + 1), .named m name args, m.position, ?_, ?_,
            ⟨m, name, args, rfl⟩, ?_, ?_⟩
          · rw [split, List.append_assoc] at chain
            exact (List.isChain_append.1 chain).2.1
          · exact hstamp.symm
          · simp only [List.cons_append, List.forall_mem_cons, List.forall_mem_append,
              List.not_mem_nil, false_implies, implies_true, and_true]
            exact ⟨hnodes _ (List.getElem_mem hi), fun x hx =>
              hnodes x (List.mem_of_mem_drop hx), ht⟩
          · simp only [← hwalk, trail, ← List.map_drop, List.drop_eq_getElem_cons hi, List.map_cons,
              List.map_append, List.map_map, List.map_nil, List.cons_append, label_named,
              Function.comp_def]
    | union m left right | complement m left right | predicate m left right listed =>
      simp only [walkWith] at hwalk
      have part {v : TypeExpr} (hv : v ∈ [left, right]) : K v := closed _ ht v hv
      cases hleft : h.walkWith enter (trail nodes) left done with
      | error e' =>
        rw [hleft] at hwalk
        cases hwalk
        exact ih left (by simp [parts]) (part (by simp))
          (fun u hu => next u (List.mem_append_left _ hu)) hleft
      | ok done' =>
        rw [hleft] at hwalk
        exact ih right (by simp [parts]) (part (by simp))
          (fun u hu => next u (List.mem_append_right _ hu)) hwalk
    | delegation m base targets =>
      exact ih base (by simp [parts]) (closed _ ht base (by simp [Heap.unguarded])) next hwalk
    | _ => cases hwalk

lemma returns_of_walk {bound : Nat} (hnodes : ∀ x ∈ nodes, K x) {done : List Nat}
    {e : ResolutionError} (ht : K t) (next : ∀ u ∈ t.exposed, List.IsChain h.Enters (nodes ++ [u]))
    (hwalk : h.walk bound (trail nodes) t done = .error e) : h.Returns K e := by
  induction bound generalizing nodes t done e with
  | zero =>
    exact returns_of_walkWith closed (fun _ _ _ _ _ _ _ _ _ henter => by cases henter)
      hnodes ht next
      hwalk
  | succ bound ih =>
    refine returns_of_walkWith closed
      (fun m name args body done e chain hn hbody henter => ?_) hnodes
      ht next hwalk
    refine ih (List.forall_mem_append.2 ⟨hnodes, List.forall_mem_singleton.2 hn⟩)
      (closed _ hn body (Option.mem_toList.2 hbody)) (fun u hu => ?_) henter
    refine List.isChain_append.2 ⟨chain, .singleton u, fun x hx y hy => ?_⟩
    simp only [List.getLast?_append, List.getLast?_singleton, Option.some_or, Option.mem_def,
      Option.some.injEq, List.head?_cons] at hx hy
    subst hx hy
    exact ⟨m, name, args, body, rfl, hbody, hu⟩

/-- A check that fails has come back to a stamp. -/
lemma returns_of_checkProductive {roots : List TypeExpr} (hroots : ∀ t ∈ roots, K t)
    {e : ResolutionError} (hcheck : h.checkProductive roots = .error e) : h.Returns K e := by
  have fails : ∀ done, roots.foldlM (fun done t => h.walk (h.bodies.size + 1) [] t done) done =
      .error e → h.Returns K e := by
    clear hcheck
    induction roots with
    | nil => exact fun _ hfold => by cases hfold
    | cons t roots ih =>
      intro done hfold
      rw [List.forall_mem_cons] at hroots
      rw [List.foldlM_cons] at hfold
      cases hwalk : h.walk (h.bodies.size + 1) [] t done with
      | error e' =>
        rw [hwalk] at hfold
        cases hfold
        have walked : h.walk (h.bodies.size + 1) (trail []) t done = .error e := hwalk
        exact returns_of_walk closed (by simp) hroots.1 (fun u _ => List.isChain_singleton u) walked
      | ok done' =>
        rw [hwalk] at hfold
        exact ih hroots.2 done' hfold
  rw [checkProductive] at hcheck
  cases hfold : roots.foldlM (fun done t => h.walk (h.bodies.size + 1) [] t done) [] with
  | ok done =>
    rw [hfold] at hcheck
    cases hcheck
  | error e' =>
    rw [hfold] at hcheck
    cases hcheck
    exact fails [] hfold

end Walk

end Heap

end TypeNotation
