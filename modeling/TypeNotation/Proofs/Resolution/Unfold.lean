import Mathlib.Data.List.Nodup
import TypeNotation.Proofs.Resolution.Grounded

/-!
# Unfolding of grounded types

A named type is unfolded by following bodies.  For a grounded type the chain of bodies is finite and
does not pass a name twice, so that neither the bound nor the record of passed names cuts it short.
A grounded type is unfolded to what its body is unfolded to.
-/

namespace TypeNotation

namespace Heap

variable {h : Heap}

/-- The end of a chain of bodies: anything but a named type with a body. -/
def Settles (h : Heap) : TypeExpr → Prop
  | .named m _ _ => h.body? m.stamp = none
  | _ => True

/-- The chain of bodies from a type, by the stamps of the named types on it, and its end. -/
inductive Chain (h : Heap) : TypeExpr → List Nat → TypeExpr → Prop
  | done {t : TypeExpr} (ht : h.Settles t) : Chain h t [] t
  | step {m : Mark} {name : String} {args : List TypeExpr} {body u : TypeExpr} {stamps : List Nat}
    (hbody : h.body? m.stamp = some body) (rest : Chain h body stamps u) :
    Chain h (.named m name args) (m.stamp :: stamps) u

variable {t u u' : TypeExpr} {stamps stamps' : List Nat}

lemma Chain.settles (c : h.Chain t stamps u) : h.Settles u := by
  induction c with
  | done ht => exact ht
  | step _ _ ih => exact ih

/-- There is one chain from a type. -/
lemma Chain.unique (c : h.Chain t stamps u) (c' : h.Chain t stamps' u') :
    stamps = stamps' ∧ u = u' := by
  induction c generalizing stamps' u' with
  | done ht =>
    cases c' with
    | done _ => exact ⟨rfl, rfl⟩
    | step hbody _ =>
      rw [Settles, hbody] at ht
      cases ht
  | step hbody rest ih =>
    cases c' with
    | done ht =>
      rw [Settles, hbody] at ht
      cases ht
    | step hbody' rest' =>
      rw [hbody, Option.some.injEq] at hbody'
      subst hbody'
      obtain ⟨hstamps, hend⟩ := ih rest'
      exact ⟨by rw [hstamps], hend⟩

/-- Where a chain passes a stamp it goes on with the body under that stamp. -/
lemma Chain.from_stamp (c : h.Chain t stamps u) {stamp : Nat} (hmem : stamp ∈ stamps) :
    ∃ before after body, stamps = before ++ stamp :: after ∧ h.body? stamp = some body ∧
      h.Chain body after u := by
  induction c with
  | done _ => cases hmem
  | @step m name args body u stamps hbody rest ih =>
    by_cases heq : stamp = m.stamp
    · exact ⟨[], stamps, body, by simp [heq], heq ▸ hbody, rest⟩
    · have hmem : stamp ∈ stamps := by simpa [heq] using hmem
      obtain ⟨before, after, body', hsplit, hbody', rest'⟩ := ih hmem
      exact ⟨m.stamp :: before, after, body', by rw [hsplit, List.cons_append], hbody', rest'⟩

/-- A chain that passed a stamp twice would go on from there with a shorter chain of itself. -/
lemma Chain.nodup (c : h.Chain t stamps u) : stamps.Nodup := by
  induction c with
  | done _ => exact List.nodup_nil
  | step hbody rest ih =>
    rw [List.nodup_cons]
    refine ⟨fun hmem => ?_, ih⟩
    obtain ⟨before, after, body, hsplit, hbody', rest'⟩ := rest.from_stamp hmem
    rw [hbody, Option.some.injEq] at hbody'
    subst hbody'
    have hlength := congrArg List.length (rest.unique rest').1
    rw [hsplit, List.length_append, List.length_cons] at hlength
    omega

lemma Chain.length_le (c : h.Chain t stamps u) : stamps.length ≤ h.bodies.size := by
  have onPath : h.OnPath (stamps.map fun stamp => (stamp, "")) := by
    refine ⟨?_, fun p hp => ?_⟩
    · simpa [List.map_map, Function.comp_def] using c.nodup
    · obtain ⟨stamp, hmem, rfl⟩ := List.mem_map.1 hp
      obtain ⟨-, -, body, -, hbody, -⟩ := c.from_stamp hmem
      simp [hbody]
  simpa using onPath.length_le

lemma Chain.unfoldFrom_eq (c : h.Chain t stamps u) {bound : Nat} {seen : List Nat}
    (hbound : stamps.length < bound) (hseen : (seen ++ stamps).Nodup) :
    h.unfoldFrom bound seen t = u := by
  induction c generalizing bound seen with
  | @done t ht =>
    obtain ⟨bound, rfl⟩ := Nat.exists_eq_add_of_lt hbound
    cases t with
    | named m name args =>
      have hbody : h.body? m.stamp = none := ht
      simp [unfoldFrom, hbody]
    | _ => simp [unfoldFrom]
  | @step m name args body u stamps hbody rest ih =>
    rw [List.length_cons] at hbound
    obtain ⟨bound, rfl⟩ : ∃ b, bound = b + 1 := ⟨bound - 1, by omega⟩
    have hnot : m.stamp ∉ seen := fun hmem =>
      (List.nodup_append.1 hseen).2.2 _ hmem _ List.mem_cons_self rfl
    simp only [unfoldFrom, hbody, hnot, if_false]
    refine ih (by omega) ?_
    rw [List.cons_append, List.nodup_cons]
    have hmid := (List.nodup_middle).1 hseen
    exact List.nodup_cons.1 hmid

lemma Chain.unfold_eq (c : h.Chain t stamps u) : h.unfold t = u :=
  c.unfoldFrom_eq (Nat.lt_succ_of_le c.length_le) (by simpa using c.nodup)

/-- From a grounded type there is a chain. -/
lemma Within.chain {n : Nat} (ht : h.Within n t) : ∃ stamps u, h.Chain t stamps u := by
  induction n generalizing t with
  | zero => exact ht.elim
  | succ n ih =>
    cases t with
    | named m name args =>
      cases hbody : h.body? m.stamp with
      | none => exact ⟨[], _, .done hbody⟩
      | some body =>
        obtain ⟨stamps, u, c⟩ := ih (ht body (by simp [unguarded, hbody]))
        exact ⟨m.stamp :: stamps, u, .step hbody c⟩
    | _ => exact ⟨[], _, .done trivial⟩

lemma Chain.within (c : h.Chain t stamps u) {n : Nat} (ht : h.Within n t) : h.Within n u := by
  induction c generalizing n with
  | done _ => exact ht
  | step hbody _ ih =>
    cases n with
    | zero => exact ht.elim
    | succ n => exact (ih (ht _ (by simp [unguarded, hbody]))).succ

/-- A named type unfolds to what its body unfolds to. -/
lemma Grounded.unfold_named {m : Mark} {name : String} {args : List TypeExpr} {body : TypeExpr}
    (hg : h.Grounded (.named m name args)) (hbody : h.body? m.stamp = some body) :
    h.unfold (.named m name args) = h.unfold body := by
  have hmem : body ∈ Heap.unguarded h (.named m name args) := by simp [Heap.unguarded, hbody]
  obtain ⟨n, hn⟩ := hg.unguarded hmem
  obtain ⟨stamps, u, c⟩ := hn.chain
  rw [c.unfold_eq, (Chain.step hbody c).unfold_eq]

/-- What a grounded type unfolds to is not a named type with a body. -/
lemma Grounded.settles_unfold (hg : h.Grounded t) : h.Settles (h.unfold t) := by
  obtain ⟨n, hn⟩ := hg
  obtain ⟨stamps, u, c⟩ := hn.chain
  rw [c.unfold_eq]
  exact c.settles

lemma Within.unfold {n : Nat} (ht : h.Within n t) : h.Within n (h.unfold t) := by
  obtain ⟨stamps, u, c⟩ := ht.chain
  rw [c.unfold_eq]
  exact c.within ht

/-- A type that is not named stands for itself. -/
lemma unfold_of_settles (ht : h.Settles t) : h.unfold t = t :=
  (Chain.done ht).unfold_eq

/-! ## Later heaps -/

/-- The chain from a type over a set of nodes is decided by the bodies of these nodes. -/
lemma Chain.later {registry : Registry} {K : Nodes} {s s' : Store} (hK : Wired registry K s)
    (bodies : ∀ n < s.nextStamp, s'.heap.body? n = s.heap.body? n) (c : s.heap.Chain t stamps u)
    (ht : t.ResolvedOver K) : s'.heap.Chain t stamps u := by
  induction c with
  | @done t settles =>
    refine .done ?_
    cases t with
    | named m name args =>
      have hstamp : m.stamp < s.nextStamp := (hK.placed ht.self).2
      rw [Settles, bodies _ hstamp]
      exact settles
    | _ => trivial
  | @step m name args body u stamps hbody rest ih =>
    have hstamp : m.stamp < s.nextStamp := (hK.placed ht.self).2
    obtain ⟨d, -, -, declared⟩ := hK.declared ht.self
    exact .step ((bodies _ hstamp).trans hbody) (ih (declared body hbody).1)

end Heap

end TypeNotation
