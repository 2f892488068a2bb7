import Mathlib.Order.Lattice.Nat
import TypeNotation.Proofs.Resolution.Unfold

/-!
# Heights

The height of a grounded type is the least bound on walks through its unguarded positions.  It drops
with every such step, and with every unfolding of a named type that has a body.
-/

namespace TypeNotation

namespace Heap

variable {h : Heap} {t u : TypeExpr}

/-- The least bound on walks through unguarded positions. -/
noncomputable def height (h : Heap) (t : TypeExpr) : Nat :=
  sInf {n | h.Within n t}

lemma Grounded.within (hg : h.Grounded t) : h.Within (h.height t) t :=
  Nat.sInf_mem hg

lemma Within.height_le {n : Nat} (ht : h.Within n t) : h.height t ≤ n :=
  Nat.sInf_le ht

/-- Unguarded positions are lower. -/
lemma Grounded.height_lt (hg : h.Grounded t) (hu : u ∈ h.unguarded t) :
    h.height u < h.height t := by
  have within := hg.within
  cases hn : h.height t with
  | zero =>
    rw [hn] at within
    exact within.elim
  | succ n =>
    rw [hn] at within
    exact Nat.lt_succ_of_le (Within.height_le (within u hu))

lemma Grounded.height_unfold_le (hg : h.Grounded t) : h.height (h.unfold t) ≤ h.height t :=
  (Within.unfold hg.within).height_le

/-- A named type that has a body is higher than what it unfolds to. -/
lemma Grounded.height_unfold_lt {m : Mark} {name : String} {args : List TypeExpr}
    {body : TypeExpr} (hg : h.Grounded (.named m name args)) (hbody : h.body? m.stamp = some body) :
    h.height (h.unfold (.named m name args)) < h.height (.named m name args) := by
  have hmem : body ∈ h.unguarded (.named m name args) := by simp [Heap.unguarded, hbody]
  rw [hg.unfold_named hbody]
  exact Nat.lt_of_le_of_lt (hg.unguarded hmem).height_unfold_le (hg.height_lt hmem)

end Heap

end TypeNotation
