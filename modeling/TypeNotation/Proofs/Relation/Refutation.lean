import TypeNotation.Proofs.Relation.Balance

/-!
# Refutations of an overlap

That two types do not overlap has a *refutation*: a finite derivation, in which either type may be
taken apart at each step.  A refutation therefore says nothing about the order of the two types.
Subtyping, which complements appeal to, is not derived but asked.

A test that says no has found a refutation.  A test that says yes leaves no room for one, provided
that the types are balanced: whatever step a refutation takes last, the test has taken it too, in
its own order.  Assumed pairs are no exception, since a pair that comes up again has a refutation
that takes fewer steps if it has any.
-/

namespace TypeNotation

open TypeExpr Query

namespace Heap

variable {h : Heap} {a b t u : TypeExpr}

lemma reveal_of_not_isReferring (ht : t.isReferring = false) : h.reveal t = .ok t := by
  cases t with
  | named | deferred => cases ht
  | _ => exact congrArg Except.ok (unfold_of_settles trivial)

/-- What is revealed is exposed, or the same. -/
lemma exposes_or_eq (hu : h.reveal t = .ok u) :
    t.isReferring = true ∧ h.Exposes t u ∨ t.isReferring = false ∧ u = t := by
  cases ht : t.isReferring with
  | true => exact .inl ⟨rfl, .revealed ht hu⟩
  | false =>
    rw [reveal_of_not_isReferring ht] at hu
    exact .inr ⟨rfl, (Except.ok.inj hu).symm⟩

lemma Balanced.revealed (balanced : h.Balanced a b) (hu : h.reveal a = .ok u) :
    h.Balanced u b := by
  rcases exposes_or_eq hu with ⟨-, exposes⟩ | ⟨-, rfl⟩
  · exact balanced.first exposes
  · exact balanced

lemma Balanced.bothRevealed {b' : TypeExpr} (balanced : h.Balanced a b) (ha : h.reveal a = .ok u)
    (hb : h.reveal b = .ok b') : h.Balanced u b' :=
  ((balanced.revealed ha).symm.revealed hb).symm

/-- A type that exposes another is no structure. -/
lemma Exposes.isStructure (exposes : h.Exposes t u) : t.isStructure = false := by
  cases exposes with
  | revealed href => simp [TypeExpr.isStructure, href]
  | _ => rfl

end Heap

namespace Matcher

/-- The last step of a refutation, which takes the first type apart or compares two structures. -/
inductive Refutes (m : Matcher) (R : TypeExpr → TypeExpr → Prop) : TypeExpr → TypeExpr → Prop
  | union {mk : Mark} {l r y : TypeExpr} : R l y → R r y → m.Refutes R (.union mk l r) y
  | minuend {mk : Mark} {l r y : TypeExpr} : R l y → m.Refutes R (.complement mk l r) y
  | subtrahend {mk : Mark} {l r y : TypeExpr} {depth : Nat} : y.isReferring = false →
    m.subtype depth [] [] [] y r = .ok true → m.Refutes R (.complement mk l r) y
  | body {mk : Mark} {constraint body y : TypeExpr} {listed : List Binder} : R body y →
    m.Refutes R (.predicate mk constraint body listed) y
  | base {mk : Mark} {base y : TypeExpr} {targets : List TypeExpr} : R base y →
    m.Refutes R (.delegation mk base targets) y
  | revealed {x x' y : TypeExpr} : x.isReferring = true → m.heap.reveal x = .ok x' → R x' y →
    m.Refutes R x y
  | structures {x y : TypeExpr} : x.isStructure = true → y.isStructure = true →
    ¬ m.Fits (fun u v => ¬ R u v) x y → m.Refutes R x y

/-- Two types have a refutation of so many steps. -/
def Refuted (m : Matcher) : Nat → TypeExpr → TypeExpr → Prop
  | 0, _, _ => False
  | n + 1, x, y => m.Refutes (m.Refuted n) x y ∨ m.Refutes (m.Refuted n) y x

variable {m : Matcher} {R R' : TypeExpr → TypeExpr → Prop} {a a' b x y : TypeExpr} {n n' : Nat}

lemma Refutes.mono (h : ∀ x y, R x y → R' x y) (refutes : m.Refutes R x y) :
    m.Refutes R' x y := by
  cases refutes with
  | union hl hr => exact .union (h _ _ hl) (h _ _ hr)
  | minuend hl => exact .minuend (h _ _ hl)
  | subtrahend plain below => exact .subtrahend plain below
  | body hb => exact .body (h _ _ hb)
  | base hb => exact .base (h _ _ hb)
  | revealed href hx hy => exact .revealed href hx (h _ _ hy)
  | structures hx hy apart =>
    exact .structures hx hy fun fits => apart (fits.mono fun u v _ => mt (h u v))

namespace Refuted

lemma symm (h : m.Refuted n a b) : m.Refuted n b a := by
  cases n with
  | zero => exact h
  | succ n => exact Or.symm h

lemma succ (h : m.Refuted n a b) : m.Refuted (n + 1) a b := by
  induction n generalizing a b with
  | zero => exact h.elim
  | succ n ih => exact h.imp (Refutes.mono fun _ _ => ih) (Refutes.mono fun _ _ => ih)

lemma mono (le : n ≤ n') (h : m.Refuted n a b) : m.Refuted n' a b := by
  induction le with
  | refl => exact h
  | step _ ih => exact ih.succ

lemma of_revealed (ha : m.heap.reveal a = .ok a') (h : m.Refuted n a' b) :
    m.Refuted (n + 1) a b := by
  rcases Heap.exposes_or_eq ha with ⟨href, -⟩ | ⟨-, rfl⟩
  · exact .inl (.revealed href ha h)
  · exact h.succ

/-! ## What refutations say about parts -/

/-- A refutation of a type that is no structure has a step that takes this type apart.  If all such
steps are made from refutations of some other type, then that type is refuted in fewer steps. -/
lemma part (ruled : a.isStructure = false)
    (parted : ∀ {R : TypeExpr → TypeExpr → Prop} {y}, m.Refutes R a y → R x y)
    (balanced : m.heap.Balanced a y) (h : m.Refuted (n + 1) a y) : m.Refuted n x y := by
  induction n using Nat.strong_induction_on generalizing y with
  | _ n ih =>
    have later {u : TypeExpr} (exposes : m.heap.Exposes y u) (hu : m.Refuted n u a) :
        ∃ k, n = k + 1 ∧ m.Refuted k u x := by
      cases n with
      | zero => exact hu.elim
      | succ k =>
        exact ⟨k, rfl, (ih k (Nat.lt_succ_self k) (balanced.second exposes) hu.symm).symm⟩
    rcases h with h | h
    · exact parted h
    -- the last step takes the other type apart, and the one before is known by induction
    cases h with
    | union hl hr =>
      obtain ⟨k, rfl, left⟩ := later .left hl
      obtain ⟨_, ⟨⟩, right⟩ := later .right hr
      exact .inr (.union left right)
    | minuend hl =>
      obtain ⟨k, rfl, left⟩ := later .minuend hl
      exact .inr (.minuend left)
    | subtrahend plain _ =>
      rw [TypeExpr.isStructure, plain, balanced.even.second rfl] at ruled
      cases ruled
    | body hb =>
      obtain ⟨k, rfl, body⟩ := later .body hb
      exact .inr (.body body)
    | base hb =>
      obtain ⟨k, rfl, base⟩ := later .base hb
      exact .inr (.base base)
    | revealed href hu hy =>
      obtain ⟨k, rfl, revealed⟩ := later (.revealed href hu) hy
      exact .inr (.revealed href hu revealed)
    | structures _ ha _ =>
      rw [ruled] at ha
      cases ha

lemma exposed (balanced : m.heap.Balanced a y) (whole : a.isComplement = false)
    (exposes : m.heap.Exposes a x) (h : m.Refuted (n + 1) a y) : m.Refuted n x y := by
  refine part exposes.isStructure (fun {R y} refutes => ?_) balanced h
  cases exposes with
  | minuend => cases whole
  | left =>
    cases refutes with
    | union hl _ => exact hl
    | revealed h | structures h => cases h
  | right =>
    cases refutes with
    | union _ hr => exact hr
    | revealed h | structures h => cases h
  | body =>
    cases refutes with
    | body hb => exact hb
    | revealed h | structures h => cases h
  | base =>
    cases refutes with
    | base hb => exact hb
    | revealed h | structures h => cases h
  | revealed href hx =>
    cases refutes with
    | revealed _ hx' hy =>
      rw [hx] at hx'
      exact Except.ok.inj hx' ▸ hy
    | structures hs =>
      rw [TypeExpr.isStructure, href, Bool.not_true, Bool.and_false] at hs
      cases hs
    | _ => cases href

lemma unveiled (balanced : m.heap.Balanced a b) (href : a.isReferring = true)
    (ha : m.heap.reveal a = .ok a') (h : m.Refuted (n + 1) a b) : m.Refuted n a' b := by
  have whole : a.isComplement = false := by
    cases a with
    | complement => cases href
    | _ => rfl
  exact h.exposed balanced whole (.revealed href ha)

lemma revealed (balanced : m.heap.Balanced a b) (ha : m.heap.reveal a = .ok a')
    (h : m.Refuted n a b) : m.Refuted n a' b := by
  rcases Heap.exposes_or_eq ha with ⟨href, -⟩ | ⟨-, rfl⟩
  · exact h.succ.unveiled balanced href ha
  · exact h

/-- Where one of two types refers to another node, both are revealed in the same step. -/
lemma bothRevealed {b' : TypeExpr} (balanced : m.heap.Balanced a b)
    (href : (a.isReferring || b.isReferring) = true) (ha : m.heap.reveal a = .ok a')
    (hb : m.heap.reveal b = .ok b') (h : m.Refuted (n + 1) a b) : m.Refuted n a' b' := by
  rcases Bool.or_eq_true_iff.1 href with href | href
  · exact ((h.unveiled balanced href ha).symm.revealed (balanced.revealed ha).symm hb).symm
  · exact (h.symm.unveiled balanced.symm href hb).symm.revealed
      (balanced.symm.revealed hb).symm ha

/-- What no step takes apart is never refuted. -/
lemma not_of_silent (ruled : a.isStructure = false)
    (silent : ∀ {R : TypeExpr → TypeExpr → Prop} {y}, ¬ m.Refutes R a y)
    (balanced : m.heap.Balanced a b) : ¬ m.Refuted n a b := by
  induction n with
  | zero => exact id
  | succ n ih => exact fun h => ih (h.part ruled (fun refutes => (silent refutes).elim) balanced)

lemma not_of_isAny (any : a.isAny = true) (balanced : m.heap.Balanced a b) :
    ¬ m.Refuted n a b := by
  cases a with
  | primitive mk name =>
    refine not_of_silent (by simp [isStructure, hasRule, any]) (fun {R y} refutes => ?_) balanced
    cases refutes with
    | revealed href => cases href
    | structures hs => simp [isStructure, hasRule, any] at hs
  | _ => cases any

lemma not_typeVariable {mk : Mark} {v : Variable}
    (balanced : m.heap.Balanced (.typeVariable mk v) b) : ¬ m.Refuted n (.typeVariable mk v) b := by
  refine not_of_silent rfl (fun {R y} refutes => ?_) balanced
  cases refutes with
  | revealed h | structures h => cases h

/-- A complement is refuted with its first type, or if it leaves nothing of the other type. -/
lemma complement {mk : Mark} {l r : TypeExpr} (plain : y.isReferring = false)
    (balanced : m.heap.Balanced (.complement mk l r) y)
    (h : m.Refuted (n + 1) (.complement mk l r) y) :
    m.Refuted n l y ∨ ∃ depth, m.subtype depth [] [] [] y r = .ok true := by
  have unruled := balanced.even.first rfl
  rcases h with h | h
  · cases h with
    | minuend hl => exact .inl hl
    | subtrahend _ below => exact .inr ⟨_, below⟩
    | revealed h | structures h => cases h
  · cases h with
    | revealed href =>
      rw [plain] at href
      cases href
    | structures _ hs => cases hs
    | _ => cases unruled

lemma not_fits (ha : a.isStructure = true) (hb : b.isStructure = true)
    (h : m.Refuted (n + 1) a b) : ¬ m.Fits (fun x y => ¬ m.Refuted n x y) a b := by
  have apart {x y : TypeExpr} (hx : x.isStructure = true) (h : m.Refutes (m.Refuted n) x y) :
      ¬ m.Fits (fun x y => ¬ m.Refuted n x y) x y := by
    cases h with
    | structures _ _ apart => exact apart
    | revealed href =>
      rw [TypeExpr.isStructure, href, Bool.not_true, Bool.and_false] at hx
      cases hx
    | _ => cases hx
  rcases h with h | h
  · exact apart ha h
  · exact fun fits => apart hb h (fits.symm.mono fun x y _ => mt symm)

end Refuted

/-! ## The rules of the test -/

section Rules

variable {depth : Nat} {rec : TypeExpr → TypeExpr → Query Bool}

lemma hasRule_of_overlapRule? {appeal : Appeal} (h : overlapRule? appeal rec x y = none) :
    x.hasRule = false := by
  unfold overlapRule? at h
  split at h
  · cases h
  · cases x with
    | union | complement | predicate | delegation | typeVariable => cases h
    | primitive => exact Bool.eq_false_iff.2 ‹_›
    | _ => rfl

lemma refutes_of_overlapRule?
    (hrec : ∀ x y, m.heap.Balanced x y → rec x y = .ok false → R x y)
    (balanced : m.heap.Balanced x y) (plain : y.isReferring = false)
    (h : overlapRule? (m.appealAt depth) rec x y = some (.ok false)) : m.Refutes R x y := by
  unfold overlapRule? at h
  split at h
  · cases h
  · cases x with
    | union mk l r =>
      rcases bind_ite_eq_ok.1 (Option.some.inj h) with ⟨-, h⟩ | ⟨hl, hr⟩
      · cases h
      · exact .union (hrec l y (balanced.first .left) hl) (hrec r y (balanced.first .right) hr)
    | complement mk l r =>
      rcases bind_ite_eq_ok.1 (Option.some.inj h) with ⟨-, h⟩ | ⟨hl, -⟩
      · obtain ⟨below, hbelow, h⟩ := bind_eq_ok.1 h
        obtain rfl : below = true := by cases below <;> first | rfl | cases h
        exact .subtrahend plain hbelow
      · exact .minuend (hrec l y (balanced.first .minuend) hl)
    | predicate mk constraint body listed =>
      exact .body (hrec body y (balanced.first .body) (Option.some.inj h))
    | delegation mk base targets =>
      exact .base (hrec base y (balanced.first .base) (Option.some.inj h))
    | typeVariable => cases h
    | _ => cases h

lemma not_refuted_of_overlapRule?
    (hrec : ∀ x y, m.heap.Balanced x y → rec x y = .ok true → ¬ m.Refuted n x y)
    (balanced : m.heap.Balanced x y) (plain : y.isReferring = false)
    (h : overlapRule? (m.appealAt depth) rec x y = some (.ok true)) :
    ¬ m.Refuted (n + 1) x y := by
  have part {u : TypeExpr} (whole : x.isComplement = false) (exposes : m.heap.Exposes x u)
      (hu : rec u y = .ok true) : ¬ m.Refuted (n + 1) x y := fun refuted =>
    hrec u y (balanced.first exposes) hu (refuted.exposed balanced whole exposes)
  unfold overlapRule? at h
  split at h
  · exact Refuted.not_of_isAny ‹_› balanced
  · cases x with
    | union mk l r =>
      rcases bind_ite_eq_ok.1 (Option.some.inj h) with ⟨hl, -⟩ | ⟨-, hr⟩
      · exact part rfl .left hl
      · exact part rfl .right hr
    | complement mk l r =>
      rcases bind_ite_eq_ok.1 (Option.some.inj h) with ⟨hl, h⟩ | ⟨-, h⟩
      · obtain ⟨below, hbelow, h⟩ := bind_eq_ok.1 h
        obtain rfl : below = false := by cases below <;> first | rfl | cases h
        intro refuted
        rcases refuted.complement plain balanced with refuted | ⟨depth', above⟩
        · exact hrec l y (balanced.first .minuend) hl refuted
        · cases subtype_unique hbelow above
      · cases h
    | predicate mk constraint body listed => exact part rfl .body (Option.some.inj h)
    | delegation mk base targets => exact part rfl .base (Option.some.inj h)
    | typeVariable mk v => exact Refuted.not_typeVariable balanced
    | _ => cases h

end Rules

/-! ## The test -/

variable {depth : Nat} {assumed : Assumed}

/-- How a test for overlap comes to its answer. -/
lemma overlap_cases {answer : Bool} (h : m.overlap (depth + 1) assumed a b = .ok answer) :
    (a.isReferring || b.isReferring) = true ∧
        ((a, b) ∈ assumed ∧ answer = true ∨ ∃ a' b', m.heap.reveal a = .ok a' ∧
          m.heap.reveal b = .ok b' ∧ m.overlap depth ((a, b) :: assumed) a' b' = .ok answer) ∨
      a.isReferring = false ∧ b.isReferring = false ∧
        (overlapRule? (m.appealAt depth) (m.overlap depth assumed) a b = some (.ok answer) ∨
          overlapRule? (m.appealAt depth) (m.overlap depth assumed) b a = some (.ok answer) ∨
          a.isStructure = true ∧ b.isStructure = true ∧
            m.overlapStructure (m.appealAt depth) (m.overlap depth assumed) a b = .ok answer) := by
  have structure_ {x y : TypeExpr} (plain : x.isReferring = false)
      (h : overlapRule? (m.appealAt depth) (m.overlap depth assumed) x y = none) :
      x.isStructure = true := by
    rw [isStructure, hasRule_of_overlapRule? h, plain]
    rfl
  unfold overlap at h
  split at h
  · refine .inl ⟨‹_›, ?_⟩
    split at h
    · exact .inl ⟨‹_›, (Except.ok.inj h).symm⟩
    · obtain ⟨a', ha, h⟩ := bind_eq_ok.1 h
      obtain ⟨b', hb, h⟩ := bind_eq_ok.1 h
      exact .inr ⟨a', b', ha, hb, h⟩
  · rename_i plain
    simp only [Bool.or_eq_true, not_or, Bool.not_eq_true] at plain
    refine .inr ⟨plain.1, plain.2, ?_⟩
    dsimp only at h
    split at h
    · exact .inl (h ▸ ‹_›)
    · split at h
      · exact .inr (.inl (h ▸ ‹_›))
      · exact .inr (.inr ⟨structure_ plain.1 ‹_›, structure_ plain.2 ‹_›, h⟩)

/-- Balanced types that are found not to overlap have a refutation. -/
lemma refuted_of_overlap (balanced : m.heap.Balanced a b)
    (h : m.overlap depth assumed a b = .ok false) : m.Refuted (2 * depth) a b := by
  induction depth generalizing assumed a b with
  | zero => cases h
  | succ depth ih =>
    have hrec (x y : TypeExpr) : m.heap.Balanced x y → m.overlap depth assumed x y = .ok false →
        m.Refuted (2 * depth) x y := ih
    rcases overlap_cases h with ⟨-, ⟨-, h⟩ | ⟨a', b', ha, hb, h⟩⟩ |
      ⟨plain, plain', h | h | ⟨whole, whole', h⟩⟩
    · cases h
    · have refuted := ih (balanced.bothRevealed ha hb) h
      exact ((refuted.of_revealed ha).symm.of_revealed hb).symm
    · exact Refuted.succ (.inl (refutes_of_overlapRule? hrec balanced plain' h))
    · exact Refuted.succ (.inr (refutes_of_overlapRule? hrec balanced.symm plain h))
    · refine Refuted.succ (.inl (.structures whole whole' fun fits => ?_))
      refine not_fits_of_overlapStructure balanced.even.distinct.2 h
        (fits.mono fun x y inside apart => ⟨fun no => ?_, fun no => ?_⟩)
      · exact apart (hrec x y (balanced.inside inside) no)
      · exact apart (hrec y x (balanced.inside inside).symm no).symm

/-- Balanced types that are found to overlap have no refutation, if the assumed pairs have none. -/
lemma not_refuted_of_overlap (balanced : m.heap.Balanced a b)
    (sound : ∀ p ∈ assumed, ¬ m.Refuted n p.1 p.2)
    (h : m.overlap depth assumed a b = .ok true) : ¬ m.Refuted n a b := by
  induction n generalizing depth assumed a b with
  | zero => exact id
  | succ n ih =>
    have earlier : ∀ p ∈ assumed, ¬ m.Refuted n p.1 p.2 := fun p hp => mt .succ (sound p hp)
    cases depth with
    | zero => cases h
    | succ depth =>
      have hrec (x y : TypeExpr) (balanced : m.heap.Balanced x y) :
          m.overlap depth assumed x y = .ok true → ¬ m.Refuted n x y := ih balanced earlier
      rcases overlap_cases h with ⟨href, ⟨assumed, -⟩ | ⟨a', b', ha, hb, h'⟩⟩ |
        ⟨plain, plain', h | h | ⟨whole, whole', h⟩⟩
      · exact sound (a, b) assumed
      · -- the pair may be assumed below, as it has no refutation of fewer steps
        have here : ¬ m.Refuted n a b := ih balanced earlier h
        have below := ih (balanced.bothRevealed ha hb) (List.forall_mem_cons.2 ⟨here, earlier⟩) h'
        exact mt (Refuted.bothRevealed balanced href ha hb) below
      · exact not_refuted_of_overlapRule? hrec balanced plain' h
      · exact mt Refuted.symm (not_refuted_of_overlapRule? hrec balanced.symm plain h)
      · intro refuted
        refine refuted.not_fits whole whole'
          ((fits_of_overlapStructure balanced.even.distinct.2 h).mono fun x y inside yes => ?_)
        rcases yes with yes | yes
        · exact hrec x y (balanced.inside inside) yes
        · exact mt Refuted.symm (hrec y x (balanced.inside inside).symm yes)

end Matcher

end TypeNotation
