import Mathlib.Data.Fintype.EquivFin
import Mathlib.Logic.Relation
import TypeNotation.Proofs.Relation.Kept
import TypeNotation.Proofs.Relation.Search
import TypeNotation.Proofs.Resolution.Unfold

/-!
# What a search for members finds

A search finds a member exactly if some record that it can come to has it, and the list of members
names all fields of these records.  A search passes each named type, suspended target and predicate
once only, also while another call is still busy there; what a call leaves out for this reason
is covered by the other call in the end.

A search for a name and the walk that lists the names go the same way, until the search hits.  So
the search is the only one of the two that needs to be followed.
-/

namespace TypeNotation

open TypeExpr Query

/-- The type of a field, if this is a record. -/
def TypeExpr.fieldAt? (name : String) : TypeExpr → Option TypeExpr
  | .record _ fields => Field.find? fields name
  | _ => none

namespace Heap

variable {h : Heap} {t u v : TypeExpr} {name : String} {bound : Nat} {visited : Visited}

/-! ## The graph of members -/

/-- A node leads to another one: in some steps from types to bodies and results, from predicates to
their bodies, and from delegations to their bases and targets. -/
def Consults (h : Heap) : TypeExpr → TypeExpr → Prop :=
  Relation.ReflTransGen fun t u => u ∈ h.ahead t

lemma Consults.next (ht : h.Consults t u) (hu : v ∈ h.ahead u) : h.Consults t v :=
  Relation.ReflTransGen.tail ht hu

lemma Searched.consults {F : Finset TypeExpr} (searched : h.Searched F) (ht : t ∈ F)
    (htu : h.Consults t u) : u ∈ F := by
  induction htu with
  | refl => exact ht
  | tail _ hu ih => exact searched.ahead ih hu

lemma Consults.unfold (htu : h.Consults t u) : h.Consults t (h.unfold u) := by
  have walk : ∀ bound seen u, h.Consults t u → h.Consults t (h.unfoldFrom bound seen u) := by
    intro bound
    induction bound with
    | zero => exact fun _ _ hu => hu
    | succ bound ih =>
      intro seen u hu
      cases u with
      | named m n args =>
        simp only [unfoldFrom]
        cases hbody : h.body? m.stamp with
        | none => exact hu
        | some body =>
          dsimp only
          split
          · exact hu
          · exact ih _ _ (hu.next (Option.mem_toList.2 hbody))
      | _ => exact hu
  exact walk _ [] u htu

/-- What the loop of a search goes on to is consulted. -/
lemma Consults.passage (htu : h.Consults t u) (hnext : h.passage? u = some (.ok v)) :
    h.Consults t v := by
  cases u with
  | named m n args =>
    cases hnext
    exact htu.unfold
  | predicate m constraint body listed =>
    cases hnext
    exact htu.next List.mem_cons_self
  | deferred m target bindings =>
    simp only [passage?, reveal, Option.some.injEq] at hnext
    split at hnext
    · rename_i r hr
      cases hnext
      exact htu.next (Option.mem_toList.2 hr)
    · cases hnext
  | _ => cases hnext

/-- All suspended targets that a type consults have been resolved. -/
def Forced (h : Heap) (t : TypeExpr) : Prop :=
  ∀ m target bindings, h.Consults t (.deferred m target bindings) → (h.result? m.stamp).isSome

/-! ## What a search does -/

/-- How a search with an answer went on from a type. -/
inductive Went (h : Heap) (name : String) (bound : Nat) (visited : Visited) :
    TypeExpr → Option TypeExpr × Visited → Prop
  /-- The type has been passed before. -/
  | again {t : TypeExpr} (passage : (h.passage? t).isSome) (passed : t ∈ visited) :
    Went h name bound visited t (none, visited)
  /-- The loop went on to another type. -/
  | on {t u : TypeExpr} {r : Option TypeExpr × Visited} (passage : h.passage? t = some (.ok u))
    (new : t ∉ visited) (rest : h.memberFrom name bound u (t :: visited) = .ok r) :
    Went h name bound visited t r
  /-- The parts of a delegation were searched, one after the other. -/
  | parts {m : Mark} {base : TypeExpr} {targets : List TypeExpr} {r : Option TypeExpr × Visited}
    (hits : firstHit (h.memberFrom name bound) (base :: targets) visited = .ok r) :
    Went h name bound visited (.delegation m base targets) r
  /-- The search came to an end. -/
  | bare {t : TypeExpr} (passage : h.passage? t = none) (ahead : h.ahead t = []) :
    Went h name bound visited t (t.fieldAt? name, visited)

lemma went_of_memberFrom {r : Option TypeExpr × Visited}
    (hr : h.memberFrom name bound t visited = .ok r) :
    ∃ b, bound = b + 1 ∧ h.Went name b visited t r := by
  cases bound with
  | zero => cases hr
  | succ bound =>
    refine ⟨bound, rfl, ?_⟩
    unfold memberFrom at hr
    cases hnext : h.passage? t with
    | some next =>
      simp only [hnext] at hr
      split at hr
      · cases hr
        exact .again (by simp [hnext]) ‹_›
      · obtain ⟨u, rfl, hr⟩ := bind_eq_ok.1 hr
        exact .on hnext ‹_› hr
    | none =>
      simp only [hnext] at hr
      cases t with
      | delegation m base targets => exact .parts hr
      | named | deferred | predicate => cases hnext
      | _ =>
        cases hr
        exact .bare rfl rfl

lemma memberFrom_of_went {r : Option TypeExpr × Visited} (went : h.Went name bound visited t r) :
    h.memberFrom name (bound + 1) t visited = .ok r := by
  unfold memberFrom
  cases went with
  | again passage passed =>
    obtain ⟨next, hnext⟩ := Option.isSome_iff_exists.1 passage
    simp only [hnext, if_pos passed]
  | on passage new rest =>
    simp only [passage, if_neg new]
    exact rest
  | parts hits => exact hits
  | bare passage ahead =>
    cases t with
    | named | deferred | predicate => cases passage
    | delegation => cases ahead
    | _ => rfl

lemma memberFrom_of_passage {next : Query TypeExpr} (passage : h.passage? t = some next) :
    h.memberFrom name (bound + 1) t visited =
      if t ∈ visited then .ok (none, visited)
      else next >>= fun u => h.memberFrom name bound u (t :: visited) := by
  conv_lhs => unfold memberFrom
  simp only [passage]

lemma membersFrom_of_passage {next : Query TypeExpr} (passage : h.passage? t = some next) :
    h.membersFrom (bound + 1) t visited =
      if t ∈ visited then .ok ([], visited)
      else next >>= fun u => h.membersFrom bound u (t :: visited) := by
  conv_lhs => unfold membersFrom
  simp only [passage]

/-! ## What is found -/

lemma firstHit_eq_some {α : Type} {search : TypeExpr → Visited → Query (Option α × Visited)}
    {ts : List TypeExpr} {a : α} {visited' : Visited}
    (hr : firstHit search ts visited = .ok (some a, visited')) :
    ∃ t ∈ ts, ∃ before, search t before = .ok (some a, visited') := by
  induction ts generalizing visited with
  | nil => cases hr
  | cons t ts ih =>
    obtain ⟨⟨hit, passed⟩, found, hr⟩ := bind_eq_ok.1 hr
    cases hit with
    | none =>
      obtain ⟨u, hu, before, hit⟩ := ih hr
      exact ⟨u, List.mem_cons_of_mem t hu, before, hit⟩
    | some a' =>
      cases hr
      exact ⟨t, List.mem_cons_self, visited, found⟩

/-- What a search finds is a field of a record that it consults. -/
lemma consulted_of_memberFrom (htu : h.Consults t u) {a : TypeExpr} {visited' : Visited}
    (hr : h.memberFrom name bound u visited = .ok (some a, visited')) :
    ∃ v, h.Consults t v ∧ v.fieldAt? name = some a := by
  induction bound generalizing u visited with
  | zero => cases hr
  | succ bound ih =>
    obtain ⟨_, ⟨⟩, went⟩ := went_of_memberFrom hr
    generalize hfound : (some a, visited') = r at went
    cases went with
    | again => cases hfound
    | on hnext _ hr => exact ih (htu.passage hnext) (hfound ▸ hr)
    | parts hits =>
      obtain ⟨v, hv, before, hit⟩ := firstHit_eq_some (hfound ▸ hits)
      exact ih (htu.next hv) hit
    | bare => exact ⟨u, htu, (Prod.mk.inj hfound).1.symm⟩

/-! ## What is missed -/

/-- A type is covered by the nodes that have been passed: what it consists of has been passed, or
ends the search without a hit. -/
inductive Covered (h : Heap) (name : String) (visited : Visited) : TypeExpr → Prop
  | passed {t : TypeExpr} (passage : (h.passage? t).isSome) (mem : t ∈ visited) :
    Covered h name visited t
  | parts {m : Mark} {base : TypeExpr} {targets : List TypeExpr}
    (all : ∀ u ∈ base :: targets, Covered h name visited u) :
    Covered h name visited (.delegation m base targets)
  | bare {t : TypeExpr} (passage : h.passage? t = none) (ahead : h.ahead t = [])
    (miss : t.fieldAt? name = none) : Covered h name visited t

lemma Covered.mono {visited' : Visited} (le : visited ⊆ visited') (ht : h.Covered name visited t) :
    h.Covered name visited' t := by
  induction ht with
  | passed passage mem => exact .passed passage (le mem)
  | parts _ ih => exact .parts ih
  | bare passage ahead miss => exact .bare passage ahead miss

/-- What has been passed since then has been left for something that is covered. -/
def Swept (h : Heap) (name : String) (visited visited' : Visited) : Prop :=
  ∀ t ∈ visited', t ∉ visited → ∃ u, h.passage? t = some (.ok u) ∧ h.Covered name visited' u

lemma Swept.trans {visited' visited'' : Visited} (le : visited' ⊆ visited'')
    (before : h.Swept name visited visited') (after : h.Swept name visited' visited'') :
    h.Swept name visited visited'' := fun t ht new => by
  by_cases old : t ∈ visited'
  · obtain ⟨u, hu, covered⟩ := before t old new
    exact ⟨u, hu, covered.mono le⟩
  · exact after t ht old

lemma covered_of_firstHit (hsearch : ∀ t visited visited',
      h.memberFrom name bound t visited = .ok (none, visited') →
        h.Covered name visited' t ∧ h.Swept name visited visited')
    {ts : List TypeExpr} {visited' : Visited}
    (hr : firstHit (h.memberFrom name bound) ts visited = .ok (none, visited')) :
    (∀ t ∈ ts, h.Covered name visited' t) ∧ h.Swept name visited visited' := by
  induction ts generalizing visited with
  | nil =>
    cases hr
    exact ⟨by simp, fun _ ht new => absurd ht new⟩
  | cons t ts ih =>
    obtain ⟨⟨hit, passed⟩, found, hr⟩ := bind_eq_ok.1 hr
    cases hit with
    | some => cases hr
    | none =>
      obtain ⟨covered, swept⟩ := hsearch t visited passed found
      obtain ⟨rest, swept'⟩ := ih hr
      have le : passed ⊆ visited' := subset_of_firstHit (fun _ _ _ => subset_of_memberFrom) hr
      exact ⟨List.forall_mem_cons.2 ⟨covered.mono le, rest⟩, swept.trans le swept'⟩

/-- A search that finds nothing covers what it has passed. -/
lemma covered_of_memberFrom {visited' : Visited}
    (hr : h.memberFrom name bound t visited = .ok (none, visited')) :
    h.Covered name visited' t ∧ h.Swept name visited visited' := by
  induction bound generalizing t visited visited' with
  | zero => cases hr
  | succ bound ih =>
    obtain ⟨_, ⟨⟩, went⟩ := went_of_memberFrom hr
    generalize hmissed : (none, visited') = r at went
    cases went with
    | again passage passed =>
      cases hmissed
      exact ⟨.passed passage passed, fun _ ht new => absurd ht new⟩
    | on hnext new hr =>
      obtain ⟨covered, swept⟩ := ih (hmissed ▸ hr)
      have le : t :: visited ⊆ visited' := subset_of_memberFrom (hmissed ▸ hr)
      refine ⟨.passed (by simp [hnext]) (le List.mem_cons_self), fun x hx hnew => ?_⟩
      by_cases heq : x = t
      · exact heq ▸ ⟨_, hnext, covered⟩
      · exact swept x hx (by simp [heq, hnew])
    | parts hits =>
      obtain ⟨all, swept⟩ := covered_of_firstHit (fun _ _ _ => ih) (hmissed ▸ hits)
      exact ⟨.parts all, swept⟩
    | bare passage ahead =>
      obtain ⟨miss, rfl⟩ := Prod.mk.inj hmissed
      exact ⟨.bare passage ahead miss.symm, fun _ ht new => absurd ht new⟩

/-- Whatever a type consults is covered by a search that finds nothing, or stands for something
that is. -/
lemma covered_of_consults (missed : h.memberFrom name bound t [] = .ok (none, visited))
    (grounded : ∀ u, h.Consults t u → h.Grounded u) (htu : h.Consults t u) :
    h.Covered name visited u ∨ h.Covered name visited (h.unfold u) := by
  obtain ⟨covered, swept⟩ := covered_of_memberFrom missed
  have left {x y : TypeExpr} (hx : h.Covered name visited x) (hy : h.passage? x = some (.ok y)) :
      h.Covered name visited y := by
    cases hx with
    | passed _ mem =>
      obtain ⟨u, hu, covered⟩ := swept x mem List.not_mem_nil
      rw [hy] at hu
      cases hu
      exact covered
    | parts => cases hy
    | bare passage =>
      rw [passage] at hy
      cases hy
  induction htu with
  | refl => exact .inl covered
  | @tail x y hx hy ih =>
    cases x with
    | named m n args =>
      rw [← (grounded _ hx).unfold_named (Option.mem_toList.1 hy)]
      exact .inr (ih.elim (fun hx => left hx rfl) id)
    | deferred m target bindings =>
      have result : h.result? m.stamp = some y := Option.mem_toList.1 hy
      rw [unfold_of_settles (t := .deferred m target bindings) trivial, or_self] at ih
      exact .inl (left ih (by simp [passage?, reveal, result]))
    | predicate m constraint body listed =>
      rw [unfold_of_settles (t := .predicate m constraint body listed) trivial, or_self] at ih
      rw [List.mem_singleton.1 hy]
      exact .inl (left ih rfl)
    | delegation m base targets =>
      rw [unfold_of_settles (t := .delegation m base targets) trivial, or_self] at ih
      cases ih with
      | passed passage => cases passage
      | parts all => exact .inl (all y hy)
      | bare _ ahead => cases ahead
    | _ => cases hy

/-- A search that finds nothing has not left out a record. -/
lemma fieldAt?_of_consults (missed : h.memberFrom name bound t [] = .ok (none, visited))
    (grounded : ∀ u, h.Consults t u → h.Grounded u) (htu : h.Consults t u) :
    u.fieldAt? name = none := by
  cases u with
  | record m fields =>
    have covered := covered_of_consults missed grounded htu
    rw [unfold_of_settles (t := .record m fields) trivial, or_self] at covered
    cases covered with
    | passed passage => cases passage
    | bare _ _ miss => exact miss
  | _ => rfl

/-- Nor has it left a target unresolved. -/
lemma forced_of_memberFrom (missed : h.memberFrom name bound t [] = .ok (none, visited))
    (grounded : ∀ u, h.Consults t u → h.Grounded u) : h.Forced t := by
  intro m target bindings htu
  have covered := covered_of_consults missed grounded htu
  rw [unfold_of_settles (t := .deferred m target bindings) trivial, or_self] at covered
  cases covered with
  | passed _ mem =>
    obtain ⟨u, hu, -⟩ := (covered_of_memberFrom missed).2 _ mem List.not_mem_nil
    simp only [passage?, reveal, Option.some.injEq] at hu
    split at hu
    · rename_i r hr
      simp [hr]
    · cases hu
  | bare passage => cases passage

/-! ## The list of members -/

/-- What a search finds against what a walk lists: they go the same way, until the search hits. -/
inductive Accords (name : String) :
    Query (List String × Visited) → Query (Option TypeExpr × Visited) → Prop
  | miss {names : List String} {visited : Visited} (absent : name ∉ names) :
    Accords name (.ok (names, visited)) (.ok (none, visited))
  | hit {listed : Query (List String × Visited)} {a : TypeExpr} {visited : Visited}
    (present : ∀ l, listed = .ok l → name ∈ l.1) : Accords name listed (.ok (some a, visited))
  | halt {halt : Halt} : Accords name (.error halt) (.error halt)

/-- Names that have been listed stay. -/
lemma subset_of_allHits {collect : TypeExpr → Visited → Query (List String × Visited)}
    {ts : List TypeExpr} {found : List String} {listed : List String × Visited}
    (hr : allHits collect ts found visited = .ok listed) : found ⊆ listed.1 := by
  induction ts generalizing found visited with
  | nil =>
    cases hr
    exact List.Subset.refl _
  | cons t ts ih =>
    obtain ⟨⟨names, passed⟩, -, hr⟩ := bind_eq_ok.1 hr
    exact List.Subset.trans (List.subset_append_left found _) (ih hr)

lemma accords_allHits {search : TypeExpr → Visited → Query (Option TypeExpr × Visited)}
    {collect : TypeExpr → Visited → Query (List String × Visited)}
    (hsearch : ∀ t visited, Accords name (collect t visited) (search t visited))
    (ts : List TypeExpr) {found : List String} (new : name ∉ found) (visited : Visited) :
    Accords name (allHits collect ts found visited) (firstHit search ts visited) := by
  induction ts generalizing found visited with
  | nil => exact .miss new
  | cons t ts ih =>
    have first := hsearch t visited
    unfold allHits firstHit
    generalize collect t visited = collected at first ⊢
    generalize search t visited = searched at first ⊢
    cases first with
    | miss absent => exact ih (by simp [new, absent]) _
    | hit present =>
      refine .hit fun l hl => ?_
      obtain ⟨⟨names, passed⟩, rfl, hl⟩ := bind_eq_ok.1 hl
      have mem : name ∈ names := present _ rfl
      exact subset_of_allHits hl (by simp [new, mem])
    | halt => exact .halt

/-- A search for a name hits exactly if the walk that lists the names comes to it. -/
lemma accords_membersFrom (h : Heap) (name : String) (bound : Nat) (t : TypeExpr)
    (visited : Visited) :
    Accords name (h.membersFrom bound t visited) (h.memberFrom name bound t visited) := by
  induction bound generalizing t visited with
  | zero => exact .halt
  | succ bound ih =>
    unfold membersFrom memberFrom
    cases hnext : h.passage? t with
    | some next =>
      dsimp only
      split
      · exact .miss List.not_mem_nil
      · cases next with
        | error halt => exact .halt
        | ok u => exact ih u _
    | none =>
      cases t with
      | record m fields =>
        show Accords name (.ok (Field.names fields, visited))
          (.ok (Field.find? fields name, visited))
        cases hfound : Field.find? fields name with
        | none => exact .miss (Field.find?_eq_none.1 hfound)
        | some a =>
          refine .hit fun l hl => Classical.not_not.1 fun absent => ?_
          cases hl
          rw [Field.find?_eq_none.2 absent] at hfound
          cases hfound
      | delegation m base targets => exact accords_allHits ih _ List.not_mem_nil visited
      | _ => exact .miss List.not_mem_nil

/-- Where the list of members stops, a lookup stops as well, or has hit. -/
lemma member?_of_members_eq_error {halt : Halt} (hr : h.members bound t = .error halt)
    (name : String) :
    h.member? bound t name = .error halt ∨ ∃ a, h.member? bound t name = .ok (some a) := by
  have accords := h.accords_membersFrom name bound t []
  unfold members at hr
  unfold member?
  generalize h.membersFrom bound t [] = listed at accords hr
  generalize h.memberFrom name bound t [] = found at accords
  cases accords with
  | miss => cases hr
  | @hit _ a => exact .inr ⟨a, rfl⟩
  | halt =>
    cases hr
    exact .inl rfl

/-! ## Answers -/

/-- A search stops early only for a bound, or for a target that has not been resolved. -/
lemma exhausted_of_memberFrom {halt : Halt} (forced : h.Forced t) (htu : h.Consults t u)
    (hr : h.memberFrom name bound u visited = .error halt) : halt = .exhausted := by
  induction bound generalizing u visited with
  | zero =>
    cases hr
    rfl
  | succ bound ih =>
    unfold memberFrom at hr
    cases hnext : h.passage? u with
    | some next =>
      simp only [hnext] at hr
      split at hr
      · cases hr
      · rcases bind_eq_error.1 hr with rfl | ⟨v, rfl, hr⟩
        · cases u with
          | deferred m target bindings =>
            obtain ⟨r, hr⟩ := Option.isSome_iff_exists.1 (forced m target bindings htu)
            simp [passage?, reveal, hr] at hnext
          | _ => cases hnext
        · exact ih (htu.passage hnext) hr
    | none =>
      simp only [hnext] at hr
      cases u with
      | delegation m base targets =>
        have among {ts : List TypeExpr} (hts : ∀ v ∈ ts, h.Consults t v) {visited : Visited}
            (hr : firstHit (h.memberFrom name bound) ts visited = .error halt) :
            halt = .exhausted := by
          induction ts generalizing visited with
          | nil => cases hr
          | cons v ts iht =>
            rw [List.forall_mem_cons] at hts
            rcases bind_eq_error.1 hr with hr | ⟨⟨_ | a, visited'⟩, -, hr⟩
            · exact ih hts.1 hr
            · exact iht hts.2 hr
            · cases hr
        exact among (fun v hv => htu.next hv) hr
      | _ => cases hr

/-- If all targets have been resolved, then a search has an answer, with all bounds that are large
enough. -/
lemma Forced.exists_memberFrom (forced : h.Forced t) (name : String) :
    ∃ bound r, ∀ more, bound ≤ more → h.memberFrom name more t [] = .ok r := by
  obtain ⟨F, searched, ht⟩ := h.exists_searched t
  obtain ⟨bound, result, final, same⟩ := searched.terminates_memberFrom name ht []
  cases result with
  | ok r => exact ⟨bound, r, same⟩
  | error halt =>
    exact absurd (exhausted_of_memberFrom forced .refl (same bound (Nat.le_refl bound)))
      final.unbounded

/-- There are names that no consulted record has. -/
lemma exists_unused (h : Heap) (t : TypeExpr) :
    ∃ name, ∀ u, h.Consults t u → u.fieldAt? name = none := by
  obtain ⟨F, searched, ht⟩ := h.exists_searched t
  let names : TypeExpr → List String
    | .record _ fields => Field.names fields
    | _ => []
  obtain ⟨name, unused⟩ := Infinite.exists_notMem_finset (F.toList.flatMap names).toFinset
  refine ⟨name, fun u hu => ?_⟩
  cases u with
  | record m fields =>
    refine Field.find?_eq_none.2 fun mem => unused ?_
    rw [List.mem_toFinset, List.mem_flatMap]
    exact ⟨_, Finset.mem_toList.2 (searched.consults ht hu), mem⟩
  | _ => rfl

/-- The walk that lists the names is a search for a name that no record has. -/
lemma exists_missed (h : Heap) (t : TypeExpr) : ∃ name, ∀ bound,
    (∀ names visited, h.membersFrom bound t [] = .ok (names, visited) →
      h.memberFrom name bound t [] = .ok (none, visited)) ∧
    ∀ r, h.memberFrom name bound t [] = .ok r →
      ∃ names visited, h.membersFrom bound t [] = .ok (names, visited) := by
  obtain ⟨name, unused⟩ := h.exists_unused t
  refine ⟨name, fun bound => ?_⟩
  have accords := h.accords_membersFrom name bound t []
  have missed : ∀ a visited, h.memberFrom name bound t [] ≠ .ok (some a, visited) := by
    intro a visited hit
    obtain ⟨u, hu, found⟩ := consulted_of_memberFrom .refl hit
    rw [unused u hu] at found
    cases found
  generalize h.membersFrom bound t [] = listed at accords ⊢
  generalize h.memberFrom name bound t [] = found at accords missed ⊢
  cases accords with
  | miss => simp
  | hit => exact absurd rfl (missed _ _)
  | halt => simp

/-- If all targets have been resolved, then the walk that lists the names has an answer, too. -/
lemma Forced.exists_membersFrom (forced : h.Forced t) :
    ∃ bound listed, ∀ more, bound ≤ more → h.membersFrom more t [] = .ok listed := by
  obtain ⟨name, missed⟩ := h.exists_missed t
  obtain ⟨bound, r, same⟩ := forced.exists_memberFrom name
  obtain ⟨names, visited, listed⟩ := (missed bound).2 r (same bound (Nat.le_refl bound))
  exact ⟨bound, (names, visited), fun more le => h.kept_membersFrom le t [] _ listed⟩

/-- If the walk that lists the names has an answer, then all targets have been resolved. -/
lemma forced_of_membersFrom {listed : List String × Visited}
    (hr : h.membersFrom bound t [] = .ok listed)
    (grounded : ∀ u, h.Consults t u → h.Grounded u) : h.Forced t := by
  obtain ⟨name, missed⟩ := h.exists_missed t
  exact forced_of_memberFrom ((missed bound).1 _ _ hr) grounded

end Heap

end TypeNotation
