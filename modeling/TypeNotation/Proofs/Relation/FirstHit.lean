import TypeNotation.Proofs.Relation.Members

/-!
# The order of a search for a member

The nodes that a type consults can be enumerated depth first: each node when it is first come to,
before the nodes that it leads to, and these one after the other.  A search finds what the first
record in that order has, unless it comes back to a delegation whose parts are still being searched.

It may come back there since it marks only named types, suspended targets and predicates, and of a
chain of named types only the first.  It then searches the later parts of that delegation from
inside an earlier one, and what it finds there may come too early.  A delegation that is come back
to from its last part does no harm.
-/

namespace TypeNotation

open TypeExpr Query

/-! ## Depth-first order -/

/-- The nodes that are come to from an agenda, in depth-first order, without those that have been
seen.
-/
inductive DepthFirst (ahead : TypeExpr → List TypeExpr) :
    (agenda seen order : List TypeExpr) → Prop
  | done {seen : List TypeExpr} : DepthFirst ahead [] seen []
  | again {t : TypeExpr} {rest seen order : List TypeExpr} (old : t ∈ seen)
    (tail : DepthFirst ahead rest seen order) : DepthFirst ahead (t :: rest) seen order
  | visit {t : TypeExpr} {rest seen order : List TypeExpr} (new : t ∉ seen)
    (tail : DepthFirst ahead (ahead t ++ rest) (t :: seen) order) :
    DepthFirst ahead (t :: rest) seen (t :: order)

namespace DepthFirst

variable {ahead : TypeExpr → List TypeExpr} {agenda rest seen order : List TypeExpr}
    {t u : TypeExpr}

lemma of_seen (h : DepthFirst ahead (t :: rest) seen order) (old : t ∈ seen) :
    DepthFirst ahead rest seen order := by
  cases h with
  | again _ tail => exact tail
  | visit new => exact absurd old new

lemma of_new (h : DepthFirst ahead (t :: rest) seen order) (new : t ∉ seen) :
    ∃ tail, order = t :: tail ∧ DepthFirst ahead (ahead t ++ rest) (t :: seen) tail := by
  cases h with
  | again old => exact absurd old new
  | visit _ tail => exact ⟨_, rfl, tail⟩

/-- Nodes that have all been seen may stand in front of an agenda. -/
lemma append_seen {old : List TypeExpr} (h : DepthFirst ahead rest seen order) (hold : old ⊆ seen) :
    DepthFirst ahead (old ++ rest) seen order := by
  induction old with
  | nil => exact h
  | cons t old ih =>
    rw [List.cons_subset] at hold
    exact .again hold.1 (ih hold.2)

lemma unique {order' : List TypeExpr} (h : DepthFirst ahead agenda seen order)
    (h' : DepthFirst ahead agenda seen order') : order = order' := by
  induction h generalizing order' with
  | done =>
    cases h'
    rfl
  | again old _ ih => exact ih (h'.of_seen old)
  | visit new _ ih =>
    obtain ⟨tail, rfl, next⟩ := h'.of_new new
    rw [ih next]

/-- No node comes twice, nor one that has been seen. -/
lemma nodup (h : DepthFirst ahead agenda seen order) : order.Nodup ∧ order.Disjoint seen := by
  induction h with
  | done => exact ⟨List.nodup_nil, List.disjoint_nil_left _⟩
  | again _ _ ih => exact ih
  | @visit t rest seen order new _ ih =>
    obtain ⟨nodup, disjoint⟩ := ih
    rw [List.disjoint_cons_right] at disjoint
    exact ⟨List.nodup_cons.2 ⟨disjoint.1, nodup⟩, List.disjoint_cons_left.2 ⟨new, disjoint.2⟩⟩

/-- All nodes of the agenda are come to, and so is what they lead to. -/
lemma closed (h : DepthFirst ahead agenda seen order) :
    (∀ t ∈ agenda, t ∈ seen ∨ t ∈ order) ∧
      ∀ t ∈ order, ∀ u ∈ ahead t, u ∈ seen ∨ u ∈ order := by
  induction h with
  | done => simp
  | again old _ ih =>
    exact ⟨List.forall_mem_cons.2 ⟨.inl old, ih.1⟩, ih.2⟩
  | @visit t rest seen order new _ ih =>
    have known {u : TypeExpr} (hu : u ∈ t :: seen ∨ u ∈ order) : u ∈ seen ∨ u ∈ t :: order := by
      simp only [List.mem_cons] at hu ⊢
      tauto
    refine ⟨List.forall_mem_cons.2 ⟨.inr List.mem_cons_self, fun u hu => ?_⟩,
      List.forall_mem_cons.2 ⟨fun u hu => ?_, fun v hv u hu => known (ih.2 v hv u hu)⟩⟩
    · exact known (ih.1 u (List.mem_append_right _ hu))
    · exact known (ih.1 u (List.mem_append_left _ hu))

/-- Every node is come to from one on the agenda. -/
lemma reached {P : TypeExpr → Prop} (step : ∀ t u, P t → u ∈ ahead t → P u)
    (h : DepthFirst ahead agenda seen order) (hagenda : ∀ t ∈ agenda, P t) : ∀ t ∈ order, P t := by
  induction h with
  | done => simp
  | again _ _ ih => exact ih (List.forall_mem_cons.1 hagenda).2
  | @visit t rest seen order _ _ ih =>
    obtain ⟨ht, hrest⟩ := List.forall_mem_cons.1 hagenda
    refine List.forall_mem_cons.2 ⟨ht, ih fun u hu => ?_⟩
    rcases List.mem_append.1 hu with hu | hu
    · exact step t u ht hu
    · exact hrest u hu

/-- Among finitely many nodes there is such an order. -/
lemma exists_of_finite {F : Finset TypeExpr} (closed : ∀ t ∈ F, ∀ u ∈ ahead t, u ∈ F)
    (hagenda : ∀ t ∈ agenda, t ∈ F) (seen : List TypeExpr) :
    ∃ order, DepthFirst ahead agenda seen order := by
  induction hn : missing F seen using Nat.strong_induction_on generalizing agenda seen with
  | _ n ih =>
    induction agenda with
    | nil => exact ⟨[], .done⟩
    | cons t rest inner =>
      obtain ⟨ht, hrest⟩ := List.forall_mem_cons.1 hagenda
      by_cases old : t ∈ seen
      · obtain ⟨order, h⟩ := inner hrest
        exact ⟨order, .again old h⟩
      · have fewer : missing F (t :: seen) < n := hn ▸ missing_cons_lt ht old
        have within : ∀ u ∈ ahead t ++ rest, u ∈ F := fun u hu =>
          (List.mem_append.1 hu).elim (closed t ht u) (hrest u)
        obtain ⟨order, h⟩ := ih _ fewer within (t :: seen) rfl
        exact ⟨t :: order, .visit old h⟩

end DepthFirst

namespace Heap

variable {h : Heap} {t u v : TypeExpr} {name : String} {bound : Nat} {visited : Visited}

/-- What a type consults, in depth-first order. -/
lemma exists_depthFirst (h : Heap) (t : TypeExpr) :
    ∃ order, DepthFirst h.ahead [t] [] order ∧ order.Nodup ∧ ∀ u, u ∈ order ↔ h.Consults t u := by
  obtain ⟨F, searched, ht⟩ := h.exists_searched t
  obtain ⟨order, first⟩ := DepthFirst.exists_of_finite (fun _ hv _ hu => searched.ahead hv hu)
    (List.forall_mem_singleton.2 ht) []
  refine ⟨order, first, first.nodup.1, fun u => ⟨fun hu => ?_, fun hu => ?_⟩⟩
  · exact first.reached (fun _ _ hv hu => hv.next hu) (List.forall_mem_singleton.2 .refl) u hu
  · obtain ⟨here, closed⟩ := first.closed
    induction hu with
    | refl => exact (here t List.mem_cons_self).resolve_left List.not_mem_nil
    | tail _ hu ih => exact (closed _ ih _ hu).resolve_left List.not_mem_nil

/-! ## Coming back -/

/-- How a search comes to a type: the nodes that it has passed on its way, each of them once, and
the delegations of which there are parts to be searched later. -/
inductive Approach (h : Heap) (t : TypeExpr) :
    TypeExpr → (passed pending : List TypeExpr) → Prop
  | start : Approach h t t [] []
  | on {u v : TypeExpr} {passed pending : List TypeExpr} (way : Approach h t u passed pending)
    (passage : h.passage? u = some (.ok v)) (new : u ∉ passed) :
    Approach h t v (u :: passed) pending
  | part {m : Mark} {base u : TypeExpr} {targets before after passed pending : List TypeExpr}
    (way : Approach h t (.delegation m base targets) passed pending)
    (split : base :: targets = before ++ u :: after) (later : after ≠ []) :
    Approach h t u passed (.delegation m base targets :: pending)
  | last {m : Mark} {base u : TypeExpr} {targets before passed pending : List TypeExpr}
    (way : Approach h t (.delegation m base targets) passed pending)
    (split : base :: targets = before ++ [u]) : Approach h t u passed pending

/-- A search never comes back to a delegation of which there are parts to be searched later. -/
def Straight (h : Heap) (t : TypeExpr) : Prop :=
  ∀ u passed pending, h.Approach t u passed pending → u ∉ pending

lemma Approach.consults {passed pending : List TypeExpr} (way : h.Approach t u passed pending) :
    h.Consults t u := by
  induction way with
  | start => exact .refl
  | on _ passage _ ih => exact ih.passage passage
  | part _ split _ ih =>
    refine ih.next ?_
    rw [ahead, split]
    simp
  | last _ split ih =>
    refine ih.next ?_
    rw [ahead, split]
    simp

/-- A search down a chain, where each delegation has a base that leads nowhere and no more than one
target, does not come back to where it is busy: it is busy only at such a base. -/
lemma straight_of_chain (linear : ∀ m base targets, h.Consults t (.delegation m base targets) →
    h.ahead base = [] ∧ h.passage? base = none ∧ targets.length ≤ 1) : h.Straight t := by
  have busy {u : TypeExpr} {passed pending : List TypeExpr} (way : h.Approach t u passed pending) :
      pending = [] ∨ h.ahead u = [] ∧ h.passage? u = none ∧
        ∀ v ∈ pending, ∃ m base targets, v = .delegation m base targets := by
    induction way with
    | start => exact .inl rfl
    | on _ passage _ ih =>
      refine ih.imp_right fun ⟨_, stays, _⟩ => ?_
      rw [passage] at stays
      cases stays
    | @part m base u targets before after passed pending way split later ih =>
      obtain ⟨bare, stays, few⟩ := linear _ _ _ way.consults
      obtain rfl : pending = [] := ih.resolve_right fun ⟨nowhere, _⟩ => by cases nowhere
      -- only the base has a part after it
      have first : u = base := by
        cases before with
        | nil => exact (List.cons.inj split).1.symm
        | cons _ before =>
          have lengths := congrArg List.length split
          have := List.length_pos_of_ne_nil later
          simp only [List.cons_append, List.length_cons, List.length_append] at lengths
          omega
      subst first
      exact .inr ⟨bare, stays, List.forall_mem_singleton.2 ⟨_, _, _, rfl⟩⟩
    | last _ _ ih =>
      exact .inl (ih.resolve_right fun ⟨nowhere, _⟩ => by cases nowhere)
  intro u passed pending way mem
  rcases busy way with rfl | ⟨bare, -, delegations⟩
  · cases mem
  · obtain ⟨m, base, targets, rfl⟩ := delegations u mem
    cases bare

/-! ## The search alongside the order -/

/-- A search against the enumeration in depth-first order: what each of them has passed and seen.
What has been seen leads to nodes within a given list, apart from the delegations of which there are
parts to be searched later. -/
structure Abreast (h : Heap) (name : String)
    (pending visited seen within : List TypeExpr) : Prop where
  passed : visited ⊆ seen
  marked : ∀ t ∈ seen, (h.passage? t).isSome → t ∈ visited ∨ ∃ m n args, t = .named m n args
  closed : ∀ t ∈ seen, t ∈ pending ∨ h.ahead t ⊆ within
  missed : ∀ t ∈ seen, t.fieldAt? name = none
  apart : ∀ t ∈ pending, h.passage? t = none

variable {pending seen order rest within : List TypeExpr}

lemma Abreast.mono {within' : List TypeExpr} (abreast : h.Abreast name pending visited seen within)
    (le : within ⊆ within') : h.Abreast name pending visited seen within' :=
  { abreast with
    closed := fun t ht => (abreast.closed t ht).imp_right fun hahead =>
      List.Subset.trans hahead le }

/-- The enumeration sees a node that is marked by the search at the same time. -/
lemma Abreast.visit {visited' : Visited} (abreast : h.Abreast name pending visited seen (t :: seen))
    (marks : visited' = t :: visited ∨ visited' = visited)
    (marked : (h.passage? t).isSome → t ∈ visited' ∨ ∃ m n args, t = .named m n args)
    (missed : t.fieldAt? name = none) (le : t :: seen ⊆ within)
    (closed : t ∈ pending ∨ h.ahead t ⊆ within) :
    h.Abreast name pending visited' (t :: seen) within where
  passed := by
    rcases marks with rfl | rfl
    · exact List.cons_subset_cons t abreast.passed
    · exact List.subset_cons_of_subset t abreast.passed
  marked := by
    refine List.forall_mem_cons.2 ⟨marked, fun u hu passage => ?_⟩
    refine (abreast.marked u hu passage).imp_left fun hu => ?_
    rcases marks with rfl | rfl
    · exact List.mem_cons_of_mem t hu
    · exact hu
  closed := List.forall_mem_cons.2 ⟨closed, fun u hu =>
    (abreast.closed u hu).imp_right fun hahead => List.Subset.trans hahead le⟩
  missed := List.forall_mem_cons.2 ⟨missed, abreast.missed⟩
  apart := abreast.apart

/-- What comes of a search for the first node of an agenda: it has hit what comes first in the
order, or the enumeration has come to the rest of the agenda without a hit. -/
def Follows (h : Heap) (name : String) (pending rest seen order : List TypeExpr) (t : TypeExpr) :
    Option TypeExpr × Visited → Prop
  | (some a, _) => order.findSome? (·.fieldAt? name) = some a
  | (none, visited) => ∃ seen' order', seen ⊆ seen' ∧ t ∈ seen' ∧
      h.Abreast name pending visited seen' seen' ∧ DepthFirst h.ahead rest seen' order' ∧
        order.findSome? (·.fieldAt? name) = order'.findSome? (·.fieldAt? name)

/-- The enumeration may have come to the node by way of another one. -/
lemma Follows.after {seen' order' : List TypeExpr} {r : Option TypeExpr × Visited}
    (follows : h.Follows name pending rest seen' order' u r) (le : seen ⊆ seen') (mem : t ∈ seen')
    (hits : order.findSome? (·.fieldAt? name) = order'.findSome? (·.fieldAt? name)) :
    h.Follows name pending rest seen order t r := by
  obtain ⟨_ | a, visited⟩ := r
  · obtain ⟨seen'', order'', grows, -, abreast, first, hits'⟩ := follows
    exact ⟨seen'', order'', List.Subset.trans le grows, grows mem, abreast, first, hits.trans hits'⟩
  · exact hits.trans follows

/-- The enumeration runs down a chain of named types to its end. -/
lemma Chain.enumerate {stamps : List Nat} (chain : h.Chain t stamps u)
    (abreast : h.Abreast name pending visited seen (t :: seen))
    (first : DepthFirst h.ahead (t :: rest) seen order) :
    ∃ seen' order', seen ⊆ seen' ∧ (t = u ∨ t ∈ seen') ∧
      h.Abreast name pending visited seen' (u :: seen') ∧
        DepthFirst h.ahead (u :: rest) seen' order' ∧
          order.findSome? (·.fieldAt? name) = order'.findSome? (·.fieldAt? name) := by
  induction chain generalizing seen order with
  | done => exact ⟨seen, order, List.Subset.refl _, .inl rfl, abreast, first, rfl⟩
  | @step m n args body u stamps hbody _ ih =>
    have hahead : h.ahead (.named m n args) = [body] := by simp [ahead, hbody]
    by_cases old : .named m n args ∈ seen
    · -- what is further down the chain has been seen as well
      have same : .named m n args :: seen ⊆ body :: seen :=
        List.cons_subset.2 ⟨List.mem_cons_of_mem _ old, List.subset_cons_self _ _⟩
      have hbodySeen : body ∈ seen := by
        have closed := (abreast.closed _ old).resolve_left fun hmem => by
          cases abreast.apart _ hmem
        rw [hahead, List.cons_subset] at closed
        rcases List.mem_cons.1 closed.1 with heq | hmem
        · rw [heq]
          exact old
        · exact hmem
      obtain ⟨seen', order', le, -, abreast', first', hits⟩ :=
        ih (abreast.mono same) (.again hbodySeen (first.of_seen old))
      exact ⟨seen', order', le, .inr (le old), abreast', first', hits⟩
    · obtain ⟨tail, rfl, next⟩ := first.of_new old
      rw [hahead] at next
      have visit : h.Abreast name pending visited (.named m n args :: seen)
          (body :: .named m n args :: seen) :=
        abreast.visit (.inr rfl) (fun _ => .inr ⟨m, n, args, rfl⟩) rfl (List.subset_cons_self _ _)
          (.inr (by simp [hahead]))
      obtain ⟨seen', order', le, -, abreast', first', hits⟩ := ih visit next
      exact ⟨seen', order', List.Subset.trans (List.subset_cons_self _ _) le,
        .inr (le List.mem_cons_self), abreast', first', hits⟩

/-- Where the search stops at a node without a hit, and the enumeration has nowhere to go from
it. -/
lemma follows_of_end {visited' : Visited}
    (abreast : h.Abreast name pending visited seen (t :: seen))
    (first : DepthFirst h.ahead (t :: rest) seen order)
    (marks : visited' = t :: visited ∨ visited' = visited)
    (marked : (h.passage? t).isSome → t ∈ visited' ∨ ∃ m n args, t = .named m n args)
    (hahead : h.ahead t = []) (miss : t.fieldAt? name = none) :
    h.Follows name pending rest seen order t (none, visited') := by
  by_cases old : t ∈ seen
  · refine ⟨seen, order, List.Subset.refl _, old, ?_, first.of_seen old, rfl⟩
    have le : t :: seen ⊆ seen := List.cons_subset.2 ⟨old, List.Subset.refl _⟩
    have same := abreast.mono le
    rcases marks with rfl | rfl
    · exact { same with
        passed := List.cons_subset.2 ⟨old, same.passed⟩
        marked := fun u hu passage => (same.marked u hu passage).imp_left (List.mem_cons_of_mem t) }
    · exact same
  · obtain ⟨tail, rfl, next⟩ := first.of_new old
    rw [hahead] at next
    refine ⟨t :: seen, tail, List.subset_cons_self _ _, List.mem_cons_self, ?_, next, ?_⟩
    · exact abreast.visit marks marked miss (List.Subset.refl _) (.inr (by simp [hahead]))
    · rw [List.findSome?_cons, miss]

/-- Apart from named types, the loop of a search goes on to the one node that is ahead. -/
lemma ahead_of_passage (hnext : h.passage? t = some (.ok u))
    (unnamed : ¬ ∃ m n args, t = .named m n args) : h.ahead t = [u] := by
  cases t with
  | named m n args => exact absurd ⟨m, n, args, rfl⟩ unnamed
  | predicate m constraint body listed =>
    cases hnext
    rfl
  | deferred m target bindings =>
    simp only [passage?, reveal, Option.some.injEq] at hnext
    split at hnext
    · rename_i r hr
      cases hnext
      simp [ahead, hr]
    · cases hnext
  | _ => cases hnext

/-- Searches with a bound follow the order. -/
def Faithful (h : Heap) (name : String) (t : TypeExpr) (bound : Nat) : Prop :=
  ∀ {u : TypeExpr} {passed pending visited seen rest order : List TypeExpr}
    {r : Option TypeExpr × Visited}, h.Approach t u passed pending → passed ⊆ visited →
    h.Abreast name pending visited seen (u :: seen) →
    DepthFirst h.ahead (u :: rest) seen order → h.memberFrom name bound u visited = .ok r →
    h.Follows name pending rest seen order u r

/-- The parts of a delegation are searched in the order in which they are enumerated. -/
lemma follows_of_parts (faithful : h.Faithful name t bound) {m : Mark} {base : TypeExpr}
    {targets before after passed : List TypeExpr} {r : Option TypeExpr × Visited}
    (way : h.Approach t (.delegation m base targets) passed pending) (le : passed ⊆ visited)
    (split : base :: targets = before ++ after) (more : after ≠ []) (hbefore : before ⊆ seen)
    (mem : .delegation m base targets ∈ seen)
    (abreast : h.Abreast name (.delegation m base targets :: pending) visited seen seen)
    (first : DepthFirst h.ahead (after ++ rest) seen order)
    (hr : firstHit (h.memberFrom name bound) after visited = .ok r) :
    h.Follows name pending rest seen order (.delegation m base targets) r := by
  induction after generalizing before visited seen order with
  | nil => exact absurd rfl more
  | cons u after ih =>
    obtain ⟨⟨hit, passed'⟩, hu, hr⟩ := bind_eq_ok.1 hr
    cases after with
    | nil =>
      -- the delegation leads to nodes that have been seen, and to its last part
      have within : h.ahead (.delegation m base targets) ⊆ u :: seen := by
        rw [ahead, split]
        exact List.append_subset.2
          ⟨List.subset_cons_of_subset u hbefore, List.cons_subset_cons u (List.nil_subset seen)⟩
      have closes : h.Abreast name pending visited seen (u :: seen) := { abreast with
        closed := fun v hv => by
          rcases abreast.closed v hv with hmem | hahead
          · rcases List.mem_cons.1 hmem with rfl | hmem
            · exact .inr within
            · exact .inl hmem
          · exact .inr (List.subset_cons_of_subset u hahead)
        apart := (List.forall_mem_cons.1 abreast.apart).2 }
      have follows := faithful (way.last split) le closes first hu
      cases hit with
      | some a =>
        cases hr
        exact follows
      | none =>
        cases hr
        obtain ⟨seen', order', grows, -, abreast', first', hits⟩ := follows
        exact ⟨seen', order', grows, grows mem, abreast', first', hits⟩
    | cons v after =>
      have follows := faithful (way.part split (List.cons_ne_nil v after)) le
        (abreast.mono (List.subset_cons_self u seen)) first hu
      cases hit with
      | some a =>
        cases hr
        exact follows
      | none =>
        obtain ⟨seen', order', grows, huSeen, abreast', first', hits⟩ := follows
        have sofar : before ++ [u] ⊆ seen' := List.append_subset.2
          ⟨List.Subset.trans hbefore grows, List.cons_subset.2 ⟨huSeen, List.nil_subset _⟩⟩
        have kept : passed ⊆ passed' := List.Subset.trans le (subset_of_memberFrom hu)
        exact (ih kept (by simp [split]) (List.cons_ne_nil v after) sofar (grows mem)
          abreast' first' hr).after grows (grows mem) hits

/-- The loop goes on from a named type to the end of the chain of its bodies. -/
lemma follows_of_named (faithful : h.Faithful name t bound) {m : Mark} {n : String}
    {args passed : List TypeExpr} {r : Option TypeExpr × Visited}
    (grounded : h.Grounded (.named m n args))
    (way : h.Approach t (.named m n args) passed pending) (le : passed ⊆ visited)
    (abreast : h.Abreast name pending visited seen (.named m n args :: seen))
    (first : DepthFirst h.ahead (.named m n args :: rest) seen order)
    (new : .named m n args ∉ visited)
    (hr : h.memberFrom name bound (h.unfold (.named m n args))
      (.named m n args :: visited) = .ok r) :
    h.Follows name pending rest seen order (.named m n args) r := by
  have further := way.on rfl fun hmem => new (le hmem)
  obtain ⟨k, hk⟩ := grounded
  obtain ⟨stamps, w, chain⟩ := hk.chain
  rw [chain.unfold_eq] at hr further
  obtain ⟨seen', order', grows, heq | mem, abreast', first', hits⟩ := chain.enumerate abreast first
  · -- a named type without a body stands for itself, and has just been marked
    subst heq
    have hbody : h.body? m.stamp = none := chain.settles
    obtain ⟨_, rfl, went⟩ := went_of_memberFrom hr
    cases went with
    | again =>
      exact follows_of_end abreast first (.inl rfl) (fun _ => .inr ⟨m, n, args, rfl⟩)
        (by simp [ahead, hbody]) rfl
    | on _ new => exact absurd List.mem_cons_self new
    | bare passage => cases passage
  · have marked : h.Abreast name pending (.named m n args :: visited) seen' (w :: seen') :=
      { abreast' with
        passed := List.cons_subset.2 ⟨mem, abreast'.passed⟩
        marked := fun y hy passage =>
          (abreast'.marked y hy passage).imp_left (List.mem_cons_of_mem _) }
    exact (faithful further (List.cons_subset_cons _ le) marked first' hr).after grows mem hits

/-- From any other node the loop goes on to the node ahead. -/
lemma follows_of_on (faithful : h.Faithful name t bound) {passed : List TypeExpr}
    {r : Option TypeExpr × Visited} (passage : h.passage? u = some (.ok v))
    (unnamed : ¬ ∃ m n args, u = .named m n args) (way : h.Approach t u passed pending)
    (le : passed ⊆ visited) (abreast : h.Abreast name pending visited seen (u :: seen))
    (first : DepthFirst h.ahead (u :: rest) seen order) (new : u ∉ visited)
    (hr : h.memberFrom name bound v (u :: visited) = .ok r) :
    h.Follows name pending rest seen order u r := by
  have hahead := ahead_of_passage passage unnamed
  have unseen : u ∉ seen := fun old =>
    (abreast.marked u old (by simp [passage])).elim new unnamed
  have miss : u.fieldAt? name = none := by
    cases u with
    | record => cases passage
    | _ => rfl
  obtain ⟨tail, rfl, next⟩ := first.of_new unseen
  rw [hahead] at next
  have visit : h.Abreast name pending (u :: visited) (u :: seen) (v :: u :: seen) :=
    abreast.visit (.inl rfl) (fun _ => .inl List.mem_cons_self) miss (List.subset_cons_self v _)
      (.inr (by simp [hahead]))
  have further := way.on passage fun hmem => new (le hmem)
  refine (faithful further (List.cons_subset_cons u le) visit next hr).after
    (List.subset_cons_self u seen) List.mem_cons_self ?_
  rw [List.findSome?_cons, miss]

/-- A delegation that the search has not come back to is searched part by part. -/
lemma follows_of_delegation (faithful : h.Faithful name t bound) {m : Mark} {base : TypeExpr}
    {targets passed : List TypeExpr} {r : Option TypeExpr × Visited}
    (way : h.Approach t (.delegation m base targets) passed pending) (le : passed ⊆ visited)
    (straight : .delegation m base targets ∉ pending)
    (abreast : h.Abreast name pending visited seen (.delegation m base targets :: seen))
    (first : DepthFirst h.ahead (.delegation m base targets :: rest) seen order)
    (hits : firstHit (h.memberFrom name bound) (base :: targets) visited = .ok r) :
    h.Follows name pending rest seen order (.delegation m base targets) r := by
  have pends : h.Abreast name (.delegation m base targets :: pending) visited seen
      (.delegation m base targets :: seen) := { abreast with
    closed := fun v hv => (abreast.closed v hv).imp_left (List.mem_cons_of_mem _)
    apart := List.forall_mem_cons.2 ⟨rfl, abreast.apart⟩ }
  by_cases old : .delegation m base targets ∈ seen
  · -- all of its parts have been seen before
    have within : .delegation m base targets :: seen ⊆ seen :=
      List.cons_subset.2 ⟨old, List.Subset.refl seen⟩
    have parts : base :: targets ⊆ seen :=
      List.Subset.trans ((abreast.closed _ old).resolve_left straight) within
    exact follows_of_parts faithful way le (List.nil_append _).symm (List.cons_ne_nil _ _)
      (List.nil_subset seen) old (pends.mono within) ((first.of_seen old).append_seen parts) hits
  · obtain ⟨tail, rfl, next⟩ := first.of_new old
    have visit : h.Abreast name (.delegation m base targets :: pending) visited
        (.delegation m base targets :: seen) (.delegation m base targets :: seen) :=
      pends.visit (.inr rfl) (fun passage => by cases passage) rfl (List.Subset.refl _)
        (.inl List.mem_cons_self)
    exact (follows_of_parts faithful way le (List.nil_append _).symm (List.cons_ne_nil _ _)
      (List.nil_subset _) List.mem_cons_self visit next hits).after
        (List.subset_cons_self _ seen) List.mem_cons_self rfl

/-- A search that never comes back to where it is busy follows the order. -/
lemma Straight.faithful (straight : h.Straight t) (grounded : ∀ u, h.Consults t u → h.Grounded u)
    (name : String) (bound : Nat) : h.Faithful name t bound := by
  induction bound with
  | zero => exact fun _ _ _ _ hr => by cases hr
  | succ bound ih =>
    intro u passed pending visited seen rest order r way le abreast first hr
    obtain ⟨_, ⟨⟩, went⟩ := went_of_memberFrom hr
    cases went with
    | again _ mem =>
      have old := abreast.passed mem
      refine ⟨seen, order, List.Subset.refl _, old, abreast.mono ?_, first.of_seen old, rfl⟩
      exact List.cons_subset.2 ⟨old, List.Subset.refl _⟩
    | on passage new hr =>
      by_cases named : ∃ m n args, u = .named m n args
      · obtain ⟨m, n, args, rfl⟩ := named
        cases passage
        exact follows_of_named ih (grounded _ way.consults) way le abreast first new hr
      · exact follows_of_on ih passage named way le abreast first new hr
    | parts hits =>
      exact follows_of_delegation ih way le (straight _ _ _ way) abreast first hits
    | bare passage hahead =>
      have unmarked : (h.passage? u).isSome →
          u ∈ visited ∨ ∃ m n args, u = .named m n args := by simp [passage]
      cases hfound : u.fieldAt? name with
      | none => exact follows_of_end abreast first (.inr rfl) unmarked hahead hfound
      | some a =>
        have new : u ∉ seen := fun old => by
          rw [abreast.missed u old] at hfound
          cases hfound
        obtain ⟨tail, rfl, -⟩ := first.of_new new
        show List.findSome? _ (u :: tail) = some a
        rw [List.findSome?_cons, hfound]

/-- What a search finds is what the first record in depth-first order has. -/
lemma Straight.memberFrom_eq (straight : h.Straight t)
    (grounded : ∀ u, h.Consults t u → h.Grounded u) (first : DepthFirst h.ahead [t] [] order)
    {r : Option TypeExpr × Visited} (hr : h.memberFrom name bound t [] = .ok r) :
    r.1 = order.findSome? (·.fieldAt? name) := by
  have abreast : h.Abreast name [] [] [] [t] :=
    ⟨List.Subset.refl _, by simp, by simp, by simp, by simp⟩
  have follows := straight.faithful grounded name bound .start (List.Subset.refl _) abreast first hr
  obtain ⟨_ | a, visited⟩ := r
  · obtain ⟨seen', order', -, -, -, done, hits⟩ := follows
    cases done
    exact hits.symm
  · exact follows.symm

/-! ## Members of a type -/

/-- What a lookup of a name finds and what the list of members says, against the records that a type
consults and their depth-first order. -/
structure Finds (h : Heap) (t : TypeExpr) (name : String) (found : Option TypeExpr)
    (names : List String) : Prop where
  listed : found.isSome ↔ name ∈ names
  consulted : name ∈ names ↔
    ∃ m fields, h.Consults t (.record m fields) ∧ name ∈ Field.names fields
  field : ∀ a ∈ found, ∃ m fields, h.Consults t (.record m fields) ∧
    Field.find? fields name = some a
  first : ∃ order, DepthFirst h.ahead [t] [] order ∧ order.Nodup ∧
    (∀ u, u ∈ order ↔ h.Consults t u) ∧
      (h.Straight t → found = order.findSome? (·.fieldAt? name))

/-- A lookup is complete, and agrees with the list of members. -/
lemma exists_finds (grounded : ∀ u, h.Consults t u → h.Grounded u) {names : List String}
    (hnames : h.members bound t = .ok names) (name : String) :
    ∃ found, h.member? bound t name = .ok found ∧ h.Finds t name found names := by
  obtain ⟨⟨listed, visited⟩, collected, hlisted⟩ := bind_eq_ok.1 hnames
  cases hlisted
  obtain ⟨order, first, nodup, mem⟩ := h.exists_depthFirst t
  have accords := h.accords_membersFrom name bound t []
  rw [collected] at accords
  have record {u a : TypeExpr} (hu : u.fieldAt? name = some a) :
      ∃ m fields, u = .record m fields ∧ Field.find? fields name = some a := by
    cases u with
    | record m fields => exact ⟨m, fields, rfl, hu⟩
    | _ => cases hu
  generalize hsearched : h.memberFrom name bound t [] = searched at accords
  have result : h.member? bound t name = searched.map (·.1) := by
    rw [member?, hsearched]
    cases searched <;> rfl
  cases accords with
  | miss absent =>
    have lacks {m : Mark} {fields : List (Field TypeExpr)}
        (hu : h.Consults t (.record m fields)) : name ∉ Field.names fields :=
      Field.find?_eq_none.1 (fieldAt?_of_consults hsearched grounded hu)
    refine ⟨none, result, by simpa using absent, ⟨fun mem => absurd mem absent, ?_⟩, by simp,
      order, first, nodup, mem, fun straight => straight.memberFrom_eq grounded first hsearched⟩
    rintro ⟨m, fields, hu, mem⟩
    exact absurd mem (lacks hu)
  | @hit _ a visited' present =>
    obtain ⟨u, hu, hit⟩ := consulted_of_memberFrom .refl hsearched
    obtain ⟨m, fields, rfl, hfind⟩ := record hit
    have has : name ∈ Field.names fields := Classical.not_not.1 fun absent => by
      rw [Field.find?_eq_none.2 absent] at hfind
      cases hfind
    refine ⟨some a, result, by simpa using present _ rfl, ⟨fun _ => ⟨m, fields, hu, has⟩, fun _ =>
      present _ rfl⟩, ?_, order, first, nodup, mem, fun straight =>
        straight.memberFrom_eq grounded first hsearched⟩
    rintro b ⟨⟩
    exact ⟨m, fields, hu, hfind⟩

end Heap

end TypeNotation
