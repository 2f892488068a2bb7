import TypeNotation.Proofs.Number.Measure
import TypeNotation.Proofs.Resolution.Conditions

/-!
# Nodes on the heap

A *world* is a state of expansion together with the set of the named and suspended nodes that matter
to it.  The set is closed: whatever a node refers to, through its arguments, its body, its bindings
or its result, is built over nodes of the set.  A world grows when an expansion makes new nodes;
nothing on the heap that belongs to an older node ever changes while types are expanded.
-/

namespace TypeNotation

/-- A set of nodes. -/
abbrev Nodes := TypeExpr → Prop

/-- A set with one more node. -/
def Nodes.insert (K : Nodes) (n : TypeExpr) : Nodes :=
  fun t => K t ∨ t = n

/-! ## Types over a set of nodes -/

namespace TypeExpr

/-- What may stand in a type that is given to be resolved: nodes of the set, and whatever does not
refer to a node.  There are two primitive types only. -/
def Admitted (K : Nodes) : TypeExpr → Prop
  | t@(named ..) | t@(deferred ..) => K t
  | primitive _ name => name = "string" ∨ name = "any"
  | _ => True

/-- Numerals that bound an interval. -/
def Bounding (low high : Numeral) : Prop :=
  low.isNaN = false ∧ high.isNaN = false ∧ low.compare high = .ok .lt

/-- What may stand in a type that has been resolved: no reference, no numeral that cannot be
evaluated, and no empty interval. -/
def Settled (K : Nodes) : TypeExpr → Prop
  | reference .. => False
  | number x => x.Evaluated
  | interval _ low high => Bounding low high
  | t => t.Admitted K

/-- A type that may be given to be resolved. -/
abbrev Over (K : Nodes) (t : TypeExpr) : Prop :=
  t.Throughout (Admitted K)

/-- A type as it is written: without nodes that only resolving makes. -/
abbrev Written (t : TypeExpr) : Prop :=
  t.Over fun _ => False

/-- A type that has been resolved. -/
abbrev ResolvedOver (K : Nodes) (t : TypeExpr) : Prop :=
  t.Throughout (Settled K)

variable {K L : Nodes}

lemma Admitted.mono (h : ∀ n, K n → L n) {t : TypeExpr} (ht : t.Admitted K) : t.Admitted L := by
  cases t <;> first | exact h _ ht | exact ht

lemma Settled.mono (h : ∀ n, K n → L n) {t : TypeExpr} (ht : t.Settled K) : t.Settled L := by
  cases t <;> first | exact h _ ht | exact ht

lemma Settled.admitted {t : TypeExpr} (ht : t.Settled K) : t.Admitted K := by
  cases t <;> first | exact ht | trivial

lemma Over.mono (h : ∀ n, K n → L n) {t : TypeExpr} (ht : t.Over K) : t.Over L :=
  Throughout.mono ht fun _ => Admitted.mono h

lemma Written.over {t : TypeExpr} (ht : t.Written) : t.Over K :=
  ht.mono fun _ => False.elim

lemma written_unit : Written (.unit (.written none)) :=
  throughout_iff.2 ⟨trivial, by simp [parts]⟩

lemma written_variable (letter : String) :
    Written (.typeVariable (.written none) ⟨letter, none⟩) :=
  throughout_iff.2 ⟨trivial, by simp [parts]⟩

lemma written_name (name : String) : Written (.reference (.written none) name []) :=
  throughout_iff.2 ⟨trivial, by simp [parts]⟩

lemma ResolvedOver.mono (h : ∀ n, K n → L n) {t : TypeExpr} (ht : t.ResolvedOver K) :
    t.ResolvedOver L :=
  Throughout.mono ht fun _ => Settled.mono h

lemma ResolvedOver.over {t : TypeExpr} (ht : t.ResolvedOver K) : t.Over K :=
  Throughout.mono ht fun _ => Settled.admitted

/-- A node of the set is itself a type over the set, if its arguments are. -/
lemma resolvedOver_named {m : Mark} {name : String} {args : List TypeExpr} :
    (named m name args).ResolvedOver K ↔
      K (named m name args) ∧ ∀ a ∈ args, a.ResolvedOver K := by
  simp only [ResolvedOver, throughout_iff (t := named m name args), parts, Settled, Admitted]

lemma resolvedOver_deferred {m : Mark} {target : TypeExpr} {bindings : List (Field TypeExpr)} :
    (deferred m target bindings).ResolvedOver K ↔ K (deferred m target bindings) := by
  simp only [ResolvedOver, throughout_iff (t := deferred m target bindings), parts, Settled,
    Admitted, List.not_mem_nil, false_implies, implies_true, and_true]

lemma throughout_number {P : TypeExpr → Prop} (h : ∀ x, P (number x)) (x : Numeral) :
    (number x).Throughout P := by
  induction x with
  | literal => exact throughout_iff.2 ⟨h _, by simp [parts]⟩
  | power _ b e hb he => exact throughout_iff.2 ⟨h _, by simp [parts, hb, he]⟩

lemma resolvedOver_number {x : Numeral} (h : x.Evaluated) : (number x).ResolvedOver K := by
  induction x with
  | literal => exact throughout_iff.2 ⟨h, by simp [parts]⟩
  | power _ b e hb he =>
    obtain ⟨base, exponent⟩ := h.power
    exact throughout_iff.2 ⟨h, by simp [parts, hb base, he exponent]⟩

lemma resolvedOver_interval {m : Mark} {low high : Numeral} :
    (interval m low high).ResolvedOver K ↔ Bounding low high := by
  rw [ResolvedOver, throughout_iff]
  simp only [parts, List.mem_cons, List.not_mem_nil, or_false, forall_eq_or_imp, forall_eq,
    Settled, and_iff_left_iff_imp]
  intro h
  obtain ⟨evaluated, evaluated', -⟩ := Numeral.exists_compare_iff.1 ⟨.lt, h.2.2⟩
  exact ⟨resolvedOver_number evaluated, resolvedOver_number evaluated'⟩

end TypeExpr

open TypeExpr

/-- An environment of resolved types. -/
abbrev Env.Over (K : Nodes) (env : Env) : Prop :=
  ∀ f ∈ env, f.type.ResolvedOver K

lemma Env.Over.find? {K : Nodes} {env : Env} (h : Env.Over K env) {letter : String}
    {t : TypeExpr} (ht : Field.find? env letter = some t) : t.ResolvedOver K := by
  simp only [Field.find?, Option.map_eq_some_iff] at ht
  obtain ⟨f, hf, rfl⟩ := ht
  exact h f (List.mem_of_find?_eq_some hf)

/-! ## Where suspended nodes come from -/

/-- Whether a variable with a letter occurs in a type. -/
def TypeExpr.HasLetter (t : TypeExpr) (letter : String) : Prop :=
  ∃ m v, typeVariable m v ∈ t.subterms ∧ v.letter = letter

/-- What an instance of a type takes over as it is: what the variables of the type are bound to, and
the nodes in it. -/
def TypeExpr.Guest (t : TypeExpr) (env : Env) (u : TypeExpr) : Prop :=
  (∃ letter, t.HasLetter letter ∧ Field.find? env letter = some u) ∨ u.isReferring ∧ u ∈ t.subterms

/-- A type is at home in a scope, apart from guests: what is suspended in it, other than in the
arguments of named nodes, was suspended in that scope. -/
inductive TypeExpr.Home (s : Store) (scope : Option String) (guest : TypeExpr → Prop) :
    TypeExpr → Prop
  | guest {t : TypeExpr} (h : guest t) : Home s scope guest t
  | named (m : Mark) (name : String) (args : List TypeExpr) :
    Home s scope guest (.named m name args)
  | deferred {m : Mark} {target : TypeExpr} {env : Env} (placed : m.stamp < s.nextStamp)
    (h : s.suspensions[m.stamp]? = some ⟨target, env, scope⟩) :
    Home s scope guest (.deferred m target (targetBindings env target))
  | node {t : TypeExpr} (plain : t.isReferring = false)
    (parts : ∀ u ∈ t.parts, Home s scope guest u) : Home s scope guest t

namespace TypeExpr

variable {s s' : Store} {scope : Option String} {guest guest' : TypeExpr → Prop} {t u : TypeExpr}

lemma mem_subterms_of_part (hu : u ∈ t.parts) {n : TypeExpr} (hn : n ∈ u.subterms) :
    n ∈ t.subterms := by
  rw [subterms_eq]
  exact List.mem_cons_of_mem _ (List.mem_flatMap.2 ⟨u, hu, hn⟩)

lemma HasLetter.of_part {letter : String} (hu : u ∈ t.parts) (h : u.HasLetter letter) :
    t.HasLetter letter := by
  obtain ⟨m, v, hv, rfl⟩ := h
  exact ⟨m, v, mem_subterms_of_part hu hv, rfl⟩

lemma Guest.of_part {env : Env} (hu : u ∈ t.parts) {g : TypeExpr} (h : u.Guest env g) :
    t.Guest env g := by
  rcases h with ⟨letter, hletter, hg⟩ | ⟨node, hg⟩
  · exact .inl ⟨letter, hletter.of_part hu, hg⟩
  · exact .inr ⟨node, mem_subterms_of_part hu hg⟩

lemma Home.mono (h : t.Home s scope guest) (sub : ∀ u, guest u → guest' u) :
    t.Home s scope guest' := by
  induction h with
  | guest h => exact .guest (sub _ h)
  | named m name args => exact .named m name args
  | deferred placed h => exact .deferred placed h
  | node plain _ ih => exact .node plain ih

lemma Home.later (h : t.Home s scope guest) (next : s.nextStamp ≤ s'.nextStamp)
    (suspensions : ∀ n < s.nextStamp, s'.suspensions[n]? = s.suspensions[n]?) :
    t.Home s' scope guest := by
  induction h with
  | guest h => exact .guest h
  | named m name args => exact .named m name args
  | deferred placed h =>
    exact .deferred (Nat.lt_of_lt_of_le placed next) ((suspensions _ placed).trans h)
  | node plain _ ih => exact .node plain ih

/-- A type is at home if each of its parts is where a part of another type was expanded. -/
lemma Home.of_parts {env : Env} (plain : u.isReferring = false)
    (h : ∀ p ∈ u.parts, ∃ q ∈ t.parts, p.Home s scope (q.Guest env)) :
    u.Home s scope (t.Guest env) :=
  .node plain fun p hp => by
    obtain ⟨q, hq, home⟩ := h p hp
    exact home.mono fun _ => Guest.of_part hq

lemma home_number (x : Numeral) : (number x).Home s scope guest := by
  induction x with
  | literal => exact .node rfl (by simp [parts])
  | power _ b e hb he => exact .node rfl (by simp [parts, hb, he])

end TypeExpr

/-! ## Closed sets of nodes -/

/-- A set of nodes is wired up on a store: every node has been made before, and what it refers to is
built over the set.  The body of a named node, if it has one yet, is the body of the declaration
with the arguments in the place of the parameters; the result of a suspended node, if it has one
yet, is the instance of what is suspended.  Both are at home where they were expanded. -/
structure Wired (registry : Registry) (K : Nodes) (s : Store) : Prop where
  placed : ∀ {n}, K n → n.isReferring ∧ n.stamp < s.nextStamp
  args : ∀ {m name args}, K (.named m name args) → ∀ a ∈ args, a.ResolvedOver K
  declared : ∀ {m name args}, K (.named m name args) →
    ∃ d, registry.lookup name = some d ∧ args.length = d.arity ∧
      ∀ b, s.heap.body? m.stamp = some b → b.ResolvedOver K ∧ b.same (d.applied args) = true
  target : ∀ {m target bindings}, K (.deferred m target bindings) →
    target.Over K ∧ ∀ b ∈ bindings, b.type.ResolvedOver K
  suspended : ∀ {m target bindings}, K (.deferred m target bindings) →
    ∃ x, s.suspensions[m.stamp]? = some x ∧ x.target.Over K ∧ Env.Over K x.env
  result : ∀ {m target bindings r}, K (.deferred m target bindings) →
    s.heap.result? m.stamp = some r → r.ResolvedOver K
  faithful : ∀ {m target bindings r x}, K (.deferred m target bindings) →
    s.heap.result? m.stamp = some r → s.suspensions[m.stamp]? = some x →
      r.same (x.target.instantiate x.env x.scope) = true
  linked : ∀ {m target bindings x}, K (.deferred m target bindings) →
    s.suspensions[m.stamp]? = some x → x.target = target ∧ targetBindings x.env target = bindings
  bodyHome : ∀ {m name args b d}, K (.named m name args) → s.heap.body? m.stamp = some b →
    registry.lookup name = some d → b.Home s (some d.name) (d.body.Guest (d.binding args))
  resultHome : ∀ {m target bindings r x}, K (.deferred m target bindings) →
    s.heap.result? m.stamp = some r → s.suspensions[m.stamp]? = some x →
      r.Home s x.scope (x.target.Guest x.env)

namespace Wired

variable {registry : Registry} {K : Nodes} {s s' : Store}

/-- What happens under new stamps does not concern nodes that exist. -/
lemma later (h : Wired registry K s) (next : s.nextStamp ≤ s'.nextStamp)
    (bodies : ∀ n < s.nextStamp, s'.heap.body? n = s.heap.body? n)
    (results : ∀ n < s.nextStamp, s'.heap.result? n = s.heap.result? n)
    (suspensions : ∀ n < s.nextStamp, s'.suspensions[n]? = s.suspensions[n]?) :
    Wired registry K s' where
  placed hn := ⟨(h.placed hn).1, Nat.lt_of_lt_of_le (h.placed hn).2 next⟩
  args := h.args
  declared {m name args} hn := by
    have hstamp : m.stamp < s.nextStamp := (h.placed hn).2
    rw [bodies _ hstamp]
    exact h.declared hn
  target := h.target
  suspended {m target bindings} hn := by
    have hstamp : m.stamp < s.nextStamp := (h.placed hn).2
    rw [suspensions _ hstamp]
    exact h.suspended hn
  result {m target bindings r} hn := by
    have hstamp : m.stamp < s.nextStamp := (h.placed hn).2
    rw [results _ hstamp]
    exact h.result hn
  faithful {m target bindings r x} hn := by
    have hstamp : m.stamp < s.nextStamp := (h.placed hn).2
    rw [results _ hstamp, suspensions _ hstamp]
    exact h.faithful hn
  linked {m target bindings x} hn := by
    have hstamp : m.stamp < s.nextStamp := (h.placed hn).2
    rw [suspensions _ hstamp]
    exact h.linked hn
  bodyHome {m name args b d} hn hb hd := by
    have hstamp : m.stamp < s.nextStamp := (h.placed hn).2
    rw [bodies _ hstamp] at hb
    exact (h.bodyHome hn hb hd).later next suspensions
  resultHome {m target bindings r x} hn hr hx := by
    have hstamp : m.stamp < s.nextStamp := (h.placed hn).2
    rw [results _ hstamp] at hr
    rw [suspensions _ hstamp] at hx
    exact (h.resultHome hn hr hx).later next suspensions

lemma setResolver (h : Wired registry K s) (stamp : Nat) (r : Resolver) :
    Wired registry K (s.setResolver stamp r) :=
  h.later (Nat.le_refl _) (fun _ _ => rfl) (fun _ _ => rfl) fun _ _ => rfl

/-- Two closed sets together are closed. -/
lemma union {L : Nodes} (hK : Wired registry K s) (hL : Wired registry L s) :
    Wired registry (fun n => K n ∨ L n) s where
  placed hn := hn.elim hK.placed hL.placed
  args hn a ha := by
    rcases hn with hn | hn
    · exact (hK.args hn a ha).mono fun _ => .inl
    · exact (hL.args hn a ha).mono fun _ => .inr
  declared hn := by
    rcases hn with hn | hn
    · obtain ⟨d, hd, harity, hbody⟩ := hK.declared hn
      exact ⟨d, hd, harity, fun b hb => ⟨(hbody b hb).1.mono fun _ => .inl, (hbody b hb).2⟩⟩
    · obtain ⟨d, hd, harity, hbody⟩ := hL.declared hn
      exact ⟨d, hd, harity, fun b hb => ⟨(hbody b hb).1.mono fun _ => .inr, (hbody b hb).2⟩⟩
  target hn := by
    rcases hn with hn | hn
    · exact ⟨(hK.target hn).1.mono fun _ => .inl,
        fun b hb => ((hK.target hn).2 b hb).mono fun _ => .inl⟩
    · exact ⟨(hL.target hn).1.mono fun _ => .inr,
        fun b hb => ((hL.target hn).2 b hb).mono fun _ => .inr⟩
  suspended hn := by
    rcases hn with hn | hn
    · obtain ⟨x, hx, htarget, henv⟩ := hK.suspended hn
      exact ⟨x, hx, htarget.mono fun _ => .inl, fun f hf => (henv f hf).mono fun _ => .inl⟩
    · obtain ⟨x, hx, htarget, henv⟩ := hL.suspended hn
      exact ⟨x, hx, htarget.mono fun _ => .inr, fun f hf => (henv f hf).mono fun _ => .inr⟩
  result hn hr := by
    rcases hn with hn | hn
    · exact (hK.result hn hr).mono fun _ => .inl
    · exact (hL.result hn hr).mono fun _ => .inr
  faithful hn := hn.elim hK.faithful hL.faithful
  linked hn := hn.elim hK.linked hL.linked
  bodyHome hn := hn.elim hK.bodyHome hL.bodyHome
  resultHome hn := hn.elim hK.resultHome hL.resultHome

/-- A node of the set is a type over the set. -/
lemma node (h : Wired registry K s) {n : TypeExpr} (hn : K n) : n.ResolvedOver K := by
  have href := (h.placed hn).1
  cases n <;> simp only [isReferring, Bool.false_eq_true] at href
  · exact resolvedOver_named.2 ⟨hn, h.args hn⟩
  · exact resolvedOver_deferred.2 hn

/-- A named node that does not have a body yet may join. -/
lemma addNamed (h : Wired registry K s) {m : Mark} {name : String} {args : List TypeExpr}
    {d : Declaration} (placed : m.stamp < s.nextStamp) (hargs : ∀ a ∈ args, a.ResolvedOver K)
    (hd : registry.lookup name = some d) (arity : args.length = d.arity)
    (bare : s.heap.body? m.stamp = none) :
    Wired registry (K.insert (.named m name args)) s where
  placed hn := by
    rcases hn with hn | rfl
    · exact h.placed hn
    · exact ⟨rfl, placed⟩
  args hn a ha := by
    refine ResolvedOver.mono (fun _ => .inl) ?_
    rcases hn with hn | heq
    · exact h.args hn a ha
    · cases heq
      exact hargs a ha
  declared hn := by
    rcases hn with hn | heq
    · obtain ⟨d, hd, harity, hbody⟩ := h.declared hn
      exact ⟨d, hd, harity, fun b hb => ⟨(hbody b hb).1.mono fun _ => .inl, (hbody b hb).2⟩⟩
    · cases heq
      exact ⟨d, hd, arity, fun b hb => by rw [bare] at hb; cases hb⟩
  target hn := by
    have hn := hn.resolve_right (by simp)
    exact ⟨(h.target hn).1.mono fun _ => .inl, fun b hb =>
      ((h.target hn).2 b hb).mono fun _ => .inl⟩
  suspended hn := by
    obtain ⟨x, hx, htarget, henv⟩ := h.suspended (hn.resolve_right (by simp))
    exact ⟨x, hx, htarget.mono fun _ => .inl, fun f hf => (henv f hf).mono fun _ => .inl⟩
  result hn hr := (h.result (hn.resolve_right (by simp)) hr).mono fun _ => .inl
  faithful hn := h.faithful (hn.resolve_right (by simp))
  linked hn := h.linked (hn.resolve_right (by simp))
  bodyHome hn hb := by
    rcases hn with hn | heq
    · exact h.bodyHome hn hb
    · cases heq
      rw [bare] at hb
      cases hb
  resultHome hn := h.resultHome (hn.resolve_right (by simp))

/-- A suspended node that does not have a result yet may join. -/
lemma addDeferred (h : Wired registry K s) {m : Mark} {x : Suspension}
    (placed : m.stamp < s.nextStamp) (htarget : x.target.Over K)
    (hbindings : ∀ b ∈ targetBindings x.env x.target, b.type.ResolvedOver K)
    (hx : s.suspensions[m.stamp]? = some x) (henv : Env.Over K x.env)
    (bare : s.heap.result? m.stamp = none) :
    Wired registry (K.insert (.deferred m x.target (targetBindings x.env x.target))) s where
  placed hn := by
    rcases hn with hn | rfl
    · exact h.placed hn
    · exact ⟨rfl, placed⟩
  args hn a ha := (h.args (hn.resolve_right (by simp)) a ha).mono fun _ => .inl
  declared hn := by
    obtain ⟨d, hd, harity, hbody⟩ := h.declared (hn.resolve_right (by simp))
    exact ⟨d, hd, harity, fun b hb => ⟨(hbody b hb).1.mono fun _ => .inl, (hbody b hb).2⟩⟩
  target hn := by
    rcases hn with hn | heq
    · exact ⟨(h.target hn).1.mono fun _ => .inl,
        fun b hb => ((h.target hn).2 b hb).mono fun _ => .inl⟩
    · cases heq
      exact ⟨htarget.mono fun _ => .inl, fun b hb => (hbindings b hb).mono fun _ => .inl⟩
  suspended hn := by
    rcases hn with hn | heq
    · obtain ⟨x, hx, hxtarget, henv⟩ := h.suspended hn
      exact ⟨x, hx, hxtarget.mono fun _ => .inl, fun f hf => (henv f hf).mono fun _ => .inl⟩
    · cases heq
      exact ⟨x, hx, htarget.mono fun _ => .inl, fun f hf => (henv f hf).mono fun _ => .inl⟩
  result hn hr := by
    rcases hn with hn | heq
    · exact (h.result hn hr).mono fun _ => .inl
    · cases heq
      rw [bare] at hr
      cases hr
  faithful hn hr := by
    rcases hn with hn | heq
    · exact h.faithful hn hr
    · cases heq
      rw [bare] at hr
      cases hr
  linked hn hy := by
    rcases hn with hn | heq
    · exact h.linked hn hy
    · cases heq
      rw [hx] at hy
      cases hy
      exact ⟨rfl, rfl⟩
  bodyHome hn := h.bodyHome (hn.resolve_right (by simp))
  resultHome hn hr := by
    rcases hn with hn | heq
    · exact h.resultHome hn hr
    · cases heq
      rw [bare] at hr
      cases hr

/-- A suspended node may get its result. -/
lemma setResult (h : Wired registry K s) {stamp : Nat} {result : TypeExpr}
    (hresult : result.ResolvedOver K)
    (same : ∀ x, s.suspensions[stamp]? = some x →
      result.same (x.target.instantiate x.env x.scope) = true)
    (home : ∀ x, s.suspensions[stamp]? = some x → result.Home s x.scope (x.target.Guest x.env)) :
    Wired registry K { s with heap := s.heap.setResult stamp result } where
  placed hn := h.placed hn
  args := h.args
  declared := h.declared
  target := h.target
  suspended := h.suspended
  result {m target bindings r} hn hr := by
    by_cases heq : stamp = m.stamp
    · simp only [Heap.result?, Heap.setResult, heq, Std.HashMap.getElem?_insert_self,
        Option.some.injEq] at hr
      exact hr ▸ hresult
    · simp only [Heap.result?, Heap.setResult, Std.HashMap.getElem?_insert, beq_iff_eq, heq,
        if_false] at hr
      exact h.result hn hr
  faithful {m target bindings r x} hn hr hx := by
    by_cases heq : stamp = m.stamp
    · simp only [Heap.result?, Heap.setResult, heq, Std.HashMap.getElem?_insert_self,
        Option.some.injEq] at hr
      exact hr ▸ same x (heq ▸ hx)
    · simp only [Heap.result?, Heap.setResult, Std.HashMap.getElem?_insert, beq_iff_eq, heq,
        if_false] at hr
      exact h.faithful hn hr hx
  linked := h.linked
  bodyHome hn hb hd := (h.bodyHome hn hb hd).later (Nat.le_refl _) fun _ _ => rfl
  resultHome {m target bindings r x} hn hr hx := by
    refine Home.later (s := s) ?_ (Nat.le_refl _) fun _ _ => rfl
    by_cases heq : stamp = m.stamp
    · simp only [Heap.result?, Heap.setResult, heq, Std.HashMap.getElem?_insert_self,
        Option.some.injEq] at hr
      exact hr ▸ home x (heq ▸ hx)
    · simp only [Heap.result?, Heap.setResult, Std.HashMap.getElem?_insert, beq_iff_eq, heq,
        if_false] at hr
      exact h.resultHome hn hr hx

/-- Another registry does as well, if it knows the same declarations. -/
lemma registry_mono (h : Wired registry K s) {registry' : Registry}
    (lookup : ∀ name d, registry.lookup name = some d → registry'.lookup name = some d) :
    Wired registry' K s where
  placed := h.placed
  args := h.args
  declared hn := by
    obtain ⟨d, hd, harity, hbody⟩ := h.declared hn
    exact ⟨d, lookup _ _ hd, harity, hbody⟩
  target := h.target
  suspended := h.suspended
  result := h.result
  faithful := h.faithful
  linked := h.linked
  bodyHome hn hb hd' := by
    obtain ⟨d, hd, -⟩ := h.declared hn
    rw [lookup _ _ hd] at hd'
    cases hd'
    exact h.bodyHome hn hb hd
  resultHome := h.resultHome

/-- A named node may get its body, once. -/
lemma setBody (h : Wired registry K s) {stamp : Nat} {body : TypeExpr}
    (hbody : body.ResolvedOver K)
    (own : ∀ {m name args d}, K (.named m name args) → m.stamp = stamp →
      registry.lookup name = some d → body.same (d.applied args) = true ∧
        body.Home s (some d.name) (d.body.Guest (d.binding args))) :
    Wired registry K { s with heap := s.heap.setBody stamp body } where
  placed hn := h.placed hn
  args := h.args
  declared {m name args} hn := by
    obtain ⟨d, hd, harity, hold⟩ := h.declared hn
    refine ⟨d, hd, harity, fun b hb => ?_⟩
    by_cases heq : stamp = m.stamp
    · simp only [Heap.body?, Heap.setBody, heq, Std.HashMap.getElem?_insert_self,
        Option.some.injEq] at hb
      subst hb
      exact ⟨hbody, (own hn heq.symm hd).1⟩
    · simp only [Heap.body?, Heap.setBody, Std.HashMap.getElem?_insert, beq_iff_eq, heq,
        if_false] at hb
      exact hold b hb
  target := h.target
  suspended := h.suspended
  result := h.result
  faithful := h.faithful
  linked := h.linked
  bodyHome {m name args b d} hn hb hd := by
    refine Home.later (s := s) ?_ (Nat.le_refl _) fun _ _ => rfl
    by_cases heq : stamp = m.stamp
    · simp only [Heap.body?, Heap.setBody, heq, Std.HashMap.getElem?_insert_self,
        Option.some.injEq] at hb
      subst hb
      exact (own hn heq.symm hd).2
    · simp only [Heap.body?, Heap.setBody, Std.HashMap.getElem?_insert, beq_iff_eq, heq,
        if_false] at hb
      exact h.bodyHome hn hb hd
  resultHome hn hr hx := (h.resultHome hn hr hx).later (Nat.le_refl _) fun _ _ => rfl

end Wired

/-- Nothing is stored under a stamp that has not been given out. -/
structure Store.Fresh (s : Store) : Prop where
  bodies : ∀ {n}, s.nextStamp ≤ n → s.heap.body? n = none
  results : ∀ {n}, s.nextStamp ≤ n → s.heap.result? n = none
  resolvers : ∀ {n}, s.nextStamp ≤ n → s.resolvers[n]? = none

namespace Store

lemma getElem?_setResolver (s : Store) (key k : Nat) (r : Resolver) :
    (s.setResolver key r).resolvers[k]? = if k = key then some r else s.resolvers[k]? := by
  by_cases hk : k = key
  · simp [setResolver, hk]
  · simp [setResolver, Std.HashMap.getElem?_insert, hk, Ne.symm hk]

@[simp] lemma resolver_setResolver (s : Store) (key : Nat) (r : Resolver) :
    (s.setResolver key r).resolver key = r := by
  simp [resolver, getElem?_setResolver]

@[simp] lemma heap_setResolver (s : Store) (key : Nat) (r : Resolver) :
    (s.setResolver key r).heap = s.heap := rfl

lemma Fresh.setResolver {s : Store} (fresh : s.Fresh) {key : Nat} (hkey : key < s.nextStamp)
    (r : Resolver) : (s.setResolver key r).Fresh :=
  ⟨fresh.bodies, fresh.results, fun {n} hn => by
    have hn : s.nextStamp ≤ n := hn
    have hne : n ≠ key := by omega
    rw [getElem?_setResolver, if_neg hne]
    exact fresh.resolvers hn⟩

end Store

/-- What a resolver keeps is built over a set of nodes.  No two nodes in its table are equal, and
they stand in the order in which they were made. -/
structure Resolver.Over (K : Nodes) (r : Resolver) : Prop where
  table : ∀ t ∈ r.expanded, K t ∧ ∃ m name args, t = .named m name args
  distinct : r.expanded.Pairwise fun t u => t.same u = false
  ordered : r.expanded.Pairwise fun t u => t.stamp < u.stamp
  pending : ∀ c ∈ r.pending, c.binding.ResolvedOver K ∧ c.constraint.ResolvedOver K

/-- A registry whose declarations and memo are built over a set of nodes. -/
structure Registry.Over (K : Nodes) (r : Registry) : Prop where
  declarations : ∀ d ∈ r.declarations, d.body.Over K
  memo : ∀ t ∈ r.memo, K t ∧ ∃ m name args, t = .named m name args

lemma Resolver.Over.mono {K L : Nodes} (h : ∀ n, K n → L n) {r : Resolver} (hr : r.Over K) :
    r.Over L where
  table t ht := ⟨h t (hr.table t ht).1, (hr.table t ht).2⟩
  distinct := hr.distinct
  ordered := hr.ordered
  pending c hc := ⟨(hr.pending c hc).1.mono h, (hr.pending c hc).2.mono h⟩

lemma Registry.Over.mono {K L : Nodes} (h : ∀ n, K n → L n) {r : Registry} (hr : r.Over K) :
    r.Over L where
  declarations d hd := (hr.declarations d hd).mono h
  memo t ht := ⟨h t (hr.memo t ht).1, (hr.memo t ht).2⟩

/-- A state of expansion, and the nodes that matter to it. -/
structure World where
  nodes : Nodes
  state : Expanding

namespace World

/-- The stamp that is given out next. -/
abbrev next (w : World) : Nat := w.state.store.nextStamp

/-- The body of a named node. -/
abbrev body? (w : World) (stamp : Nat) : Option TypeExpr := w.state.store.heap.body? stamp

/-- The conditions that are still to be checked. -/
def Noted (w : World) (binding constraint : TypeExpr) : Prop :=
  ∃ c ∈ w.state.resolver.pending, c.binding = binding ∧ c.constraint = constraint

/-- A world in which types can be expanded. -/
structure Ready (registry : Registry) (w : World) : Prop where
  wired : Wired registry w.nodes w.state.store
  fresh : w.state.store.Fresh
  resolver : w.state.resolver.Over w.nodes
  registry : registry.Over w.nodes

/-! ## Later worlds -/

/-- A later world has new nodes, under new stamps; the named ones among them are in the table of the
resolver.  What belongs to older stamps is as it was. -/
structure Later (w w' : World) : Prop where
  nodes : ∀ {n}, w.nodes n → w'.nodes n
  made : ∀ {n}, w'.nodes n → w.nodes n ∨ w.next ≤ n.stamp ∧
    ((∃ m name args, n = .named m name args) → n ∈ w'.state.resolver.expanded)
  next : w.next ≤ w'.next
  bodies : ∀ {n}, n < w.next → w'.body? n = w.body? n
  results : w'.state.store.heap.results = w.state.store.heap.results
  suspensions : ∀ {n}, n < w.next →
    w'.state.store.suspensions[n]? = w.state.store.suspensions[n]?
  resolvers : ∀ {n}, n < w.next → w'.state.store.resolvers[n]? = w.state.store.resolvers[n]?
  idle : ∀ {n r}, w.next ≤ n → w'.state.store.resolvers[n]? = some r →
    r.expanded = [] ∧ r.pending = []
  table : w.state.resolver.expanded <+: w'.state.resolver.expanded
  pending : w.state.resolver.pending <+: w'.state.resolver.pending
  maxSteps : w'.state.resolver.maxSteps = w.state.resolver.maxSteps
  maxDepth : w'.state.resolver.maxDepth = w.state.resolver.maxDepth

/-- All named nodes made on the way from one world to another have a body, and the conditions that
came up with it have been noted. -/
def Completed (registry : Registry) (w w' : World) : Prop :=
  ∀ {m name args}, w'.nodes (.named m name args) → ¬ w.nodes (.named m name args) →
    (w'.body? m.stamp).isSome ∧ ∀ d, registry.lookup name = some d →
      d.body.Discharged w'.Noted (d.binding args) (some name)

variable {w w' w'' : World} {registry : Registry}

lemma Later.refl (w : World) (idle : w.state.store.Fresh) : Later w w where
  nodes h := h
  made h := .inl h
  next := Nat.le_refl _
  bodies _ := rfl
  results := rfl
  suspensions _ := rfl
  resolvers _ := rfl
  idle hn hr := by rw [idle.resolvers hn] at hr; cases hr
  table := List.prefix_rfl
  pending := List.prefix_rfl
  maxSteps := rfl
  maxDepth := rfl

lemma Later.trans (h : Later w w') (h' : Later w' w'') : Later w w'' where
  nodes hn := h'.nodes (h.nodes hn)
  made hn := by
    rcases h'.made hn with hn | ⟨hstamp, hnamed⟩
    · rcases h.made hn with hn | ⟨hstamp, hnamed⟩
      · exact .inl hn
      · exact .inr ⟨hstamp, fun hx => h'.table.subset (hnamed hx)⟩
    · exact .inr ⟨Nat.le_trans h.next hstamp, hnamed⟩
  next := Nat.le_trans h.next h'.next
  bodies hn := (h'.bodies (Nat.lt_of_lt_of_le hn h.next)).trans (h.bodies hn)
  results := h'.results.trans h.results
  suspensions hn := (h'.suspensions (Nat.lt_of_lt_of_le hn h.next)).trans (h.suspensions hn)
  resolvers hn := (h'.resolvers (Nat.lt_of_lt_of_le hn h.next)).trans (h.resolvers hn)
  idle {n r} hn hr := by
    by_cases hlt : n < w'.next
    · rw [h'.resolvers hlt] at hr
      exact h.idle hn hr
    · exact h'.idle (Nat.le_of_not_lt hlt) hr
  table := h.table.trans h'.table
  pending := h.pending.trans h'.pending
  maxSteps := h'.maxSteps.trans h.maxSteps
  maxDepth := h'.maxDepth.trans h.maxDepth

lemma Later.noted (h : Later w w') {binding constraint : TypeExpr}
    (hc : w.Noted binding constraint) : w'.Noted binding constraint := by
  obtain ⟨c, hmem, hc⟩ := hc
  exact ⟨c, h.pending.subset hmem, hc⟩

lemma Later.result? (h : Later w w') (n : Nat) :
    w'.state.store.heap.result? n = w.state.store.heap.result? n := by
  simp only [Heap.result?, h.results]

lemma Completed.trans (ready : Ready registry w') (h' : Later w' w'')
    (hw : w.Completed registry w') (hw' : w'.Completed registry w'') :
    w.Completed registry w'' := by
  intro m name args hn hnot
  by_cases hmid : w'.nodes (.named m name args)
  · have hstamp : m.stamp < w'.next := (ready.wired.placed hmid).2
    rw [h'.bodies hstamp]
    obtain ⟨body, conditions⟩ := hw hmid hnot
    exact ⟨body, fun d hd => (conditions d hd).mono fun _ _ => h'.noted⟩
  · exact hw' hn hmid

lemma Completed.of_nodes (h : ∀ n, w'.nodes n → w.nodes n) : w.Completed registry w' :=
  fun hn hnot => absurd (h _ hn) hnot

end World

end TypeNotation
