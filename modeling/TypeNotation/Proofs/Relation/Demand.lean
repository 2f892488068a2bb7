import TypeNotation.Relation.Subtype
import TypeNotation.Proofs.Resolution.World

/-!
# What a question demands

A question about types over a closed set of nodes only demands results of nodes of that set, and the
types that it answers with are built over the set as well.  So whatever is resolved on the way to an
answer was within reach of the question, and no reference is met on that way.
-/

namespace TypeNotation

open TypeExpr

/-- A question only demands suspended nodes of a set, does not meet a reference, and its answer
satisfies a condition. -/
def Query.Stays {α : Type} (K : Nodes) (q : Query α) (Post : α → Prop) : Prop :=
  match q with
  | .ok a => Post a
  | .error (.demand t) => K t ∧ ∃ m target bindings, t = .deferred m target bindings
  | .error (.unresolved _) | .error .incomparable => False
  | .error _ => True

namespace Query

variable {α β : Type} {K : Nodes}

lemma stays_ok {Post : α → Prop} {a : α} (h : Post a) : Stays K (.ok a) Post := h

lemma Stays.mono {q : Query α} {Post Post' : α → Prop} (hq : q.Stays K Post)
    (h : ∀ a, Post a → Post' a) : q.Stays K Post' := by
  unfold Stays at *
  split at hq <;> first | exact h _ hq | exact hq

lemma Stays.bind {q : Query α} {f : α → Query β} {Mid : α → Prop} {Post : β → Prop}
    (hq : q.Stays K Mid) (hf : ∀ a, Mid a → (f a).Stays K Post) : (q >>= f).Stays K Post := by
  rcases q with e | a
  · cases e <;> exact hq
  · exact hf a hq

/-- A question that answers, whatever the answer is. -/
abbrev Free (K : Nodes) (q : Query α) : Prop :=
  q.Stays K fun _ => True

lemma Free.bind {q : Query α} {f : α → Query β} {Post : β → Prop} (hq : q.Free K)
    (hf : ∀ a, (f a).Stays K Post) : (q >>= f).Stays K Post :=
  Stays.bind hq fun a _ => hf a

lemma Stays.free {q : Query α} {Post : α → Prop} (hq : q.Stays K Post) : q.Free K :=
  hq.mono fun _ _ => trivial

lemma free_ofArithmetic (x : Except ArithmeticFault α) : Free K (ofArithmetic x) := by
  cases x <;> trivial

lemma free_ite {q : Query Bool} {x y : Query α} {Post : α → Prop} (hq : q.Free K)
    (hx : x.Stays K Post) (hy : y.Stays K Post) : Stays K (do if ← q then x else y) Post :=
  hq.bind fun b => by cases b <;> assumption

lemma free_unless (c : Bool) {q : Query Bool} (hq : q.Free K) :
    Free K (if c then pure false else q) := by
  cases c
  · exact hq
  · trivial

lemma free_allM {p : α → Query Bool} {xs : List α} (h : ∀ x ∈ xs, (p x).Free K) :
    Free K (xs.allM p) := by
  induction xs with
  | nil => trivial
  | cons x xs ih =>
    rw [List.allM]
    refine (h x (by simp)).bind fun b => ?_
    cases b
    · trivial
    · exact ih fun y hy => h y (by simp [hy])

lemma free_anyM {p : α → Query Bool} {xs : List α} (h : ∀ x ∈ xs, (p x).Free K) :
    Free K (xs.anyM p) := by
  induction xs with
  | nil => trivial
  | cons x xs ih =>
    rw [List.anyM]
    refine (h x (by simp)).bind fun b => ?_
    cases b
    · exact ih fun y hy => h y (by simp [hy])
    · trivial

end Query

open Query

/-! ## Unfolding -/

variable {registry : Registry} {K : Nodes} {s : Store}

lemma resolvedOver_unfoldFrom (wired : Wired registry K s) (bound : Nat) (seen : List Nat)
    {t : TypeExpr} (ht : t.ResolvedOver K) : (s.heap.unfoldFrom bound seen t).ResolvedOver K := by
  induction bound generalizing seen t with
  | zero => exact ht
  | succ bound ih =>
    cases t with
    | named m name args =>
      simp only [Heap.unfoldFrom]
      cases hbody : s.heap.body? m.stamp with
      | none => exact ht
      | some body =>
        simp only
        split
        · exact ht
        · obtain ⟨d, -, -, h⟩ := wired.declared ht.self
          exact ih _ (h body hbody).1
    | _ => exact ht

lemma resolvedOver_unfold (wired : Wired registry K s) {t : TypeExpr} (ht : t.ResolvedOver K) :
    (s.heap.unfold t).ResolvedOver K :=
  resolvedOver_unfoldFrom wired _ [] ht

lemma stays_reveal (wired : Wired registry K s) {t : TypeExpr} (ht : t.ResolvedOver K) :
    (s.heap.reveal t).Stays K (ResolvedOver K) := by
  cases t with
  | deferred m target bindings =>
    simp only [Heap.reveal]
    cases hresult : s.heap.result? m.stamp with
    | none => exact ⟨ht.self, m, target, bindings, rfl⟩
    | some result => exact wired.result ht.self hresult
  | _ => exact stays_ok (resolvedOver_unfold wired ht)

/-! ## Members -/

lemma stays_firstHit {search : TypeExpr → Visited → Query (Option TypeExpr × Visited)}
    {ts : List TypeExpr}
    (h : ∀ t ∈ ts, ∀ visited, (search t visited).Stays K fun r => ∀ u ∈ r.1, u.ResolvedOver K)
    (visited : Visited) :
    (firstHit search ts visited).Stays K fun r => ∀ u ∈ r.1, u.ResolvedOver K := by
  induction ts generalizing visited with
  | nil => exact stays_ok (by simp)
  | cons t ts ih =>
    refine (h t (by simp) visited).bind fun r hr => ?_
    rcases r with ⟨_ | u, visited'⟩
    · exact ih (fun t ht => h t (by simp [ht])) visited'
    · exact stays_ok hr

lemma stays_passage (wired : Wired registry K s) {t : TypeExpr} (ht : t.ResolvedOver K)
    {next : Query TypeExpr}
    (h : s.heap.passage? t = some next) : next.Stays K (ResolvedOver K) := by
  cases t with
  | predicate m constraint body listed =>
    cases h
    exact stays_ok (ht.part (by simp [parts]))
  | named | deferred =>
    cases h
    exact stays_reveal wired ht
  | _ => cases h

lemma stays_memberFrom (wired : Wired registry K s) (name : String) (bound : Nat) {t : TypeExpr}
    (ht : t.ResolvedOver K) (visited : Visited) :
    (s.heap.memberFrom name bound t visited).Stays K fun r => ∀ u ∈ r.1, u.ResolvedOver K := by
  induction bound generalizing t visited with
  | zero => trivial
  | succ bound ih =>
    unfold Heap.memberFrom
    cases hnext : s.heap.passage? t with
    | some next =>
      simp only
      split
      · exact stays_ok (by simp)
      · exact (stays_passage wired ht hnext).bind fun u hu => ih hu _
    | none =>
      cases t with
      | record m fields =>
        refine stays_ok fun u hu => ?_
        simp only [Field.find?, Option.mem_def, Option.map_eq_some_iff] at hu
        obtain ⟨f, hf, rfl⟩ := hu
        exact ht.part (List.mem_map_of_mem (List.mem_of_find?_eq_some hf))
      | delegation m base targets =>
        exact stays_firstHit (fun u hu visited => ih (ht.part hu) visited) visited
      | _ => exact stays_ok (by simp)

lemma stays_member? (wired : Wired registry K s) (bound : Nat) {t : TypeExpr}
    (ht : t.ResolvedOver K) (name : String) :
    (s.heap.member? bound t name).Stays K fun r => ∀ u ∈ r, u.ResolvedOver K :=
  (stays_memberFrom wired name bound ht []).bind fun _ hr => stays_ok hr

lemma free_allHits {search : TypeExpr → Visited → Query (List String × Visited)}
    {ts : List TypeExpr} (h : ∀ t ∈ ts, ∀ visited, (search t visited).Free K)
    (found : List String) (visited : Visited) : (allHits search ts found visited).Free K := by
  induction ts generalizing found visited with
  | nil => trivial
  | cons t ts ih =>
    exact (h t (by simp) visited).bind fun r => ih (fun t ht => h t (by simp [ht])) _ _

lemma free_membersFrom (wired : Wired registry K s) (bound : Nat) {t : TypeExpr}
    (ht : t.ResolvedOver K) (visited : Visited) : (s.heap.membersFrom bound t visited).Free K := by
  induction bound generalizing t visited with
  | zero => trivial
  | succ bound ih =>
    unfold Heap.membersFrom
    cases hnext : s.heap.passage? t with
    | some next =>
      simp only
      split
      · trivial
      · exact (stays_passage wired ht hnext).bind fun u hu => ih hu _
    | none =>
      cases t with
      | delegation m base targets =>
        exact free_allHits (fun u hu visited => ih (ht.part hu) visited) [] visited
      | _ => trivial

lemma free_members (wired : Wired registry K s) (bound : Nat) {t : TypeExpr}
    (ht : t.ResolvedOver K) : (s.heap.members bound t).Free K :=
  (free_membersFrom wired bound ht []).bind fun _ => stays_ok trivial

/-! ## Intervals -/

/-- Collecting intervals demands nothing. -/
lemma free_spansFrom (h : Heap) (bound : Nat) (t : TypeExpr) (seen : List TypeExpr) :
    (h.spansFrom bound t seen).Free K := by
  induction bound generalizing t seen with
  | zero => trivial
  | succ bound ih =>
    unfold Heap.spansFrom
    split
    · trivial
    · cases t with
      | named m name args => exact ih _ _
      | union m left right => exact (ih _ _).bind fun _ => (ih _ _).bind fun _ => trivial
      | _ => trivial

lemma free_spans (h : Heap) (bound : Nat) (t : TypeExpr) : (h.spans bound t).Free K :=
  (free_spansFrom h bound t []).bind fun _ => trivial

lemma free_covers (h : Heap) (bound : Nat) (low high : Numeral) (t : TypeExpr) :
    (h.covers bound low high t).Free K :=
  (free_spans h bound t).bind fun _ => free_ofArithmetic _

/-! ## Membership -/

/-- Bounds that all satisfy a condition. -/
def Bounds.All (P : TypeExpr → Prop) (bounds : Bounds) : Prop :=
  ∀ p ∈ bounds, P p.2

section Bounds

variable {P : TypeExpr → Prop} {bounds : Bounds}

lemma Bounds.all_nil : Bounds.All P [] := by
  simp [Bounds.All]

lemma Bounds.All.without (h : bounds.All P) (v : Variable) : (bounds.without v).All P :=
  fun p hp => h p (List.mem_of_mem_filter hp)

lemma Bounds.All.bind (h : bounds.All P) {constraint : TypeExpr} (hc : P constraint)
    (binders : List Binder) : (bounds.bind constraint binders).All P := by
  unfold Bounds.bind
  induction binders generalizing bounds with
  | nil => exact h
  | cons b binders ih => exact ih (List.forall_mem_cons.2 ⟨hc, h.without b.var⟩)

lemma Bounds.All.find? (h : bounds.All P) {v : Variable} {bound : TypeExpr}
    (hv : bounds.find? v = some bound) : P bound := by
  simp only [Bounds.find?, Option.map_eq_some_iff] at hv
  obtain ⟨p, hp, rfl⟩ := hv
  exact h p (List.mem_of_find?_eq_some hp)

end Bounds

/-- Bounds that are resolved types. -/
abbrev Bounds.Over (K : Nodes) (bounds : Bounds) : Prop :=
  bounds.All (ResolvedOver K)

lemma free_holdsFields {holds : Value → TypeExpr → Query Bool} {fields : List (Field TypeExpr)}
    (h : ∀ v, ∀ f ∈ fields, (holds v f.type).Free K) (entries : List (Field Value)) :
    (Matcher.holdsFields holds entries fields).Free K := by
  refine free_allM fun f hf => ?_
  cases Field.find? entries f.name with
  | none => trivial
  | some v => exact h v f hf

lemma free_holdsRecord (m : Matcher) {holds : Value → TypeExpr → Query Bool}
    {fields : List (Field TypeExpr)} (h : ∀ v, ∀ f ∈ fields, (holds v f.type).Free K) (v : Value) :
    (m.holdsRecord holds v fields).Free K := by
  unfold Matcher.holdsRecord
  split
  · split
    · trivial
    · exact free_holdsFields h _
  · split
    · dsimp only
      split
      · trivial
      · exact free_holdsFields h _
    · trivial

lemma mem_of_receiving? {inputs : List (Parameter TypeExpr)} {i : Nat} {p : Parameter TypeExpr}
    (h : Parameter.receiving? inputs i = some p) : p ∈ inputs := by
  unfold Parameter.receiving? at h
  split at h
  · exact List.mem_of_getElem? h
  · split at h
    · exact List.mem_of_getLast? h
    · cases h

lemma free_holdsFunction {holds : Value → TypeExpr → Query Bool}
    {inputs : List (Parameter TypeExpr)} (h : ∀ v, ∀ p ∈ inputs, (holds v p.type).Free K)
    (v : Value) : (Matcher.holdsFunction holds v inputs).Free K := by
  cases v with
  | call arguments =>
    simp only [Matcher.holdsFunction]
    split
    · refine free_allM fun x _ => ?_
      cases hp : Parameter.receiving? inputs x.2 with
      | none => trivial
      | some p => exact h x.1 p (mem_of_receiving? hp)
    · trivial
  | callable slots => cases slots <;> trivial
  | _ => trivial

lemma free_holdsTagged {holds : Value → TypeExpr → Query Bool} {tags : List (Tag TypeExpr)}
    (h : ∀ v, ∀ g ∈ tags, ∀ t ∈ g.fields, (holds v t).Free K) (v : Value) :
    (Matcher.holdsTagged holds v tags).Free K := by
  unfold Matcher.holdsTagged
  split
  · rename_i tag fields _
    cases hg : Tag.find? tags tag with
    | none => trivial
    | some g =>
      dsimp only
      split
      · exact free_allM fun x hx =>
          h x.1 g (List.mem_of_find?_eq_some hg) x.2 (List.of_mem_zip hx).2
      · trivial
  · trivial

/-- Whether a value inhabits a type only depends on nodes within reach of the type. -/
lemma free_contains (wired : Wired registry K s) (openRecords : Bool) (depth : Nat) (v : Value)
    {t : TypeExpr} (ht : t.ResolvedOver K) {bounds : Bounds} (hb : bounds.Over K) :
    ((Matcher.mk s.heap openRecords).contains depth v t bounds).Free K := by
  induction depth generalizing v t bounds with
  | zero => trivial
  | succ depth ih =>
    unfold Matcher.contains
    cases t with
    | named | deferred => exact (stays_reveal wired ht).bind fun u hu => ih v hu hb
    | number n =>
      cases v <;> cases n <;> simp only [Matcher.holdsNumeral] <;> first
        | trivial
        | (split <;> first | trivial | exact free_ofArithmetic _)
    | interval m low high =>
      cases v <;> simp only [Matcher.holdsInterval] <;> first
        | trivial
        | (split <;> first | trivial | exact free_ofArithmetic _)
    | unit => cases v <;> trivial
    | primitive => cases v <;> trivial
    | tuple m items =>
      dsimp only
      split
      · split
        · exact free_allM fun x hx => ih x.1 (ht.part (List.of_mem_zip hx).2) hb
        · trivial
      · trivial
    | list m members =>
      dsimp only
      split
      · exact free_allM fun v _ => free_anyM fun t h => ih v (ht.part h) hb
      · trivial
    | record m fields =>
      exact free_holdsRecord _ (fun v f hf => ih v (ht.part (List.mem_map_of_mem hf)) hb) v
    | function m inputs outputs =>
      exact free_holdsFunction (fun v p hp => ih v
        (ht.part (List.mem_append_left _ (List.mem_map_of_mem hp))) hb) v
    | tagged m tags =>
      exact free_holdsTagged (fun v g hg t h => ih v
        (ht.part (List.mem_flatMap.2 ⟨g, hg, h⟩)) hb) v
    | union m left right =>
      exact free_ite (ih v (ht.part (by simp [parts])) hb) trivial
        (ih v (ht.part (by simp [parts])) hb)
    | complement m left right =>
      exact free_ite (ih v (ht.part (by simp [parts])) hb)
        ((ih v (ht.part (by simp [parts])) hb).bind fun _ => trivial) trivial
    | delegation m base targets => exact ih v (ht.part (by simp [parts])) hb
    | predicate m constraint body listed =>
      exact ih v (ht.part (by simp [parts])) (hb.bind (ht.part (by simp [parts])) _)
    | typeVariable m x =>
      dsimp only
      cases hx : bounds.find? x with
      | none => trivial
      | some bound => exact ih v (hb.find? hx) (hb.without x)
    | reference => exact ht.self.elim

/-! ## Subtyping and overlap -/

/-- Whether a type is taken apart before it is compared as a structure. -/
def TypeExpr.isTakenApart : TypeExpr → Bool
  | union .. | complement .. | predicate .. | delegation .. => true
  | _ => false

/-- The relations that a rule appeals to stay within reach. -/
structure Appeal.Free (K : Nodes) (appeal : Appeal) : Prop where
  subtype : ∀ {left right a b}, Bounds.Over K left → Bounds.Over K right → a.ResolvedOver K →
    b.ResolvedOver K → (appeal.subtype left right a b).Free K
  overlap : ∀ {a b}, a.ResolvedOver K → b.ResolvedOver K → (appeal.overlap a b).Free K

lemma free_pairwise {r : TypeExpr → TypeExpr → Query Bool} {xs ys : List TypeExpr}
    (h : ∀ x ∈ xs, ∀ y ∈ ys, (r x y).Free K) : (Matcher.pairwise r xs ys).Free K := by
  unfold Matcher.pairwise
  split
  · exact free_allM fun p hp => h p.1 (List.of_mem_zip hp).1 p.2 (List.of_mem_zip hp).2
  · trivial

lemma free_eachToSome {r : TypeExpr → TypeExpr → Query Bool} {xs ys : List TypeExpr}
    (h : ∀ x ∈ xs, ∀ y ∈ ys, (r x y).Free K) : (Matcher.eachToSome r xs ys).Free K :=
  free_allM fun x hx => free_anyM fun y hy => h x hx y hy

lemma free_inputsRule {sub : TypeExpr → TypeExpr → Query Bool}
    {inputs inputs' : List (Parameter TypeExpr)}
    (h : ∀ q ∈ inputs', ∀ p ∈ inputs, (sub q.type p.type).Free K) (indices : List Nat) :
    (Matcher.inputsRule sub inputs inputs' indices).Free K := by
  induction indices with
  | nil => trivial
  | cons i indices ih =>
    unfold Matcher.inputsRule
    cases hq : Parameter.receiving? inputs' i with
    | none => trivial
    | some q =>
      cases hp : Parameter.receiving? inputs i with
      | none => trivial
      | some p => exact free_ite (h q (mem_of_receiving? hq) p (mem_of_receiving? hp)) ih trivial

lemma mem_types_of_find? {fields : List (Field TypeExpr)} {name : String} {t : TypeExpr}
    (h : Field.find? fields name = some t) : t ∈ fields.map (·.type) := by
  simp only [Field.find?, Option.map_eq_some_iff] at h
  obtain ⟨f, hf, rfl⟩ := h
  exact List.mem_map_of_mem (List.mem_of_find?_eq_some hf)

lemma free_numeralRule (x : Numeral) (b : TypeExpr) : (Matcher.numeralRule x b).Free K := by
  cases b <;> simp only [Matcher.numeralRule] <;> first
    | trivial
    | (split <;> first | trivial | exact free_ofArithmetic _)

section Structure

variable {sub : TypeExpr → TypeExpr → Query Bool}
  (hsub : ∀ {x y}, x.ResolvedOver K → y.ResolvedOver K → (sub x y).Free K)
include hsub

lemma free_recordRule (m : Matcher) {fields fields' : List (Field TypeExpr)}
    (hf : ∀ t ∈ fields.map (·.type), t.ResolvedOver K)
    (hf' : ∀ t ∈ fields'.map (·.type), t.ResolvedOver K) :
    (m.recordRule sub fields fields').Free K := by
  unfold Matcher.recordRule
  split
  · trivial
  · refine free_allM fun f hmem => ?_
    cases hx : Field.find? fields f.name with
    | none => trivial
    | some x => exact hsub (hf x (mem_types_of_find? hx)) (hf' f.type (List.mem_map_of_mem hmem))

lemma free_taggedRule {tags tags' : List (Tag TypeExpr)}
    (hg : ∀ t ∈ tags.flatMap (·.fields), t.ResolvedOver K)
    (hg' : ∀ t ∈ tags'.flatMap (·.fields), t.ResolvedOver K) :
    (Matcher.taggedRule sub tags tags').Free K := by
  refine free_allM fun g hmem => ?_
  cases hfind : Tag.find? tags' g.name with
  | none => trivial
  | some g' =>
    exact free_pairwise fun x hx y hy => hsub (hg x (List.mem_flatMap.2 ⟨g, hmem, hx⟩))
      (hg' y (List.mem_flatMap.2 ⟨g', List.mem_of_find?_eq_some hfind, hy⟩))

lemma free_functionRule {inputs inputs' : List (Parameter TypeExpr)}
    {outputs outputs' : List TypeExpr} (hi : ∀ t ∈ inputs.map (·.type), t.ResolvedOver K)
    (hi' : ∀ t ∈ inputs'.map (·.type), t.ResolvedOver K) (ho : ∀ t ∈ outputs, t.ResolvedOver K)
    (ho' : ∀ t ∈ outputs', t.ResolvedOver K) :
    (Matcher.functionRule sub inputs inputs' outputs outputs').Free K := by
  unfold Matcher.functionRule
  split
  · trivial
  · refine free_ite (free_inputsRule (fun q hq p hp => ?_) _)
      (free_pairwise fun x hx y hy => hsub (ho x hx) (ho' y hy)) trivial
    exact hsub (hi' q.type (List.mem_map_of_mem hq)) (hi p.type (List.mem_map_of_mem hp))

lemma free_structureRule (m : Matcher) {a b : TypeExpr} (ha : a.ResolvedOver K)
    (hb : b.ResolvedOver K) (plain : a.isReferring = false) (whole : a.isTakenApart = false) :
    (m.structureRule sub a b).Free K := by
  have hpa : ∀ t ∈ a.parts, t.ResolvedOver K := fun t ht => ha.part ht
  have hpb : ∀ t ∈ b.parts, t.ResolvedOver K := fun t ht => hb.part ht
  cases a with
  | number x => exact free_numeralRule x b
  | interval => cases b <;> first | trivial | exact free_ofArithmetic _
  | unit | primitive => cases b <;> trivial
  | tuple m items =>
    cases b with
    | tuple => exact free_pairwise fun x hx y hy => hsub (hpa x hx) (hpb y hy)
    | list => exact free_eachToSome fun x hx y hy => hsub (hpa x hx) (hpb y hy)
    | _ => trivial
  | list m members =>
    cases b with
    | list => exact free_eachToSome fun x hx y hy => hsub (hpa x hx) (hpb y hy)
    | _ => trivial
  | record =>
    cases b with
    | record => exact free_recordRule hsub _ hpa hpb
    | _ => trivial
  | function =>
    cases b with
    | function =>
      simp only [parts, List.forall_mem_append] at hpa hpb
      exact free_functionRule hsub hpa.1 hpb.1 hpa.2 hpb.2
    | _ => trivial
  | tagged =>
    cases b with
    | tagged => exact free_taggedRule hsub hpa hpb
    | _ => trivial
  | typeVariable => trivial
  | reference => exact ha.self.elim
  | named | deferred => cases plain
  | union | complement | predicate | delegation => cases whole

lemma free_overlapStructure (m : Matcher) {appeal : Appeal} (happeal : appeal.Free K)
    {a b : TypeExpr} (ha : a.ResolvedOver K) (hb : b.ResolvedOver K)
    (plain : a.isReferring = false)
    (whole : Matcher.overlapRule? appeal sub a b = none) :
    (m.overlapStructure appeal sub a b).Free K := by
  have hpa : ∀ t ∈ a.parts, t.ResolvedOver K := fun t ht => ha.part ht
  have hpb : ∀ t ∈ b.parts, t.ResolvedOver K := fun t ht => hb.part ht
  have none : Bounds.Over K [] := Bounds.all_nil
  have numeric : (Matcher.numericOverlap appeal a b).Free K := by
    unfold Matcher.numericOverlap
    split
    · exact free_ofArithmetic _
    · exact happeal.subtype none none hb ha
    · exact happeal.subtype none none ha hb
  cases a with
  | number | interval =>
    simp only [Matcher.overlapStructure]
    split
    · exact numeric
    · trivial
  | tuple m items =>
    cases b with
    | tuple => exact free_pairwise fun x hx y hy => hsub (hpa x hx) (hpb y hy)
    | list => exact free_eachToSome fun x hx y hy => hsub (hpa x hx) (hpb y hy)
    | _ => trivial
  | list m members =>
    cases b with
    | tuple => exact free_eachToSome fun x hx y hy => hsub (hpb x hx) (hpa y hy)
    | _ => trivial
  | record m fields =>
    cases b with
    | record m' fields' =>
      simp only [Matcher.overlapStructure]
      split
      · trivial
      · refine free_allM fun f hf => ?_
        cases hy : Field.find? fields' f.name with
        | none => trivial
        | some y => exact hsub (hpa f.type (List.mem_map_of_mem hf)) (hpb y (mem_types_of_find? hy))
    | _ => trivial
  | tagged m tags =>
    cases b with
    | tagged m' tags' =>
      refine free_anyM fun g hg => ?_
      cases hfind : Tag.find? tags' g.name with
      | none => trivial
      | some g' =>
        exact free_pairwise fun x hx y hy => hsub (hpa x (List.mem_flatMap.2 ⟨g, hg, hx⟩))
          (hpb y (List.mem_flatMap.2 ⟨g', List.mem_of_find?_eq_some hfind, hy⟩))
    | _ => trivial
  | function | unit | primitive => cases b <;> trivial
  | reference => exact ha.self.elim
  | named | deferred => cases plain
  | union | complement | predicate | delegation | typeVariable =>
    simp [Matcher.overlapRule?, isAny] at whole

end Structure

lemma free_subjectRule? {appeal : Appeal} (happeal : appeal.Free K) {left right : Bounds}
    (hl : left.Over K) (hr : right.Over K) {a b : TypeExpr} (ha : a.ResolvedOver K)
    (hb : b.ResolvedOver K) {q : Query Bool}
    (hq : Matcher.subjectRule? appeal left right a b = some q) : q.Free K := by
  have hpa : ∀ t ∈ a.parts, t.ResolvedOver K := fun t ht => ha.part ht
  have hpb : ∀ t ∈ b.parts, t.ResolvedOver K := fun t ht => hb.part ht
  cases a with
  | union m x y =>
    simp only [parts, List.forall_mem_cons] at hpa
    cases hq
    exact free_ite (happeal.subtype hl hr hpa.1 hb) (happeal.subtype hl hr hpa.2.1 hb) trivial
  | predicate m constraint body listed =>
    simp only [parts, List.forall_mem_cons] at hpa
    cases hq
    exact happeal.subtype (hl.bind hpa.1 _) hr hpa.2.1 hb
  | typeVariable m v =>
    simp only [Matcher.subjectRule?, Option.map_eq_some_iff] at hq
    obtain ⟨bound, hbound, rfl⟩ := hq
    exact happeal.subtype (hl.without v) hr (hl.find? hbound) hb
  | complement m x y =>
    simp only [parts, List.forall_mem_cons] at hpa
    cases hq
    refine free_ite (happeal.subtype hl hr hpa.1 hb) trivial ?_
    cases b with
    | complement m' x' y' =>
      simp only [parts, List.forall_mem_cons] at hpb
      exact free_ite (happeal.subtype hl hr hpa.1 hpb.1)
        (free_ite (happeal.subtype hl hr hpb.2.1 hpa.2.1) trivial
          ((happeal.overlap hpa.1 hpb.2.1).bind fun _ => trivial)) trivial
    | _ => trivial
  | _ => cases hq

lemma free_memberRule (wired : Wired registry K s) (openRecords : Bool) (depth : Nat)
    {sub : TypeExpr → TypeExpr → Query Bool}
    (hsub : ∀ {x y}, x.ResolvedOver K → y.ResolvedOver K → (sub x y).Free K) {a b : TypeExpr}
    (ha : a.ResolvedOver K) (hb : b.ResolvedOver K) (name : String) :
    ((Matcher.mk s.heap openRecords).memberRule depth sub a b name).Free K := by
  refine (stays_member? wired depth ha name).bind fun mine hmine =>
    (stays_member? wired depth hb name).bind fun theirs htheirs => ?_
  cases mine with
  | none => trivial
  | some x =>
    cases theirs with
    | none => trivial
    | some y => exact hsub (hmine x rfl) (htheirs y rfl)

lemma free_delegationRule (wired : Wired registry K s) (openRecords : Bool) (depth : Nat)
    {sub : TypeExpr → TypeExpr → Query Bool}
    (hsub : ∀ {x y}, x.ResolvedOver K → y.ResolvedOver K → (sub x y).Free K) {a base : TypeExpr}
    (ha : a.ResolvedOver K) {fields : List (Field TypeExpr)}
    (hf : ∀ t ∈ fields.map (·.type), t.ResolvedOver K) :
    ((Matcher.mk s.heap openRecords).delegationRule depth sub a base fields).Free K := by
  refine free_unless _ (free_allM fun f hmem =>
    (stays_member? wired depth ha f.name).bind fun mine hmine => ?_)
  cases mine with
  | none => trivial
  | some x => exact hsub (hmine x rfl) (hf f.type (List.mem_map_of_mem hmem))

lemma free_objectRule? (wired : Wired registry K s) (openRecords : Bool) (depth : Nat)
    {appeal : Appeal} (happeal : appeal.Free K) {left right : Bounds} (hl : left.Over K)
    (hr : right.Over K) {a b : TypeExpr} (ha : a.ResolvedOver K) (hb : b.ResolvedOver K)
    {q : Query Bool}
    (hq : (Matcher.mk s.heap openRecords).objectRule? depth appeal left right a b = some q) :
    q.Free K := by
  have hpa : ∀ t ∈ a.parts, t.ResolvedOver K := fun t ht => ha.part ht
  have hpb : ∀ t ∈ b.parts, t.ResolvedOver K := fun t ht => hb.part ht
  have sub : ∀ {x y}, x.ResolvedOver K → y.ResolvedOver K →
      (appeal.subtype left right x y).Free K := happeal.subtype hl hr
  cases b with
  | predicate m constraint body listed =>
    simp only [parts, List.forall_mem_cons] at hpb
    cases hq
    exact happeal.subtype hl (hr.bind hpb.1 _) ha hpb.2.1
  | typeVariable m v =>
    simp only [Matcher.objectRule?] at hq
    cases hv : right.find? v with
    | none =>
      rw [hv] at hq
      cases hq
      trivial
    | some bound =>
      rw [hv] at hq
      cases hq
      exact happeal.subtype hl (hr.without v) ha (hr.find? hv)
  | union m x y =>
    simp only [parts, List.forall_mem_cons] at hpb
    cases hq
    refine free_ite (sub ha hpb.1) trivial (free_ite (sub ha hpb.2.1) trivial ?_)
    cases a <;> first | trivial | exact free_covers _ _ _ _ _
  | complement m x y =>
    simp only [parts, List.forall_mem_cons] at hpb
    cases hq
    exact free_ite (sub ha hpb.1) ((happeal.overlap ha hpb.2.1).bind fun _ => trivial) trivial
  | delegation m base targets =>
    simp only [parts, List.forall_mem_cons] at hpb
    cases hq
    exact free_ite (sub ha hpb.1) ((free_members wired depth hb).bind fun names =>
      free_allM fun name _ => free_memberRule wired openRecords depth sub ha hb name) trivial
  | record m' fields =>
    cases a with
    | delegation m base targets =>
      cases hq
      exact free_delegationRule wired openRecords depth sub ha hpb
    | _ => cases hq
  | _ =>
    -- an object that is not taken apart itself
    cases a with
    | delegation m base targets =>
      cases hq
      exact sub (hpa base (by simp [parts])) hb
    | _ => cases hq

/-- What no rule takes apart is compared as a structure. -/
lemma isTakenApart_of_rules {m : Matcher} {depth : Nat} {appeal : Appeal} {left right : Bounds}
    {a b : TypeExpr} (subject : Matcher.subjectRule? appeal left right a b = none)
    (object : m.objectRule? depth appeal left right a b = none) : a.isTakenApart = false := by
  cases a with
  | union | complement | predicate => cases subject
  | delegation =>
    cases b with
    | typeVariable m v =>
      simp only [Matcher.objectRule?] at object
      split at object <;> cases object
    | _ => cases object
  | _ => rfl

lemma free_overlapRule? {appeal : Appeal} (happeal : appeal.Free K)
    {rec : TypeExpr → TypeExpr → Query Bool}
    (hrec : ∀ {x y}, x.ResolvedOver K → y.ResolvedOver K → (rec x y).Free K) {x y : TypeExpr}
    (hx : x.ResolvedOver K) (hy : y.ResolvedOver K) {q : Query Bool}
    (hq : Matcher.overlapRule? appeal rec x y = some q) : q.Free K := by
  have hp : ∀ t ∈ x.parts, t.ResolvedOver K := fun t ht => hx.part ht
  have none : Bounds.Over K [] := Bounds.all_nil
  unfold Matcher.overlapRule? at hq
  split at hq
  · cases hq
    trivial
  · cases x with
    | union m l r =>
      simp only [parts, List.forall_mem_cons] at hp
      cases hq
      exact free_ite (hrec hp.1 hy) trivial (hrec hp.2.1 hy)
    | complement m l r =>
      simp only [parts, List.forall_mem_cons] at hp
      cases hq
      exact free_ite (hrec hp.1 hy) ((happeal.subtype none none hy hp.2.1).bind fun _ => trivial)
        trivial
    | predicate m constraint body listed =>
      cases hq
      exact hrec (hp body (by simp [parts])) hy
    | typeVariable =>
      cases hq
      trivial
    | delegation m base targets =>
      cases hq
      exact hrec (hp base (by simp [parts])) hy
    | _ => cases hq

/-- Subtyping and overlap only depend on nodes within reach of the two types. -/
lemma free_relations (wired : Wired registry K s) (openRecords : Bool) (depth : Nat) :
    (∀ (assumed : Assumed) {left right : Bounds} {a b : TypeExpr}, left.Over K → right.Over K →
      a.ResolvedOver K → b.ResolvedOver K →
        ((Matcher.mk s.heap openRecords).subtype depth assumed left right a b).Free K) ∧
      ∀ (assumed : Assumed) {a b : TypeExpr}, a.ResolvedOver K → b.ResolvedOver K →
        ((Matcher.mk s.heap openRecords).overlap depth assumed a b).Free K := by
  induction depth with
  | zero => exact ⟨fun _ _ _ _ _ _ _ _ _ => trivial, fun _ _ _ _ _ => trivial⟩
  | succ depth ih =>
    constructor
    · intro assumed left right a b hl hr ha hb
      unfold Matcher.subtype
      split
      · split
        · trivial
        · exact (stays_reveal wired ha).bind fun x hx => (stays_reveal wired hb).bind
            fun y hy => ih.1 _ hl hr hx hy
      · split
        · trivial
        · have happeal : Appeal.Free K
              ⟨(Matcher.mk s.heap openRecords).subtype depth assumed,
                (Matcher.mk s.heap openRecords).overlap depth []⟩ :=
            ⟨ih.1 assumed, ih.2 []⟩
          dsimp only
          split
          · exact free_subjectRule? happeal hl hr ha hb ‹_›
          · split
            · exact free_objectRule? wired openRecords depth happeal hl hr ha hb ‹_›
            · exact free_structureRule (happeal.subtype hl hr) _ ha hb
                (by simp_all) (isTakenApart_of_rules ‹_› ‹_›)
    · intro assumed a b ha hb
      unfold Matcher.overlap
      split
      · split
        · trivial
        · exact (stays_reveal wired ha).bind fun x hx => (stays_reveal wired hb).bind
            fun y hy => ih.2 _ hx hy
      · have happeal : Appeal.Free K
            ⟨(Matcher.mk s.heap openRecords).subtype depth [],
              (Matcher.mk s.heap openRecords).overlap depth []⟩ :=
          ⟨ih.1 [], ih.2 []⟩
        dsimp only
        split
        · exact free_overlapRule? happeal (ih.2 assumed) ha hb ‹_›
        · split
          · exact free_overlapRule? happeal (ih.2 assumed) hb ha ‹_›
          · exact free_overlapStructure (ih.2 assumed) _ happeal ha hb (by simp_all) ‹_›

lemma free_isSubtype (wired : Wired registry K s) (openRecords : Bool) (depth : Nat)
    {a b : TypeExpr} (ha : a.ResolvedOver K) (hb : b.ResolvedOver K) :
    ((Matcher.mk s.heap openRecords).isSubtype depth a b).Free K :=
  (free_relations wired openRecords depth).1 [] Bounds.all_nil Bounds.all_nil
    ha hb

lemma free_overlaps (wired : Wired registry K s) (openRecords : Bool) (depth : Nat)
    {a b : TypeExpr} (ha : a.ResolvedOver K) (hb : b.ResolvedOver K) :
    ((Matcher.mk s.heap openRecords).overlaps depth a b).Free K :=
  (free_relations wired openRecords depth).2 [] ha hb

end TypeNotation
