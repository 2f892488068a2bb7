import TypeNotation.Proofs.Relation.Bounded

/-!
# What a type holds when every variable has one bound

Where every variable has one bound, a value inhabits a type or not whatever the bounds are under
which the type is read: a variable that some predicate bounds holds what the bound holds, and any
other variable holds everything.  `InhabitsIn` says so with the number of steps that it takes to
find out; steps are what the induction over subtyping is on.

Membership agrees with it, wherever the bounds cover the type.
-/

namespace TypeNotation

open TypeExpr Query

namespace Matcher

/-- A value inhabits a type, as is seen within so many steps, if variables have the bounds that the
predicates of a set put on them. -/
def InhabitsIn (m : Matcher) (K : TypeExpr → Prop) : Nat → Value → TypeExpr → Prop
  | 0, _, _ => False
  | n + 1, v, t =>
    match t with
    | .named .. => m.InhabitsIn K n v (m.heap.unfold t)
    | .number x => holdsNumeral v x = .ok true
    | .interval _ low high => holdsInterval v low high = .ok true
    | .unit _ => v = .absent
    | .primitive _ name => (∃ s, v = .text s) ∨ name = "any"
    | .tuple _ items =>
      ∃ vs, v.asSequence? = some vs ∧ List.Forall₂ (m.InhabitsIn K n) vs items
    | .list _ members =>
      ∃ vs, v.asSequence? = some vs ∧ ∀ w ∈ vs, ∃ u ∈ members, m.InhabitsIn K n w u
    | .record _ fields =>
      ∃ entries, v.entries? = some entries ∧ m.Admits v fields ∧
        ∀ f ∈ fields, ∃ w, Field.find? entries f.name = some w ∧ m.InhabitsIn K n w f.type
    | .tagged _ tags =>
      ∃ tag vs g, v.asTagged? = some (tag, vs) ∧ Tag.find? tags tag = some g ∧
        List.Forall₂ (m.InhabitsIn K n) vs g.fields
    | .union _ left right => m.InhabitsIn K n v left ∨ m.InhabitsIn K n v right
    | .predicate _ _ body _ => m.InhabitsIn K n v body
    | .typeVariable _ x =>
      (∃ c, Heap.BoundBy K x c ∧ m.InhabitsIn K n v c) ∨ ∀ c, ¬ Heap.BoundBy K x c
    | .function .. | .delegation .. | .complement .. | .reference .. | .deferred .. => False

/-- A value inhabits a type, if variables have the bounds that the predicates of a set put on
them. -/
def Inhabits (m : Matcher) (K : TypeExpr → Prop) (v : Value) (t : TypeExpr) : Prop :=
  ∃ n, m.InhabitsIn K n v t

variable {m : Matcher} {K : TypeExpr → Prop} {v w : Value} {t u : TypeExpr} {bounds : Bounds}
  {n n' : Nat} {mk : Mark}

/-! ## Steps -/

lemma InhabitsIn.succ (h : m.InhabitsIn K n v t) : m.InhabitsIn K (n + 1) v t := by
  induction n generalizing v t with
  | zero => exact h.elim
  | succ n ih =>
    cases t with
    | named => exact ih h
    | tuple mk items =>
      obtain ⟨vs, hvs, hall⟩ := h
      exact ⟨vs, hvs, hall.imp fun _ _ => ih⟩
    | list mk members =>
      obtain ⟨vs, hvs, hall⟩ := h
      refine ⟨vs, hvs, fun w hw => ?_⟩
      obtain ⟨u, hu, hwu⟩ := hall w hw
      exact ⟨u, hu, ih hwu⟩
    | record mk fields =>
      obtain ⟨entries, hentries, hadmits, hall⟩ := h
      refine ⟨entries, hentries, hadmits, fun f hf => ?_⟩
      obtain ⟨w, hw, hwf⟩ := hall f hf
      exact ⟨w, hw, ih hwf⟩
    | tagged mk tags =>
      obtain ⟨tag, vs, g, hvs, hg, hall⟩ := h
      exact ⟨tag, vs, g, hvs, hg, hall.imp fun _ _ => ih⟩
    | union mk left right => exact h.imp ih ih
    | predicate mk c body listed => exact ih h
    | typeVariable mk x =>
      refine h.imp_left ?_
      rintro ⟨c, hc, hin⟩
      exact ⟨c, hc, ih hin⟩
    | number | interval | unit | primitive => exact h
    | function | delegation | complement | reference | deferred => exact h.elim

lemma InhabitsIn.mono (h : m.InhabitsIn K n v t) (hn : n ≤ n') : m.InhabitsIn K n' v t := by
  induction hn with
  | refl => exact h
  | step _ ih => exact ih.succ

/-- Finitely many facts that are each seen in some number of steps are seen in one number of
steps. -/
lemma exists_steps {α : Type} {P : Nat → α → Prop} (mono : ∀ {n n' x}, P n x → n ≤ n' → P n' x)
    {xs : List α} (h : ∀ x ∈ xs, ∃ n, P n x) : ∃ n, ∀ x ∈ xs, P n x := by
  induction xs with
  | nil => exact ⟨0, by simp⟩
  | cons x xs ih =>
    rw [List.forall_mem_cons] at h
    obtain ⟨n, hn⟩ := h.1
    obtain ⟨n', hn'⟩ := ih h.2
    refine ⟨max n n', List.forall_mem_cons.2 ⟨mono hn (Nat.le_max_left _ _), fun y hy => ?_⟩⟩
    exact mono (hn' y hy) (Nat.le_max_right _ _)

lemma exists_steps_forall₂ {vs : List Value} {items : List TypeExpr}
    (h : List.Forall₂ (m.Inhabits K) vs items) :
    ∃ n, List.Forall₂ (m.InhabitsIn K n) vs items := by
  obtain ⟨hlength, hzip⟩ := List.forall₂_iff_zip.1 h
  have inside : ∀ p ∈ vs.zip items, ∃ n, m.InhabitsIn K n p.1 p.2 := fun p hp => hzip hp
  obtain ⟨n, hn⟩ := exists_steps (P := fun n (p : Value × TypeExpr) => m.InhabitsIn K n p.1 p.2)
    (fun h hle => h.mono hle) inside
  exact ⟨n, List.forall₂_iff_zip.2 ⟨hlength, fun hp => hn _ hp⟩⟩

/-! ## Types that hold a value -/

lemma InhabitsIn.inhabits (h : m.InhabitsIn K n v t) : m.Inhabits K v t :=
  ⟨n, h⟩

lemma inhabits_tuple {items : List TypeExpr} {vs : List Value} (hvs : v.asSequence? = some vs)
    (h : List.Forall₂ (m.Inhabits K) vs items) : m.Inhabits K v (.tuple mk items) := by
  obtain ⟨n, hn⟩ := exists_steps_forall₂ h
  exact ⟨n + 1, vs, hvs, hn⟩

lemma inhabits_list {members : List TypeExpr} {vs : List Value} (hvs : v.asSequence? = some vs)
    (h : ∀ w ∈ vs, ∃ u ∈ members, m.Inhabits K w u) : m.Inhabits K v (.list mk members) := by
  have steps : ∀ w ∈ vs, ∃ n, ∃ u ∈ members, m.InhabitsIn K n w u := by
    intro w hw
    obtain ⟨u, hu, n, hn⟩ := h w hw
    exact ⟨n, u, hu, hn⟩
  obtain ⟨n, hn⟩ := exists_steps (fun ⟨u, hu, h⟩ hle => ⟨u, hu, h.mono hle⟩) steps
  exact ⟨n + 1, vs, hvs, hn⟩

lemma inhabits_record {fields : List (Field TypeExpr)} {entries : List (Field Value)}
    (hentries : v.entries? = some entries) (hadmits : m.Admits v fields)
    (h : ∀ f ∈ fields, ∃ w, Field.find? entries f.name = some w ∧ m.Inhabits K w f.type) :
    m.Inhabits K v (.record mk fields) := by
  have steps : ∀ f ∈ fields, ∃ n, ∃ w, Field.find? entries f.name = some w ∧
      m.InhabitsIn K n w f.type := by
    intro f hf
    obtain ⟨w, hw, n, hn⟩ := h f hf
    exact ⟨n, w, hw, hn⟩
  obtain ⟨n, hn⟩ := exists_steps (fun ⟨w, hw, h⟩ hle => ⟨w, hw, h.mono hle⟩) steps
  exact ⟨n + 1, entries, hentries, hadmits, hn⟩

lemma inhabits_tagged {tags : List (Tag TypeExpr)} {tag : String} {vs : List Value}
    {g : Tag TypeExpr} (hvs : v.asTagged? = some (tag, vs)) (hg : Tag.find? tags tag = some g)
    (h : List.Forall₂ (m.Inhabits K) vs g.fields) : m.Inhabits K v (.tagged mk tags) := by
  obtain ⟨n, hn⟩ := exists_steps_forall₂ h
  exact ⟨n + 1, tag, vs, g, hvs, hg, hn⟩

lemma inhabits_union {left right : TypeExpr} (h : m.Inhabits K v left ∨ m.Inhabits K v right) :
    m.Inhabits K v (.union mk left right) := by
  rcases h with ⟨n, h⟩ | ⟨n, h⟩
  · exact ⟨n + 1, .inl h⟩
  · exact ⟨n + 1, .inr h⟩

lemma inhabits_named {name : String} {args : List TypeExpr}
    (h : m.Inhabits K v (m.heap.unfold (.named mk name args))) :
    m.Inhabits K v (.named mk name args) := by
  obtain ⟨n, h⟩ := h
  exact ⟨n + 1, h⟩

lemma inhabits_predicate {c body : TypeExpr} {listed : List Binder} (h : m.Inhabits K v body) :
    m.Inhabits K v (.predicate mk c body listed) := by
  obtain ⟨n, h⟩ := h
  exact ⟨n + 1, h⟩

lemma inhabits_bound {x : Variable} {c : TypeExpr} (hc : Heap.BoundBy K x c)
    (h : m.Inhabits K v c) : m.Inhabits K v (.typeVariable mk x) := by
  obtain ⟨n, h⟩ := h
  exact ⟨n + 1, .inl ⟨c, hc, h⟩⟩

lemma inhabits_free {x : Variable} (hx : ∀ c, ¬ Heap.BoundBy K x c) :
    m.Inhabits K v (.typeVariable mk x) :=
  ⟨1, .inr hx⟩

/-! ## Equal types -/

/-- Equal types hold the same values. -/
lemma inhabitsIn_of_same (bounded : m.heap.Bounded K) (ht : K t) (hu : K u)
    (same : t.same u = true) (h : m.InhabitsIn K n v t) : m.InhabitsIn K n v u := by
  induction n generalizing v t u with
  | zero => exact h.elim
  | succ n ih =>
    have partOf (href : t.isReferring = false) {x : TypeExpr} (hx : x ∈ t.valueParts) : K x :=
      bounded.part ht href hx
    have partOf' (href : u.isReferring = false) {y : TypeExpr} (hy : y ∈ u.valueParts) : K y :=
      bounded.part hu href hy
    cases alike_iff.2 same with
    | @number x y hxy =>
      obtain ⟨p, x, rfl⟩ := bounded.number ht
      obtain ⟨q, y, rfl⟩ := bounded.number hu
      obtain ⟨z, rfl, hz⟩ := holdsNumeral_eq_true.1 h
      have hplace : x.place = y.place := by simpa [Numeral.same, Number.same] using hxy
      have hzx : z.place = x.place := by simpa [Number.same] using hz
      exact holdsNumeral_eq_true.2 ⟨z, rfl, by simp [Number.same, hzx, hplace]⟩
    | interval hl hh =>
      obtain ⟨p, q, x, y, rfl, rfl, -, -⟩ := bounded.interval ht
      obtain ⟨p', q', x', y', rfl, rfl, -, -⟩ := bounded.interval hu
      obtain ⟨z, rfl, hz⟩ := holdsInterval_eq_true.1 h
      have hx : x.place = x'.place := by simpa [Numeral.same, Number.same] using hl
      have hy : y.place = y'.place := by simpa [Numeral.same, Number.same] using hh
      exact holdsInterval_eq_true.2 ⟨z, rfl, hz.place, hx ▸ hz.low, hy ▸ hz.high⟩
    | unit | primitive => exact h
    | tuple hitems =>
      obtain ⟨vs, hvs, hall⟩ := h
      exact ⟨vs, hvs, forall₂_trans_mem hall hitems fun w _ x hx y hy hwx hxy =>
        ih (partOf rfl hx) (partOf' rfl hy) hxy hwx⟩
    | list hmembers =>
      obtain ⟨vs, hvs, hall⟩ := h
      refine ⟨vs, hvs, fun w hw => ?_⟩
      obtain ⟨x, hx, hwx⟩ := hall w hw
      obtain ⟨y, hy, hxy⟩ := exists_right_of_matchAll (rectangular_same _ _) hmembers hx
      exact ⟨y, hy, ih (partOf rfl hx) (partOf' rfl hy) hxy hwx⟩
    | @record _ _ fields fields' hfields =>
      obtain ⟨entries, hentries, hadmits, hall⟩ := h
      have hleft {g} (hg : g ∈ fields') :=
        exists_left_of_matchAll (rectangular_sameField _ _) hfields hg
      simp only [sameField, Bool.and_eq_true, decide_eq_true_eq] at hleft
      refine ⟨entries, hentries, hadmits.congr (Field.mem_names_congr hfields), fun g hg => ?_⟩
      obtain ⟨f, hf, hname, hfg⟩ := hleft hg
      obtain ⟨w, hw, hwf⟩ := hall f hf
      exact ⟨w, hname ▸ hw, ih (partOf rfl (List.mem_map_of_mem hf))
        (partOf' rfl (List.mem_map_of_mem hg)) hfg hwf⟩
    | tagged hgs =>
      obtain ⟨tag, vs, g, hvs, hg, hall⟩ := h
      obtain ⟨g', hg', hsame⟩ := Tag.find?_alike hgs hg
      refine ⟨tag, vs, g', hvs, hg', forall₂_trans_mem hall hsame fun w _ x hx y hy hwx hxy => ?_⟩
      exact ih (partOf rfl (List.mem_flatMap.2 ⟨g, List.mem_of_find?_eq_some hg, hx⟩))
        (partOf' rfl (List.mem_flatMap.2 ⟨g', List.mem_of_find?_eq_some hg', hy⟩)) hxy hwx
    | union hl hr =>
      refine h.imp (ih (partOf rfl ?_) (partOf' rfl ?_) hl)
        (ih (partOf rfl ?_) (partOf' rfl ?_) hr) <;>
        simp [valueParts, parts]
    | named => exact ih (bounded.unfold ht) (bounded.unfold hu) (bounded.unfold_same ht hu same) h
    | predicate _ hb _ =>
      exact ih (partOf rfl (by simp [valueParts, parts]))
        (partOf' rfl (by simp [valueParts, parts]))
        hb h
    | typeVariable => exact h
    | function | delegation | complement | reference | deferred => exact h.elim

/-! ## Membership -/

lemma holdsRecord_eq_of_admits {holds : Value → TypeExpr → Query Bool}
    {entries : List (Field Value)} {fields : List (Field TypeExpr)}
    (hentries : v.entries? = some entries) (hadmits : m.Admits v fields) :
    m.holdsRecord holds v fields = holdsFields holds entries fields := by
  cases v with
  | mapping =>
    obtain rfl := Option.some.inj hentries
    simp only [holdsRecord, admits_mapping.1 hadmits, Bool.false_eq_true, if_false]
  | object | tagged | call | callable | type =>
    obtain rfl := Option.some.inj hentries
    have hfits := (admits_attributes rfl).1 hadmits
    simp only [holdsRecord, Value.attributes?]
    rw [if_neg (by simpa using hfits)]
  | _ => cases hentries

lemma holdsRecord_eq_true {holds : Value → TypeExpr → Query Bool}
    {fields : List (Field TypeExpr)} :
    m.holdsRecord holds v fields = .ok true ↔
      ∃ entries, v.entries? = some entries ∧ m.Admits v fields ∧
        holdsFields holds entries fields = .ok true := by
  constructor
  · intro h
    suffices ∃ entries, v.entries? = some entries ∧ m.Admits v fields by
      obtain ⟨entries, hentries, hadmits⟩ := this
      rw [holdsRecord_eq_of_admits hentries hadmits] at h
      exact ⟨entries, hentries, hadmits, h⟩
    cases v with
    | mapping entries =>
      refine ⟨entries, rfl, admits_mapping.2 ?_⟩
      by_contra hclosed
      rw [Bool.not_eq_false] at hclosed
      simp only [holdsRecord, hclosed, if_true] at h
      cases h
    | object | tagged | call | callable | type =>
      refine ⟨_, rfl, (admits_attributes rfl).2 ?_⟩
      by_contra hclosed
      rw [Bool.not_eq_false] at hclosed
      simp only [holdsRecord, Value.attributes?, hclosed, if_true] at h
      cases h
    | _ => cases h
  · rintro ⟨entries, hentries, hadmits, h⟩
    rw [holdsRecord_eq_of_admits hentries hadmits, h]

lemma holdsFields_eq_true {holds : Value → TypeExpr → Query Bool} {entries : List (Field Value)}
    {fields : List (Field TypeExpr)} :
    holdsFields holds entries fields = .ok true ↔
      ∀ f ∈ fields, ∃ w, Field.find? entries f.name = some w ∧ holds w f.type = .ok true := by
  refine allM_eq_true.trans (forall₂_congr fun f _ => ?_)
  cases Field.find? entries f.name <;> simp

/-- What membership finds under bounds that cover a type. -/
lemma inhabitsIn_of_contains (bounded : m.heap.Bounded K) {depth : Nat} (ht : K t)
    (covers : m.heap.Covers K bounds t) (h : m.contains depth v t bounds = .ok true) :
    m.InhabitsIn K depth v t := by
  induction depth generalizing v t bounds with
  | zero => cases h
  | succ depth ih =>
    have below {w : Value} {u : TypeExpr} (href : t.isReferring = false)
        (hplain : t.isPredicate = false) (hu : u ∈ t.valueParts)
        (h : m.contains depth w u bounds = .ok true) : m.InhabitsIn K depth w u :=
      ih (bounded.part ht href hu) (covers.part href hplain hu) h
    unfold contains at h
    cases t with
    | named mk name args => exact ih (bounded.unfold ht) (covers.unfold bounded ht) h
    | number | interval => exact h
    | unit mk =>
      cases v <;> first | rfl | cases h
    | primitive mk name =>
      cases v <;> first
        | exact .inl ⟨_, rfl⟩
        | exact .inr (by simpa using h)
    | tuple mk items =>
      dsimp only at h
      cases hvs : v.asSequence? with
      | none => simp [hvs] at h
      | some vs =>
        simp only [hvs] at h
        have hall : List.Forall₂ (fun w u => m.contains depth w u bounds = .ok true) vs items :=
          allM_zip_eq_true.1 h
        exact ⟨vs, hvs, forall₂_imp_mem hall fun w _ u hu => below rfl rfl hu⟩
    | list mk members =>
      dsimp only at h
      cases hvs : v.asSequence? with
      | none => simp [hvs] at h
      | some vs =>
        simp only [hvs] at h
        refine ⟨vs, hvs, fun w hw => ?_⟩
        obtain ⟨u, hu, hwu⟩ := exists_of_anyM_eq_true (allM_eq_true.1 h w hw)
        exact ⟨u, hu, below rfl rfl hu hwu⟩
    | record mk fields =>
      obtain ⟨entries, hentries, hadmits, hall⟩ := holdsRecord_eq_true.1 h
      refine ⟨entries, hentries, hadmits, fun f hf => ?_⟩
      obtain ⟨w, hw, hwf⟩ := holdsFields_eq_true.1 hall f hf
      exact ⟨w, hw, below rfl rfl (List.mem_map_of_mem hf) hwf⟩
    | tagged mk tags =>
      simp only [holdsTagged] at h
      cases hvs : v.asTagged? with
      | none => simp [hvs] at h
      | some tagged =>
        obtain ⟨tag, vs⟩ := tagged
        simp only [hvs] at h
        cases hg : Tag.find? tags tag with
        | none => simp [hg] at h
        | some g =>
          simp only [hg, allHold, eq_comm (a := g.fields.length)] at h
          have hall : List.Forall₂ (fun w u => m.contains depth w u bounds = .ok true)
            vs g.fields :=
            allM_zip_eq_true.1 h
          refine ⟨tag, vs, g, hvs, hg, forall₂_imp_mem hall fun w _ u hu => below rfl rfl ?_⟩
          exact List.mem_flatMap.2 ⟨g, List.mem_of_find?_eq_some hg, hu⟩
    | union mk left right =>
      rcases bind_ite_eq_ok.1 h with ⟨hl, -⟩ | ⟨-, hr⟩
      · exact .inl (below rfl rfl (by simp [valueParts, parts]) hl)
      · exact .inr (below rfl rfl (by simp [valueParts, parts]) hr)
    | predicate mk c body listed =>
      exact ih (bounded.part ht rfl (by simp [valueParts, parts])) (covers.bind bounded ht) h
    | typeVariable mk x =>
      dsimp only at h
      cases hx : bounds.find? x with
      | some c =>
        simp only [hx] at h
        have hc := covers.right hx
        exact .inl ⟨c, hc, ih (bounded.constraint hc) (covers.without bounded hx) h⟩
      | none =>
        refine .inr fun c hc => ?_
        obtain ⟨c', hc'⟩ := covers.bound (.free .occurs) hc
        simp [hx] at hc'
    | function | delegation | complement | reference | deferred => cases bounded.positive ht

/-- What inhabits a type is not denied under bounds that cover the type. -/
lemma contains_ne_false_of_inhabitsIn (bounded : m.heap.Bounded K) (ht : K t)
    (covers : m.heap.Covers K bounds t) (h : m.InhabitsIn K n v t) (depth : Nat) :
    m.contains depth v t bounds ≠ .ok false := by
  induction n generalizing v t bounds depth with
  | zero => exact h.elim
  | succ n ih =>
    cases depth with
    | zero => exact fun h => by cases h
    | succ depth =>
      have below {w : Value} {u : TypeExpr} (href : t.isReferring = false)
          (hplain : t.isPredicate = false) (hu : u ∈ t.valueParts) (h : m.InhabitsIn K n w u) :
          m.contains depth w u bounds ≠ .ok false :=
        ih (bounded.part ht href hu) (covers.part href hplain hu) h depth
      intro hfalse
      unfold contains at hfalse
      cases t with
      | named mk name args =>
        exact ih (bounded.unfold ht) (covers.unfold bounded ht) h depth hfalse
      | number x =>
        have h : holdsNumeral v x = .ok true := h
        simp [h] at hfalse
      | interval mk low high =>
        have h : holdsInterval v low high = .ok true := h
        simp [h] at hfalse
      | unit mk =>
        obtain rfl : v = .absent := h
        simp at hfalse
      | primitive mk name =>
        rcases h with ⟨s, rfl⟩ | rfl
        · simp at hfalse
        · cases v <;> simp at hfalse
      | tuple mk items =>
        obtain ⟨vs, hvs, hall⟩ := h
        simp only [hvs] at hfalse
        refine not_forall₂_of_allM_zip_eq_false hfalse ?_
        exact forall₂_imp_mem hall fun w _ u hu => below rfl rfl hu
      | list mk members =>
        obtain ⟨vs, hvs, hall⟩ := h
        simp only [hvs] at hfalse
        obtain ⟨w, hw, hnone⟩ := exists_of_allM_eq_false hfalse
        obtain ⟨u, hu, hwu⟩ := hall w hw
        exact below rfl rfl hu hwu (anyM_eq_false.1 hnone u hu)
      | record mk fields =>
        obtain ⟨entries, hentries, hadmits, hall⟩ := h
        simp only [holdsRecord_eq_of_admits hentries hadmits] at hfalse
        obtain ⟨f, hf, hnot⟩ := exists_of_allM_eq_false hfalse
        obtain ⟨w, hw, hwf⟩ := hall f hf
        simp only [hw] at hnot
        exact below rfl rfl (List.mem_map_of_mem hf) hwf hnot
      | tagged mk tags =>
        obtain ⟨tag, vs, g, hvs, hg, hall⟩ := h
        simp only [holdsTagged, hvs, hg, allHold, eq_comm (a := g.fields.length)] at hfalse
        refine not_forall₂_of_allM_zip_eq_false hfalse ?_
        refine forall₂_imp_mem hall fun w _ u hu => below rfl rfl ?_
        exact List.mem_flatMap.2 ⟨g, List.mem_of_find?_eq_some hg, hu⟩
      | union mk left right =>
        obtain ⟨-, hr⟩ | ⟨hl, hr⟩ := bind_ite_eq_ok.1 hfalse
        · cases hr
        · rcases h with h | h
          · exact below rfl rfl (by simp [valueParts, parts]) h hl
          · exact below rfl rfl (by simp [valueParts, parts]) h hr
      | predicate mk c body listed =>
        exact ih (bounded.part ht rfl (by simp [valueParts, parts])) (covers.bind bounded ht) h
          depth hfalse
      | typeVariable mk x =>
        dsimp only at hfalse
        cases hx : bounds.find? x with
        | none => simp [hx] at hfalse
        | some c =>
          simp only [hx] at hfalse
          have hc := covers.right hx
          rcases h with ⟨c', hc', h⟩ | h
          · have h := inhabitsIn_of_same bounded (bounded.constraint hc') (bounded.constraint hc)
              (bounded.agree hc' hc) h
            exact ih (bounded.constraint hc) (covers.without bounded hx) h depth hfalse
          · exact h c hc
      | function | delegation | complement | reference | deferred => exact h.elim

/-- Whatever inhabits a type is found to do so in the end, if no field is looked up in a class. -/
lemma Inhabits.answers (bounded : m.heap.Bounded K) {classed : Prop}
    (plain : classed → ∀ {t}, K t → t.PlainFields) (hv : v.Ordinary classed) (ht : K t)
    (covers : m.heap.Covers K [] t) (h : m.Inhabits K v t) :
    Answers (fun depth => m.contains depth v t []) true := by
  obtain ⟨n, h⟩ := h
  have ending := terminates_contains bounded.toFirm (bounded.ends plain) m.openRecords hv t [] ht
    Bounds.all_nil
  obtain ⟨answer, bound, hanswer⟩ := ending.answers
  cases answer with
  | true => exact ⟨bound, hanswer⟩
  | false =>
    exact (contains_ne_false_of_inhabitsIn bounded ht covers h bound (hanswer bound le_rfl)).elim

end Matcher

end TypeNotation
