import Mathlib
import TypeNotation.Proofs.Relation.Concrete
import TypeNotation.Proofs.Relation.Holds
import TypeNotation.Proofs.Relation.Kept

/-!
# Closed records hold no more than open ones

A closed record type asks for the names of its fields and no others, an open one for at least these.
So where records are closed, less is matched, and less is a subtype of a record type.  Every rule
passes this on, whichever way its types are compared, except for those of a complement, where more
on the right leaves less of the whole.

A question that is answered with yes where records are closed may have no answer at all where they
are open, since then more is asked: a member of a union that was ruled out by names alone is now
looked into.  What is shown is that the answer is not no.
-/

namespace TypeNotation

open TypeExpr Query

namespace Query

/-! ## Questions that are not answered the other way -/

/-- Where the first question is answered with yes, the second is not answered with no. -/
def Widens (q q' : Query Bool) : Prop :=
  q = .ok true → q' ≠ .ok false

variable {α : Type} {p p' q q' : Query Bool}

lemma Widens.refl (q : Query Bool) : q.Widens q := by
  rintro rfl h
  cases h

lemma widens_false (q : Query Bool) : Widens (.ok false) q := by
  rintro ⟨⟩

/-- What is refused before it is asked. -/
lemma Widens.unless (refused : Bool) (h : q.Widens q') :
    Widens (if refused then .ok false else q) q' := by
  cases refused with
  | true => exact widens_false q'
  | false => exact h

lemma Widens.bind {x : Query α} {f f' : α → Query Bool}
    (h : ∀ a, x = .ok a → (f a).Widens (f' a)) : Widens (x >>= f) (x >>= f') := by
  intro yes no
  obtain ⟨a, ha, yes⟩ := bind_eq_ok.1 yes
  obtain ⟨a', ha', no⟩ := bind_eq_ok.1 no
  rw [ha] at ha'
  cases ha'
  exact h a ha yes no

lemma Widens.and (hp : p.Widens p') (hq : q.Widens q') :
    Widens (do if ← p then q else return false) (do if ← p' then q' else return false) := by
  intro yes no
  rcases bind_ite_eq_ok.1 yes with ⟨first, second⟩ | ⟨-, h⟩
  · rcases bind_ite_eq_ok.1 no with ⟨-, no⟩ | ⟨no, -⟩
    · exact hq second no
    · exact hp first no
  · cases h

lemma Widens.or (hp : p.Widens p') (hq : q.Widens q') :
    Widens (do if ← p then return true else q) (do if ← p' then return true else q') := by
  intro yes no
  rcases bind_ite_eq_ok.1 no with ⟨-, h⟩ | ⟨first, second⟩
  · cases h
  · rcases bind_ite_eq_ok.1 yes with ⟨yes, -⟩ | ⟨-, yes⟩
    · exact hp yes first
    · exact hq yes second

lemma Widens.allM {f f' : α → Query Bool} {xs : List α} (h : ∀ x ∈ xs, (f x).Widens (f' x)) :
    Widens (xs.allM f) (xs.allM f') := by
  intro yes no
  obtain ⟨x, hx, no⟩ := exists_of_allM_eq_false no
  exact h x hx (allM_eq_true.1 yes x hx) no

lemma Widens.anyM {f f' : α → Query Bool} {xs : List α} (h : ∀ x ∈ xs, (f x).Widens (f' x)) :
    Widens (xs.anyM f) (xs.anyM f') := by
  intro yes no
  obtain ⟨x, hx, yes⟩ := exists_of_anyM_eq_true yes
  exact h x hx yes (anyM_eq_false.1 no x hx)

/-- A question that widens another one to every depth is not answered with no if the other is
answered with yes, to whatever depths they are asked. -/
lemma Widens.ne_false {q q' : Nat → Query Bool} (h : ∀ depth, (q depth).Widens (q' depth))
    (kept : ∀ depth, (q depth).Kept (q (depth + 1)))
    (kept' : ∀ depth, (q' depth).Kept (q' (depth + 1))) {depth : Nat} (yes : q depth = .ok true)
    (depth' : Nat) : q' depth' ≠ .ok false := by
  intro no
  obtain ⟨bound, yes⟩ := answers_of_kept kept yes
  obtain ⟨bound', no⟩ := answers_of_kept kept' no
  exact h (max bound bound') (yes _ (Nat.le_max_left _ _)) (no _ (Nat.le_max_right _ _))

end Query

/-- A set of types without complements, which is closed under what a value may be matched against
and has no suspended target.  Named types may lack bodies. -/
structure Heap.Uncut (h : Heap) (K : TypeExpr → Prop) : Prop where
  part : ∀ {t u}, K t → t.isReferring = false → u ∈ t.valueParts → K u
  body : ∀ {m name args b}, K (.named m name args) → h.body? m.stamp = some b → K b
  present : ∀ {m target bindings}, ¬ K (.deferred m target bindings)
  uncut : ∀ {t}, K t → t.isComplement = false

namespace Heap

variable {h : Heap}

namespace Uncut

variable {K : TypeExpr → Prop} (uncut : h.Uncut K)
include uncut

lemma unfoldFrom (bound : Nat) (seen : List Nat) {t : TypeExpr} (ht : K t) :
    K (h.unfoldFrom bound seen t) := by
  induction bound generalizing seen t with
  | zero => exact ht
  | succ bound ih =>
    cases t with
    | named m name args =>
      simp only [Heap.unfoldFrom]
      cases hb : h.body? m.stamp with
      | none => exact ht
      | some b =>
        dsimp only
        split
        · exact ht
        · exact ih _ (uncut.body ht hb)
    | _ => exact ht

lemma reveal {t u : TypeExpr} (ht : K t) (hu : h.reveal t = .ok u) : K u := by
  cases t with
  | deferred => exact (uncut.present ht).elim
  | _ =>
    cases hu
    exact uncut.unfoldFrom _ [] ht

/-- Two such sets together. -/
lemma or {L : TypeExpr → Prop} (uncut' : h.Uncut L) : h.Uncut fun t => K t ∨ L t where
  part ht href hu := ht.imp (uncut.part · href hu) (uncut'.part · href hu)
  body ht hb := ht.imp (uncut.body · hb) (uncut'.body · hb)
  present ht := ht.elim uncut.present uncut'.present
  uncut ht := ht.elim uncut.uncut uncut'.uncut

end Uncut

lemma uncut_reaches {t : TypeExpr}
    (present : ∀ m target bindings, ¬ h.Reaches t (.deferred m target bindings))
    (uncut : ∀ u, h.Reaches t u → u.isComplement = false) : h.Uncut (h.Reaches t) where
  part := .part
  body := .body
  present := present _ _ _
  uncut := uncut _

end Heap

namespace Matcher

/-! ## Matching -/

section Matching

variable {holds holds' : Value → TypeExpr → Query Bool} {ts : List TypeExpr}

lemma widens_allHold {vs : List Value} (h : ∀ v, ∀ t ∈ ts, (holds v t).Widens (holds' v t)) :
    (allHold holds (vs.zip ts)).Widens (allHold holds' (vs.zip ts)) :=
  .allM fun p hp => h p.1 p.2 (List.of_mem_zip hp).2

variable {fields : List (Field TypeExpr)}

lemma widens_holdsFields
    (h : ∀ v, ∀ t ∈ fields.map (·.type), (holds v t).Widens (holds' v t))
    (entries : List (Field Value)) :
    (holdsFields holds entries fields).Widens (holdsFields holds' entries fields) := by
  refine .allM fun f hf => ?_
  cases Field.find? entries f.name with
  | none => exact .refl _
  | some v => exact h v f.type (List.mem_map_of_mem hf)

/-- This is where a value is asked for the names of a record type, or is not. -/
lemma widens_holdsRecord (heap : Heap)
    (h : ∀ v, ∀ t ∈ fields.map (·.type), (holds v t).Widens (holds' v t)) (v : Value) :
    ((Matcher.mk heap false).holdsRecord holds v fields).Widens
      ((Matcher.mk heap true).holdsRecord holds' v fields) := by
  have inside := widens_holdsFields h
  unfold holdsRecord
  cases v with
  | mapping entries => exact .unless _ (inside entries)
  | object | tagged | call | callable | type => exact .unless _ (inside _)
  | _ => exact .refl _

lemma widens_holdsFunction {inputs : List (Parameter TypeExpr)}
    (h : ∀ v, ∀ t ∈ inputs.map (·.type), (holds v t).Widens (holds' v t)) (v : Value) :
    (holdsFunction holds v inputs).Widens (holdsFunction holds' v inputs) := by
  cases v with
  | call arguments =>
    simp only [holdsFunction]
    split
    · refine .allM fun x _ => ?_
      cases hp : Parameter.receiving? inputs x.2 with
      | none => exact .refl _
      | some p => exact h x.1 p.type (List.mem_map_of_mem (mem_of_receiving? hp))
    · exact .refl _
  | callable slots => cases slots <;> exact .refl _
  | _ => exact .refl _

lemma widens_holdsTagged {tags : List (Tag TypeExpr)}
    (h : ∀ v, ∀ t ∈ tags.flatMap (·.fields), (holds v t).Widens (holds' v t)) (v : Value) :
    (holdsTagged holds v tags).Widens (holdsTagged holds' v tags) := by
  simp only [holdsTagged]
  cases v.asTagged? with
  | none => exact .refl _
  | some tagged =>
    obtain ⟨tag, fields⟩ := tagged
    dsimp only
    cases hg : Tag.find? tags tag with
    | none => exact .refl _
    | some g =>
      dsimp only
      split
      · exact widens_allHold fun v t ht =>
          h v t (List.mem_flatMap.2 ⟨g, List.mem_of_find?_eq_some hg, ht⟩)
      · exact .refl _

end Matching

variable {heap : Heap} {K : TypeExpr → Prop} (uncut : heap.Uncut K)
include uncut

/-- A value that is matched where records are closed is not turned away where they are open. -/
lemma widens_contains (depth : Nat) (v : Value) {t : TypeExpr} (ht : K t) {bounds : Bounds}
    (hbounds : bounds.All K) : ((Matcher.mk heap false).contains depth v t bounds).Widens
      ((Matcher.mk heap true).contains depth v t bounds) := by
  induction depth generalizing v t bounds with
  | zero => exact fun yes => by cases yes
  | succ depth ih =>
    have inside (href : t.isReferring = false) (v : Value) (u : TypeExpr) (hu : u ∈ t.valueParts) :=
      ih v (uncut.part ht href hu) hbounds
    unfold contains
    cases t with
    | named | deferred => exact .bind fun u hu => ih v (uncut.reveal ht hu) hbounds
    | tuple m items =>
      dsimp only
      cases v.asSequence? with
      | none => exact .refl _
      | some vs =>
        dsimp only
        split
        · exact widens_allHold (inside rfl)
        · exact .refl _
    | list m members =>
      dsimp only
      cases v.asSequence? with
      | none => exact .refl _
      | some vs => exact .allM fun w _ => .anyM fun u hu => inside rfl w u hu
    | record m fields => exact widens_holdsRecord heap (inside rfl) v
    | function m inputs outputs =>
      exact widens_holdsFunction (fun w u hu => inside rfl w u (List.mem_append_left _ hu)) v
    | tagged m tags => exact widens_holdsTagged (inside rfl) v
    | union m left right =>
      exact .or (inside rfl v left (by simp [valueParts, parts]))
        (inside rfl v right (by simp [valueParts, parts]))
    | complement => cases uncut.uncut ht
    | delegation m base targets => exact inside rfl v base (by simp [valueParts])
    | predicate m constraint body listed =>
      have hc : K constraint := uncut.part ht rfl (by simp [valueParts, parts])
      exact ih v (uncut.part ht rfl (by simp [valueParts, parts])) (hbounds.bind hc _)
    | typeVariable m x =>
      dsimp only
      cases hx : bounds.find? x with
      | none => exact .refl _
      | some bound => exact ih v (hbounds.find? hx) (hbounds.without x)
    | _ => exact .refl _

omit uncut

/-! ## Comparing structures -/

section Structure

variable {sub sub' : TypeExpr → TypeExpr → Query Bool}

lemma widens_pairwise {xs ys : List TypeExpr}
    (h : ∀ x ∈ xs, ∀ y ∈ ys, (sub x y).Widens (sub' x y)) :
    (pairwise sub xs ys).Widens (pairwise sub' xs ys) := by
  unfold pairwise
  split
  · exact .allM fun p hp => h p.1 (List.of_mem_zip hp).1 p.2 (List.of_mem_zip hp).2
  · exact .refl _

lemma widens_eachToSome {xs ys : List TypeExpr}
    (h : ∀ x ∈ xs, ∀ y ∈ ys, (sub x y).Widens (sub' x y)) :
    (eachToSome sub xs ys).Widens (eachToSome sub' xs ys) :=
  .allM fun x hx => .anyM fun y hy => h x hx y hy

/-- Inputs are compared the other way around. -/
lemma widens_inputsRule {inputs inputs' : List (Parameter TypeExpr)}
    (h : ∀ q ∈ inputs', ∀ p ∈ inputs, (sub q.type p.type).Widens (sub' q.type p.type))
    (indices : List Nat) :
    (inputsRule sub inputs inputs' indices).Widens (inputsRule sub' inputs inputs' indices) := by
  induction indices with
  | nil => exact .refl _
  | cons i indices ih =>
    unfold inputsRule
    cases hq : Parameter.receiving? inputs' i with
    | none => exact .refl _
    | some q =>
      cases hp : Parameter.receiving? inputs i with
      | none => exact .refl _
      | some p => exact (h q (mem_of_receiving? hq) p (mem_of_receiving? hp)).and ih

variable (hsub : ∀ {x y}, K x → K y → (sub x y).Widens (sub' x y))
include hsub

lemma widens_functionRule {inputs inputs' : List (Parameter TypeExpr)}
    {outputs outputs' : List TypeExpr} (hi : ∀ t ∈ inputs.map (·.type), K t)
    (hi' : ∀ t ∈ inputs'.map (·.type), K t) (ho : ∀ t ∈ outputs, K t) (ho' : ∀ t ∈ outputs', K t) :
    (functionRule sub inputs inputs' outputs outputs').Widens
      (functionRule sub' inputs inputs' outputs outputs') := by
  unfold functionRule
  split
  · exact .refl _
  · exact .and
      (widens_inputsRule (fun q hq p hp => hsub (hi' q.type (List.mem_map_of_mem hq))
        (hi p.type (List.mem_map_of_mem hp))) _)
      (widens_pairwise fun x hx y hy => hsub (ho x hx) (ho' y hy))

/-- This is where a record type is asked for the names of another, or is not. -/
lemma widens_recordRule (heap : Heap) {fields fields' : List (Field TypeExpr)}
    (hf : ∀ t ∈ fields.map (·.type), K t) (hf' : ∀ t ∈ fields'.map (·.type), K t) :
    ((Matcher.mk heap false).recordRule sub fields fields').Widens
      ((Matcher.mk heap true).recordRule sub' fields fields') := by
  unfold recordRule
  refine .unless _ (.allM fun f hmem => ?_)
  cases hx : Field.find? fields f.name with
  | none => exact .refl _
  | some x => exact hsub (hf x (mem_types_of_find? hx)) (hf' f.type (List.mem_map_of_mem hmem))

lemma widens_taggedRule {tags tags' : List (Tag TypeExpr)}
    (hg : ∀ t ∈ tags.flatMap (·.fields), K t) (hg' : ∀ t ∈ tags'.flatMap (·.fields), K t) :
    (taggedRule sub tags tags').Widens (taggedRule sub' tags tags') := by
  refine .allM fun g hmem => ?_
  cases hfind : Tag.find? tags' g.name with
  | none => exact .refl _
  | some g' =>
    exact widens_pairwise fun x hx y hy => hsub (hg x (List.mem_flatMap.2 ⟨g, hmem, hx⟩))
      (hg' y (List.mem_flatMap.2 ⟨g', List.mem_of_find?_eq_some hfind, hy⟩))

lemma widens_structureRule (heap : Heap) {a b : TypeExpr} (ha : ∀ t ∈ a.valueParts, K t)
    (hb : ∀ t ∈ b.valueParts, K t) :
    ((Matcher.mk heap false).structureRule sub a b).Widens
      ((Matcher.mk heap true).structureRule sub' a b) := by
  cases a with
  | tuple =>
    cases b with
    | tuple => exact widens_pairwise fun x hx y hy => hsub (ha x hx) (hb y hy)
    | list => exact widens_eachToSome fun x hx y hy => hsub (ha x hx) (hb y hy)
    | _ => exact .refl _
  | list =>
    cases b with
    | list => exact widens_eachToSome fun x hx y hy => hsub (ha x hx) (hb y hy)
    | _ => exact .refl _
  | record =>
    cases b with
    | record => exact widens_recordRule hsub heap ha hb
    | _ => exact .refl _
  | function =>
    cases b with
    | function =>
      simp only [valueParts, parts, List.forall_mem_append] at ha hb
      exact widens_functionRule hsub ha.1 hb.1 ha.2 hb.2
    | _ => exact .refl _
  | tagged =>
    cases b with
    | tagged => exact widens_taggedRule hsub ha hb
    | _ => exact .refl _
  | _ => exact .refl _

end Structure

/-! ## Taking apart -/

/-- A rule that applies comes before everything else. -/
lemma widens_rule {q q' : Query Bool} (hq : q.Widens q') {rule rule' : Option (Query Bool)} :
    Option.Rel Widens rule rule' →
      (match rule with
        | some answer => answer
        | none => q).Widens (match rule' with
        | some answer => answer
        | none => q')
  | .some h => h
  | .none => hq

section Appeal

variable {appeal appeal' : Appeal} {left right : Bounds} {a b : TypeExpr}
  (hsub : ∀ {left right : Bounds} {a b : TypeExpr}, left.All K → right.All K → K a → K b →
    (appeal.subtype left right a b).Widens (appeal'.subtype left right a b))
  (hl : left.All K) (hr : right.All K) (ha : K a) (hb : K b)
include uncut hsub hl hr ha hb

lemma widens_subjectRule? :
    Option.Rel Widens (subjectRule? appeal left right a b)
      (subjectRule? appeal' left right a b) := by
  cases a with
  | union m x y =>
    have hx : K x := uncut.part ha rfl (by simp [valueParts, parts])
    have hy : K y := uncut.part ha rfl (by simp [valueParts, parts])
    exact .some (.and (hsub hl hr hx hb) (hsub hl hr hy hb))
  | predicate m constraint body listed =>
    have hc : K constraint := uncut.part ha rfl (by simp [valueParts, parts])
    have hbody : K body := uncut.part ha rfl (by simp [valueParts, parts])
    exact .some (hsub (hl.bind hc _) hr hbody hb)
  | typeVariable m v =>
    simp only [subjectRule?]
    cases hv : left.find? v with
    | none => exact .none
    | some bound => exact .some (hsub (hl.without v) hr (hl.find? hv) hb)
  | complement => cases uncut.uncut ha
  | _ => exact .none

lemma widens_objectRule? (direct : ∀ {t}, K t → t.isDelegation = false) (depth : Nat) :
    Option.Rel Widens ((Matcher.mk heap false).objectRule? depth appeal left right a b)
      ((Matcher.mk heap true).objectRule? depth appeal' left right a b) := by
  -- a subject that is a delegation would be taken apart here too
  have subject : ∀ m base targets, a ≠ .delegation m base targets := by
    rintro m base targets rfl
    cases direct ha
  cases b with
  | predicate m constraint body listed =>
    have hc : K constraint := uncut.part hb rfl (by simp [valueParts, parts])
    have hbody : K body := uncut.part hb rfl (by simp [valueParts, parts])
    exact .some (hsub hl (hr.bind hc _) ha hbody)
  | typeVariable m v =>
    simp only [objectRule?]
    cases hv : right.find? v with
    | none => exact .some (.refl _)
    | some bound => exact .some (hsub hl (hr.without v) ha (hr.find? hv))
  | union m x y =>
    have hx : K x := uncut.part hb rfl (by simp [valueParts, parts])
    have hy : K y := uncut.part hb rfl (by simp [valueParts, parts])
    exact .some (.or (hsub hl hr ha hx) (.or (hsub hl hr ha hy) (.refl _)))
  | complement => cases uncut.uncut hb
  | delegation => cases direct hb
  | _ =>
    cases a with
    | delegation m base targets => exact absurd rfl (subject m base targets)
    | _ => exact .none

end Appeal

/-! ## Subtyping -/

include uncut

/-- What is a subtype where records are closed is not found to be none where they are open, among
types without delegations.  The assumed pairs are the same. -/
lemma widens_subtype (direct : ∀ {t}, K t → t.isDelegation = false) (depth : Nat)
    (assumed : Assumed) {left right : Bounds} (hl : left.All K) (hr : right.All K) {a b : TypeExpr}
    (ha : K a) (hb : K b) : ((Matcher.mk heap false).subtype depth assumed left right a b).Widens
      ((Matcher.mk heap true).subtype depth assumed left right a b) := by
  induction depth generalizing assumed left right a b with
  | zero => exact fun yes => by cases yes
  | succ depth ih =>
    unfold subtype
    split
    · split
      · exact .refl _
      · exact .bind fun x hx => .bind fun y hy => ih _ hl hr (uncut.reveal ha hx)
          (uncut.reveal hb hy)
    · rename_i plain
      obtain ⟨plainA, plainB⟩ : a.isReferring = false ∧ b.isReferring = false := by
        simpa using plain
      have partsA : ∀ t ∈ a.valueParts, K t := fun t ht => uncut.part ha plainA ht
      have partsB : ∀ t ∈ b.valueParts, K t := fun t ht => uncut.part hb plainB ht
      split
      · exact .refl _
      · refine widens_rule (widens_rule ?_ ?_)
          (widens_subjectRule? uncut (fun hl hr => ih assumed hl hr) hl hr ha hb)
        · have inner {x y : TypeExpr} (hx : K x) (hy : K y) := ih assumed hl hr hx hy
          exact widens_structureRule inner heap partsA partsB
        · exact widens_objectRule? uncut (fun hl hr => ih assumed hl hr) hl hr ha hb direct depth

/-! ## To whatever depths -/

lemma contains_ne_false {v : Value} {t : TypeExpr} (ht : K t) {depth : Nat}
    (yes : (Matcher.mk heap false).contains depth v t [] = .ok true) (depth' : Nat) :
    (Matcher.mk heap true).contains depth' v t [] ≠ .ok false :=
  Widens.ne_false (fun depth => widens_contains uncut depth v ht Bounds.all_nil)
    (fun depth => kept_contains _ depth v t []) (fun depth => kept_contains _ depth v t []) yes
    depth'

lemma isSubtype_ne_false (direct : ∀ {t}, K t → t.isDelegation = false) {a b : TypeExpr}
    (ha : K a) (hb : K b) {depth : Nat}
    (yes : (Matcher.mk heap false).isSubtype depth a b = .ok true) (depth' : Nat) :
    (Matcher.mk heap true).isSubtype depth' a b ≠ .ok false := by
  have kept (m : Matcher) (depth : Nat) :
    (m.isSubtype depth a b).Kept (m.isSubtype (depth + 1) a b) :=
    (m.kept_relations (Nat.le_succ depth)).1 [] [] [] a b
  exact Widens.ne_false
    (fun depth => widens_subtype uncut direct depth [] Bounds.all_nil Bounds.all_nil ha hb)
    (kept _) (kept _) yes depth'

end Matcher

end TypeNotation
