import TypeNotation.Proofs.Resolution.Instance
import TypeNotation.Proofs.TypeExpr.Cover

/-!
# Instances and replacement

`substitute` replaces variables by types as they are written.  The instance of a body in an
environment of instances is the instance of what the replacement makes of the body: `same_applied`.

Replacement may make members of a list equal, and a list keeps one of equal members.  That does no
harm as long as equal types have equal instances.  For types without variables this is a matter of
the numerals alone, since powers may be equal as they are written and still have different values:
an integer power is exact and one of doubles is rounded.
-/

namespace TypeNotation

/-- Numerals that have equal values if they are equal. -/
def Numeral.Coherent (N : Numeral → Prop) : Prop :=
  ∀ x y, N x → N y → x.same y = true → x.evaluate.same y.evaluate = true

namespace TypeExpr

open Expansion

/-! ## Replacement -/

mutual

/-- Replace variables by types.  A list keeps one of members that become equal.  What is expanded
already stays as it is. -/
def substitute (env : Env) : TypeExpr → TypeExpr
  | t@(.number _) => t
  | t@(.interval ..) => t
  | t@(.unit _) => t
  | t@(.primitive ..) => t
  | .tuple m items => .tuple m (substituteAll env items)
  | .list m members => .listOf m (substituteAll env members)
  | .record m fields => .record m (substituteFields env fields)
  | .function m inputs outputs =>
    .function m (substituteInputs env inputs) (substituteAll env outputs)
  | .delegation m base targets => .delegation m (base.substitute env) (substituteAll env targets)
  | .predicate m constraint body listed =>
    .predicate m (constraint.substitute env) (body.substitute env) listed
  | .tagged m tags => .tagged m (substituteTags env tags)
  | .union m left right => .union m (left.substitute env) (right.substitute env)
  | .complement m left right => .complement m (left.substitute env) (right.substitute env)
  | .reference m name args => .reference m name (substituteAll env args)
  | .typeVariable m v =>
    if v.scope.isSome then .typeVariable m v
    else (Field.find? env v.letter).getD (.typeVariable m v)
  | t@(.named ..) => t
  | t@(.deferred ..) => t

/-- Replace variables in several types. -/
def substituteAll (env : Env) : List TypeExpr → List TypeExpr
  | [] => []
  | t :: rest => t.substitute env :: substituteAll env rest

/-- Replace variables in the types of fields. -/
def substituteFields (env : Env) : List (Field TypeExpr) → List (Field TypeExpr)
  | [] => []
  | ⟨name, t⟩ :: rest => ⟨name, t.substitute env⟩ :: substituteFields env rest

/-- Replace variables in the types of inputs. -/
def substituteInputs (env : Env) : List (Parameter TypeExpr) → List (Parameter TypeExpr)
  | [] => []
  | ⟨t, suffix, position⟩ :: rest =>
    ⟨t.substitute env, suffix, position⟩ :: substituteInputs env rest

/-- Replace variables in the fields of constructors. -/
def substituteTags (env : Env) : List (Tag TypeExpr) → List (Tag TypeExpr)
  | [] => []
  | ⟨name, fields⟩ :: rest => ⟨name, substituteAll env fields⟩ :: substituteTags env rest

end

variable {env : Env} {scope : Option String}

lemma substituteAll_eq (ts : List TypeExpr) : substituteAll env ts = ts.map (substitute env) := by
  induction ts with
  | nil => rfl
  | cons t ts ih => simp [substituteAll, ih]

lemma substituteFields_eq (fs : List (Field TypeExpr)) :
    substituteFields env fs = fs.map fun f => ⟨f.name, f.type.substitute env⟩ := by
  induction fs with
  | nil => rfl
  | cons f fs ih => simp [substituteFields, ih]

lemma substituteInputs_eq (ps : List (Parameter TypeExpr)) :
    substituteInputs env ps = ps.map fun p => ⟨p.type.substitute env, p.suffix, p.position⟩ := by
  induction ps with
  | nil => rfl
  | cons p ps ih => simp [substituteInputs, ih]

lemma substituteTags_eq (gs : List (Tag TypeExpr)) :
    substituteTags env gs = gs.map fun g => ⟨g.name, g.fields.map (substitute env)⟩ := by
  induction gs with
  | nil => rfl
  | cons g gs ih => simp [substituteTags, substituteAll_eq, ih]

/-! ## Types without variables -/

/-- A node that is no variable, and no numeral but one of a set. -/
def Solid (N : Numeral → Prop) : TypeExpr → Prop
  | typeVariable .. => False
  | number x => N x
  | _ => True

variable {N : Numeral → Prop}

lemma firstOccurrences_ne_nil {bs : List Binder} (h : bs ≠ []) : firstOccurrences bs ≠ [] := by
  have grows (bs kept : List Binder) (hkept : kept ≠ []) :
      bs.foldl (fun kept b => if kept.any (·.var = b.var) then kept else kept ++ [b])
        kept ≠ [] := by
    induction bs generalizing kept with
    | nil => exact hkept
    | cons b bs ih =>
      rw [List.foldl_cons]
      apply ih
      split
      · exact hkept
      · simp
  cases bs with
  | nil => exact absurd rfl h
  | cons b bs => exact grows bs [b] (by simp)

/-- A type is closed if it has no variable anywhere. -/
lemma isClosed_iff {t : TypeExpr} : t.isClosed = true ↔
    ∀ m v, typeVariable m v ∉ t.subterms := by
  rw [isClosed, List.isEmpty_iff, typeVariables]
  constructor
  · intro none m v hv
    have found : (⟨m.position, v⟩ : Binder) ∈ t.subterms.filterMap binder? :=
      List.mem_filterMap.2 ⟨_, hv, rfl⟩
    exact firstOccurrences_ne_nil (List.ne_nil_of_mem found) none
  · intro none
    have empty : t.subterms.filterMap binder? = [] := by
      refine List.filterMap_eq_nil_iff.2 fun u hu => ?_
      cases u with
      | typeVariable m v => exact absurd hu (none m v)
      | _ => rfl
    rw [empty]
    rfl

lemma isClosed_of_solid {t : TypeExpr} (h : t.Throughout (Solid N)) : t.isClosed = true :=
  isClosed_iff.2 fun _ _ hv => h _ hv

lemma throughout_solid {t : TypeExpr} (closed : t.isClosed = true)
    (h : ∀ x, number x ∈ t.subterms → N x) : t.Throughout (Solid N) := by
  intro u hu
  cases u with
  | typeVariable m v => exact absurd hu (isClosed_iff.1 closed m v)
  | number x => exact h x hu
  | _ => trivial

lemma solid_ends {m : Mark} {low high : Numeral}
    (h : (interval m low high).Throughout (Solid N)) : N low ∧ N high :=
  have l : number low ∈ (interval m low high).parts := List.mem_cons_self
  have g : number high ∈ (interval m low high).parts := List.mem_cons_of_mem _ List.mem_cons_self
  ⟨(h.part l).self, (h.part g).self⟩

/-- A predicate without variables quantifies what it lists. -/
lemma quantified_of_isClosed {listed : List Binder} {body : TypeExpr} (h : body.isClosed = true) :
    quantified listed body = listed := by
  unfold quantified
  split
  · rename_i empty
    rw [List.isEmpty_iff.1 empty]
    exact List.isEmpty_iff.1 h
  · rfl

/-- Nothing is bound at the outset. -/
lemma remaining_nil (listed : List Binder) :
    (remaining [] none listed).map (·.var) = listed.map (·.var) := by
  have free (b : Binder) : (binding? [] b).isNone = true := by
    unfold binding?
    split <;> rfl
  have var (b : Binder) : (freeBinder none b).var = b.var := by
    unfold freeBinder
    split
    · rfl
    · rename_i unscoped
      rw [← Option.not_isSome_iff_eq_none.1 unscoped]
  simp [remaining, free, var]

lemma matchAll_sameField_map {f g : TypeExpr → TypeExpr} {fs gs : List (Field TypeExpr)}
    (h : ∀ a ∈ fs, ∀ b ∈ gs, a.type.same b.type = true → (f a.type).same (g b.type) = true)
    (same : matchAll sameField fs gs = true) :
    matchAll sameField (fs.map fun a => ⟨a.name, f a.type⟩) (gs.map fun b => ⟨b.name, g b.type⟩)
      = true := by
  obtain ⟨hs, each, perm⟩ := (matchAll_iff (rectangular_sameField _ _)).1 same
  refine (matchAll_iff (rectangular_sameField _ _)).2 ⟨_, ?_, perm.map _⟩
  simp only [List.forall₂_map_left_iff, List.forall₂_map_right_iff]
  refine forall₂_imp_mem each fun a ha b hb hab => ?_
  simp only [sameField, Bool.and_eq_true, decide_eq_true_eq] at hab ⊢
  exact ⟨hab.1, h a ha b (perm.subset hb) hab.2⟩

/-- Equal types without variables have equal instances, if equal numerals have equal values. -/
lemma instantiate_same (coherent : Numeral.Coherent N) {t u : TypeExpr}
    (ht : t.Throughout (Solid N)) (hu : u.Throughout (Solid N)) (h : t.same u = true) :
    (t.instantiate [] none).same (u.instantiate [] none) = true := by
  induction t using parts_induction generalizing u with
  | step t ih =>
    have one {v w : TypeExpr} (hv : v ∈ t.parts) (hw : w ∈ u.parts) (hvw : v.same w = true) :
        (v.instantiate [] none).same (w.instantiate [] none) = true :=
      ih v hv (ht.part hv) (hu.part hw) hvw
    have each {ts us : List TypeExpr} (hts : ∀ v ∈ ts, v ∈ t.parts) (hus : ∀ v ∈ us, v ∈ u.parts)
        (h : EachSame ts us) :
        EachSame (ts.map (instantiate [] none)) (us.map (instantiate [] none)) := by
      simp only [EachSame, List.forall₂_map_left_iff, List.forall₂_map_right_iff]
      exact forall₂_imp_mem h fun v hv w hw => one (hts v hv) (hus w hw)
    rw [← alike_iff] at h ⊢
    cases h with
    | number e => exact .number (coherent _ _ ht.self hu.self e)
    | interval hl hh =>
      exact .interval (coherent _ _ (solid_ends ht).1 (solid_ends hu).1 hl)
        (coherent _ _ (solid_ends ht).2 (solid_ends hu).2 hh)
    | unit => exact .unit
    | primitive => exact .primitive
    | tuple e =>
      simp only [instantiate, instantiateAll_eq]
      exact .tuple (each (fun _ => id) (fun _ => id) e)
    | list e =>
      simp only [instantiate, instantiateAll_eq]
      -- the instances of different members may be equal, which leaves fewer of them
      refine alike_iff.2 (same_listOf ?_ ?_) <;> simp only [Covered, List.forall_mem_map]
      · intro v hv
        obtain ⟨w, hw, hvw⟩ := exists_right_of_matchAll (rectangular_same _ _) e hv
        exact ⟨_, List.mem_map_of_mem hw, one hv hw hvw⟩
      · intro w hw
        obtain ⟨v, hv, hvw⟩ := exists_left_of_matchAll (rectangular_same _ _) e hw
        exact ⟨_, List.mem_map_of_mem hv, same_symm (one hv hw hvw)⟩
    | record e =>
      simp only [instantiate, instantiateFields_eq]
      exact .record (matchAll_sameField_map
        (fun a ha b hb => one (List.mem_map_of_mem ha) (List.mem_map_of_mem hb)) e)
    | function hi ho =>
      simp only [instantiate, instantiateAll_eq, instantiateInputs_eq]
      refine .function ?_ (each (fun _ => List.mem_append_right _)
        (fun _ => List.mem_append_right _) ho)
      simp only [List.forall₂_map_left_iff, List.forall₂_map_right_iff]
      exact forall₂_imp_mem hi fun p hp q hq hpq =>
        ⟨one (List.mem_append_left _ (List.mem_map_of_mem hp))
          (List.mem_append_left _ (List.mem_map_of_mem hq)) hpq.1, hpq.2⟩
    | delegation hb hts =>
      simp only [instantiate]
      refine .delegation (one List.mem_cons_self List.mem_cons_self hb) ?_
      simp only [EachSame, List.forall₂_map_left_iff, List.forall₂_map_right_iff]
      refine hts.imp fun v w hvw => ?_
      simp only [suspended, targetBindings_nil]
      exact alike_iff.1 (.deferred hvw rfl)
    | @predicate m m' constraint constraint' body body' listed listed' hc hb hl =>
      have closed : quantified listed body = listed :=
        quantified_of_isClosed (isClosed_of_solid (ht.part (u := body) (by simp [parts])))
      have closed' : quantified listed' body' = listed' :=
        quantified_of_isClosed (isClosed_of_solid (hu.part (u := body') (by simp [parts])))
      have vars : (remaining [] none listed).map (·.var) =
        (remaining [] none listed').map (·.var) :=
        by rw [remaining_nil, remaining_nil, hl]
      have empty : (remaining [] none listed).isEmpty = (remaining [] none listed').isEmpty := by
        simpa using congrArg List.isEmpty vars
      have same := one (by simp [parts]) (by simp [parts]) hb
      simp only [instantiate, closed, closed', empty]
      split
      · exact alike_iff.2 same
      · exact .predicate (one (by simp [parts]) (by simp [parts]) hc) same vars
    | tagged e =>
      simp only [instantiate, instantiateTags_eq]
      refine .tagged ?_
      rw [List.forall₂_map_left_iff, List.forall₂_map_right_iff]
      exact forall₂_imp_mem e fun g hg k hk e =>
        ⟨e.1, each (fun v hv => List.mem_flatMap.2 ⟨g, hg, hv⟩)
          (fun v hv => List.mem_flatMap.2 ⟨k, hk, hv⟩) e.2⟩
    | union hl hr =>
      simp only [instantiate]
      exact .union (one (by simp [parts]) (by simp [parts]) hl)
        (one (by simp [parts]) (by simp [parts]) hr)
    | complement hl hr =>
      simp only [instantiate]
      exact .complement (one (by simp [parts]) (by simp [parts]) hl)
        (one (by simp [parts]) (by simp [parts]) hr)
    | reference e =>
      simp only [instantiate, instantiateAll_eq]
      exact .named (each (fun _ => id) (fun _ => id) e)
    | typeVariable => exact ht.self.elim
    | named e => exact .named e
    | deferred e hb => exact .deferred e hb

/-! ## Replacement and instances -/

/-- A node that a body may have for replacement: no delegation, no predicate, and no variable but
those of some letters. -/
def Plain (letters : List String) : TypeExpr → Prop
  | delegation .. | predicate .. => False
  | typeVariable _ v => v.scope = none ∧ v.letter ∈ letters
  | t@(named ..) => t.isClosed = true
  | _ => True

/-- A node that is no numeral, or one of a set. -/
def Counts (N : Numeral → Prop) : TypeExpr → Prop
  | number x => N x
  | _ => True

variable {letters : List String}

lemma solid_of_counts {t : TypeExpr} (closed : t.isClosed = true)
    (counts : t.Throughout (Counts N)) : t.Throughout (Solid N) :=
  throughout_solid closed fun _ hx => counts _ hx

/-- An environment that binds letters to types without variables. -/
def Fills (N : Numeral → Prop) (letters : List String) (env : Env) : Prop :=
  ∀ letter ∈ letters, ∃ t, Field.find? env letter = some t ∧ t.Throughout (Solid N)

/-- Replacement leaves no variables. -/
lemma throughout_substitute {t : TypeExpr} (plain : t.Throughout (Plain letters))
    (counts : t.Throughout (Counts N)) (fills : Fills N letters env) :
    (t.substitute env).Throughout (Solid N) := by
  induction t using parts_induction with
  | step t ih =>
    have part : ∀ v ∈ t.parts, (v.substitute env).Throughout (Solid N) :=
      fun v hv => ih v hv (plain.part hv) (counts.part hv)
    cases t with
    | typeVariable m v =>
      obtain ⟨unscoped, hv⟩ := plain.self
      obtain ⟨u, hu, solid⟩ := fills v.letter hv
      simpa [substitute, unscoped, hu] using solid
    | delegation | predicate => exact plain.self.elim
    | named => exact solid_of_counts plain.self counts
    | number x =>
      refine throughout_iff.2 ⟨counts.self, ?_⟩
      cases x with
      | literal => simp [substitute, parts]
      | power => simpa [substitute, parts] using part
    | list m members =>
      refine throughout_iff.2 ⟨trivial, fun u hu => ?_⟩
      simp only [substitute, substituteAll_eq, listOf, parts] at hu
      obtain ⟨v, hv, rfl⟩ := List.mem_map.1 (withoutRepeats_subset _ hu)
      exact part v hv
    | unit | primitive | deferred =>
      exact throughout_iff.2 ⟨trivial, by simp [substitute, parts]⟩
    | interval =>
      refine throughout_iff.2 ⟨trivial, ?_⟩
      simpa [substitute, parts] using part
    | tagged m tags =>
      simp only [parts, List.mem_flatMap, forall_exists_index, and_imp] at part
      refine throughout_iff.2 ⟨trivial, ?_⟩
      simp only [substitute, substituteTags_eq, parts, List.mem_flatMap, List.mem_map,
        forall_exists_index, and_imp]
      rintro _ _ g hg rfl hu
      obtain ⟨v, hv, rfl⟩ := List.mem_map.1 hu
      exact part v g hg hv
    | _ =>
      refine throughout_iff.2 ⟨trivial, ?_⟩
      simpa [substitute, substituteAll_eq, substituteFields_eq, substituteInputs_eq, parts, or_imp,
        forall_and] using part

/-- The types of an environment, each of them expanded. -/
def instances (env : Env) : Env :=
  env.map fun f => ⟨f.name, f.type.instantiate [] none⟩

lemma find?_instances (letter : String) :
    Field.find? (instances env) letter =
      (Field.find? env letter).map (instantiate [] none) := by
  simp [Field.find?, instances, List.find?_map, Function.comp_def]

/-- The instance of what replacement makes of a type is the instance of the type where its variables
stand for instances. -/
lemma instantiate_substitute (coherent : Numeral.Coherent N) {t : TypeExpr}
    (plain : t.Throughout (Plain letters)) (counts : t.Throughout (Counts N))
    (fills : Fills N letters env) :
    ((t.substitute env).instantiate [] none).same (t.instantiate (instances env) scope) = true := by
  induction t using parts_induction with
  | step t ih =>
    have one : ∀ v ∈ t.parts, ((v.substitute env).instantiate [] none).same
        (v.instantiate (instances env) scope) = true :=
      fun v hv => ih v hv (plain.part hv) (counts.part hv)
    rw [← alike_iff]
    cases t with
    | typeVariable m v =>
      obtain ⟨unscoped, hv⟩ := plain.self
      obtain ⟨u, hu, -⟩ := fills v.letter hv
      simp only [substitute, instantiate, unscoped, find?_instances, hu]
      exact alike_iff.2 (same_self _)
    | delegation | predicate => exact plain.self.elim
    | number | interval | unit | primitive | named | deferred =>
      exact alike_iff.2 (same_self _)
    | tuple m items =>
      simp only [substitute, substituteAll_eq, instantiate, instantiateAll_eq, List.map_map]
      exact .tuple (eachSame_map one)
    | list m members =>
      simp only [substitute, substituteAll_eq, listOf, instantiate, instantiateAll_eq]
      set replaced := members.map (substitute env) with hreplaced
      have solid : ∀ u ∈ replaced, u.Throughout (Solid N) := by
        simp only [hreplaced, List.forall_mem_map]
        exact fun v hv => throughout_substitute (plain.part hv) (counts.part hv) fills
      refine alike_iff.2 (same_listOf ?_ ?_) <;> simp only [Covered, List.forall_mem_map]
      · intro u hu
        obtain ⟨v, hv, rfl⟩ := List.mem_map.1 (withoutRepeats_subset _ hu)
        exact ⟨_, List.mem_map_of_mem hv, one v hv⟩
      · intro v hv
        -- what a member becomes may be dropped for an equal one
        obtain ⟨u, hu, huv⟩ := covered_withoutRepeats replaced _ (List.mem_map_of_mem hv)
        refine ⟨_, List.mem_map_of_mem hu, same_trans (same_symm (one v hv)) ?_⟩
        exact instantiate_same coherent (solid _ (List.mem_map_of_mem hv))
          (solid u (withoutRepeats_subset _ hu)) huv
    | record m fields =>
      simp only [substitute, substituteFields_eq, instantiate, instantiateFields_eq, List.map_map,
        parts, List.forall_mem_map] at one ⊢
      refine .record (matchAll_sameField ?_)
      simpa [List.forall₂_map_left_iff, List.forall₂_map_right_iff, List.forall₂_same] using one
    | function m inputs outputs =>
      simp only [substitute, substituteAll_eq, substituteInputs_eq, instantiate, instantiateAll_eq,
        instantiateInputs_eq, parts, List.forall_mem_append, List.forall_mem_map, List.map_map]
        at one ⊢
      refine .function ?_ (eachSame_map one.2)
      simpa [List.forall₂_map_left_iff, List.forall₂_map_right_iff, List.forall₂_same] using one.1
    | tagged m tags =>
      simp only [parts, List.mem_flatMap, forall_exists_index, and_imp] at one
      simp only [substitute, substituteTags_eq, instantiate, instantiateTags_eq, List.map_map]
      refine .tagged ?_
      rw [List.forall₂_map_left_iff, List.forall₂_map_right_iff, List.forall₂_same]
      intro g hg
      refine ⟨rfl, ?_⟩
      simp only [Function.comp_apply, List.map_map]
      exact eachSame_map fun t ht => one t g hg ht
    | union m left right =>
      simp only [substitute, instantiate, parts, List.forall_mem_cons] at one ⊢
      exact .union one.1 one.2.1
    | complement m left right =>
      simp only [substitute, instantiate, parts, List.forall_mem_cons] at one ⊢
      exact .complement one.1 one.2.1
    | reference m name args =>
      simp only [substitute, substituteAll_eq, instantiate, instantiateAll_eq, List.map_map]
      exact .named (eachSame_map one)

end TypeExpr

namespace Declaration

open TypeExpr

/-- The letters of the parameters are bound if there are as many arguments. -/
lemma fills_binding (d : Declaration) {N : Numeral → Prop} {args : List TypeExpr}
    (arity : args.length = d.arity) (solid : ∀ t ∈ args, t.Throughout (Solid N)) :
    Fills N d.letters (d.binding args) := by
  intro letter hletter
  have known : ∃ f ∈ d.binding args, f.name = letter := by
    rw [← List.mem_reverse, ← d.names_binding arity] at hletter
    exact List.mem_map.1 hletter
  cases found : (d.binding args).find? (·.name = letter) with
  | none =>
    obtain ⟨f, hf, rfl⟩ := known
    simpa using List.find?_eq_none.1 found f hf
  | some f =>
    refine ⟨f.type, by rw [Field.find?, found]; rfl, solid _ ?_⟩
    exact d.type_mem_of_mem_binding (List.mem_of_find?_eq_some found)

lemma instances_binding (d : Declaration) (args : List TypeExpr) :
    instances (d.binding args) = d.binding (args.map (instantiate [] none)) := by
  simp [instances, binding, List.zip_map_right]

/-- The body with arguments in the place of the parameters is the instance of what replacement makes
of the body. -/
lemma same_applied (d : Declaration) {N : Numeral → Prop} {args : List TypeExpr}
    (coherent : Numeral.Coherent N) (arity : args.length = d.arity)
    (plain : d.body.Throughout (Plain d.letters)) (counts : d.body.Throughout (Counts N))
    (solid : ∀ t ∈ args, t.Throughout (Solid N)) :
    ((d.body.substitute (d.binding args)).instantiate [] none).same
      (d.applied (args.map (instantiate [] none))) = true := by
  rw [applied, ← instances_binding]
  exact instantiate_substitute coherent plain counts (d.fills_binding arity solid)

end Declaration

end TypeNotation
