import TypeNotation.Resolution.Expansion
import TypeNotation.Proofs.TypeExpr.Sameness

/-!
# Instances of declarations

What expansion makes of a type, apart from stamps, depends on the type and its environment alone.
`instantiate` says what it is: numerals are evaluated, variables replaced, references become named
types.  It neither fails nor looks at the memo, and whether named types have bodies is not its
concern.

Equal environments give equal instances.  So a remembered expansion stands for all references of the
same name with equal arguments.
-/

namespace TypeNotation

/-- A numeral with the powers in it computed, as far as they can be. -/
def Numeral.evaluate : Numeral → Numeral
  | x@(.literal ..) => x
  | x@(.power position base exponent) =>
    match x.value? with
    | .ok (some v) => .literal position v
    | _ => .power position base.evaluate exponent.evaluate

namespace TypeExpr

open Expansion

/-- What a suspended target binds: the letters that occur in it and in the environment. -/
def targetBindings (env : Env) (target : TypeExpr) : List (Field TypeExpr) :=
  (target.typeVariables.map (·.var.letter)).eraseDups.filterMap fun letter =>
    (Field.find? env letter).map fun t => ⟨letter, t⟩

/-- Nothing is bound in an empty environment. -/
lemma targetBindings_nil (target : TypeExpr) : targetBindings [] target = [] :=
  List.filterMap_eq_nil_iff.2 fun _ _ => rfl

/-- A suspended target in an environment, without a stamp. -/
def suspended (env : Env) (target : TypeExpr) : TypeExpr :=
  .deferred ⟨none, 0⟩ target (targetBindings env target)

/-- The variables that a predicate still quantifies in an environment. -/
def remaining (env : Env) (scope : Option String) (binders : List Binder) : List Binder :=
  (binders.filter fun b => (binding? env b).isNone).map (freeBinder scope)

mutual

/-- The instance of a type in an environment, inside the declaration of a given name. -/
def instantiate (env : Env) (scope : Option String) : TypeExpr → TypeExpr
  | .number x => .number x.evaluate
  | .interval m low high => .interval m low.evaluate high.evaluate
  | t@(.unit _) => t
  | t@(.primitive ..) => t
  | .tuple m items => .tuple m (instantiateAll env scope items)
  | .list m members => .listOf m (instantiateAll env scope members)
  | .record m fields => .record m (instantiateFields env scope fields)
  | .function m inputs outputs =>
    .function m (instantiateInputs env scope inputs) (instantiateAll env scope outputs)
  | .delegation m base targets =>
    .delegation m (base.instantiate env scope) (targets.map (suspended env))
  | .predicate m constraint body listed =>
    let free := remaining env scope (quantified listed body)
    if free.isEmpty then body.instantiate env scope
    else .predicate m (constraint.instantiate env scope) (body.instantiate env scope) free
  | .tagged m tags => .tagged m (instantiateTags env scope tags)
  | .union m left right => .union m (left.instantiate env scope) (right.instantiate env scope)
  | .complement m left right =>
    .complement m (left.instantiate env scope) (right.instantiate env scope)
  | .reference m name args => .named m name (instantiateAll env scope args)
  | .typeVariable m v =>
    if v.scope.isSome then .typeVariable m v
    else (Field.find? env v.letter).getD (.typeVariable m ⟨v.letter, scope⟩)
  | t@(.named ..) => t
  | t@(.deferred ..) => t

/-- The instances of types, in order. -/
def instantiateAll (env : Env) (scope : Option String) : List TypeExpr → List TypeExpr
  | [] => []
  | t :: rest => t.instantiate env scope :: instantiateAll env scope rest

/-- The instances of the types of fields, in order. -/
def instantiateFields (env : Env) (scope : Option String) :
    List (Field TypeExpr) → List (Field TypeExpr)
  | [] => []
  | ⟨name, t⟩ :: rest => ⟨name, t.instantiate env scope⟩ :: instantiateFields env scope rest

/-- The instances of the types of inputs, in order. -/
def instantiateInputs (env : Env) (scope : Option String) :
    List (Parameter TypeExpr) → List (Parameter TypeExpr)
  | [] => []
  | ⟨t, suffix, position⟩ :: rest =>
    ⟨t.instantiate env scope, suffix, position⟩ :: instantiateInputs env scope rest

/-- The instances of the fields of constructors, in order. -/
def instantiateTags (env : Env) (scope : Option String) : List (Tag TypeExpr) → List (Tag TypeExpr)
  | [] => []
  | ⟨name, fields⟩ :: rest =>
    ⟨name, instantiateAll env scope fields⟩ :: instantiateTags env scope rest

end

variable {env env' : Env} {scope : Option String}

lemma instantiateAll_eq (ts : List TypeExpr) :
    instantiateAll env scope ts = ts.map (instantiate env scope) := by
  induction ts with
  | nil => rfl
  | cons t ts ih => simp [instantiateAll, ih]

lemma instantiateFields_eq (fs : List (Field TypeExpr)) :
    instantiateFields env scope fs = fs.map fun f => ⟨f.name, f.type.instantiate env scope⟩ := by
  induction fs with
  | nil => rfl
  | cons f fs ih => simp [instantiateFields, ih]

lemma instantiateInputs_eq (ps : List (Parameter TypeExpr)) :
    instantiateInputs env scope ps =
      ps.map fun p => ⟨p.type.instantiate env scope, p.suffix, p.position⟩ := by
  induction ps with
  | nil => rfl
  | cons p ps ih => simp [instantiateInputs, ih]

lemma instantiateTags_eq (gs : List (Tag TypeExpr)) :
    instantiateTags env scope gs =
      gs.map fun g => ⟨g.name, g.fields.map (instantiate env scope)⟩ := by
  induction gs with
  | nil => rfl
  | cons g gs ih => simp [instantiateTags, instantiateAll_eq, ih]

/-! ## Equal environments -/

/-- Environments that bind the same letters, in the same order, to equal types. -/
abbrev SameEnv : Env → Env → Prop :=
  List.Forall₂ fun f g => f.name = g.name ∧ f.type.same g.type = true

/-- What a letter is bound to in equal environments: nothing, or equal types. -/
lemma SameEnv.find? (h : SameEnv env env') (letter : String) :
    (Field.find? env letter = none ∧ Field.find? env' letter = none) ∨
      ∃ t t', Field.find? env letter = some t ∧ Field.find? env' letter = some t' ∧
        t.same t' = true := by
  induction h with
  | nil => exact .inl ⟨rfl, rfl⟩
  | @cons f g fs gs hfg _ ih =>
    by_cases hname : g.name = letter
    · have hname' : f.name = letter := hfg.1.trans hname
      exact .inr ⟨f.type, g.type, by simp [Field.find?, hname'], by simp [Field.find?, hname],
        hfg.2⟩
    · have hname' : f.name ≠ letter := fun h => hname (hfg.1 ▸ h)
      simpa [Field.find?, hname, hname'] using ih

lemma SameEnv.binding?_isNone (h : SameEnv env env') (b : Binder) :
    (binding? env b).isNone = (binding? env' b).isNone := by
  unfold binding?
  split
  · rfl
  · rcases h.find? b.var.letter with ⟨h₁, h₂⟩ | ⟨t, t', h₁, h₂, -⟩ <;> simp [h₁, h₂]

lemma remaining_congr (h : SameEnv env env') (binders : List Binder) :
    remaining env scope binders = remaining env' scope binders := by
  simp only [remaining, h.binding?_isNone]

lemma suspended_congr (h : SameEnv env env') (target : TypeExpr) :
    (suspended env target).same (suspended env' target) = true := by
  refine alike_iff.1 (.deferred (same_self target) (matchAll_sameField ?_))
  unfold targetBindings
  induction (target.typeVariables.map (·.var.letter)).eraseDups with
  | nil => exact .nil
  | cons letter letters ih =>
    rcases h.find? letter with ⟨h₁, h₂⟩ | ⟨t, t', h₁, h₂, e⟩
    · simpa [List.filterMap_cons, h₁, h₂] using ih
    · simpa [List.filterMap_cons, h₁, h₂] using ⟨e, ih⟩

lemma eachSame_map {f g : TypeExpr → TypeExpr} {ts : List TypeExpr}
    (h : ∀ t ∈ ts, (f t).same (g t) = true) : EachSame (ts.map f) (ts.map g) := by
  simpa [List.forall₂_map_left_iff, List.forall₂_map_right_iff, List.forall₂_same] using h

/-- Equal environments give equal instances. -/
lemma instantiate_congr (h : SameEnv env env') (t : TypeExpr) :
    (t.instantiate env scope).same (t.instantiate env' scope) = true := by
  induction t using parts_induction with
  | step t ih =>
    rw [← alike_iff]
    cases t with
    | number | interval | unit | primitive | named | deferred =>
      exact alike_iff.2 (same_self _)
    | tuple m items =>
      simp only [instantiate, instantiateAll_eq]
      exact .tuple (eachSame_map ih)
    | list m members =>
      simp only [instantiate, instantiateAll_eq]
      exact alike_iff.2 (listOf_congr (eachSame_map ih))
    | record m fields =>
      simp only [instantiate, instantiateFields_eq, parts, List.forall_mem_map] at ih ⊢
      refine .record (matchAll_sameField ?_)
      simpa [List.forall₂_map_left_iff, List.forall₂_map_right_iff, List.forall₂_same] using ih
    | function m inputs outputs =>
      simp only [instantiate, instantiateAll_eq, instantiateInputs_eq, parts,
        List.forall_mem_append, List.forall_mem_map] at ih ⊢
      refine .function ?_ (eachSame_map ih.2)
      simpa [List.forall₂_map_left_iff, List.forall₂_map_right_iff, List.forall₂_same] using ih.1
    | delegation m base targets =>
      simp only [instantiate, parts, List.forall_mem_cons] at ih ⊢
      exact .delegation ih.1 (eachSame_map fun target _ => suspended_congr h target)
    | predicate m constraint body listed =>
      simp only [parts, List.forall_mem_cons] at ih
      simp only [instantiate, remaining_congr h]
      split
      · exact alike_iff.2 ih.2.1
      · exact .predicate ih.1 ih.2.1 rfl
    | tagged m tags =>
      simp only [parts, List.mem_flatMap, forall_exists_index, and_imp] at ih
      simp only [instantiate, instantiateTags_eq]
      refine .tagged ?_
      rw [List.forall₂_map_left_iff, List.forall₂_map_right_iff, List.forall₂_same]
      exact fun g hg => ⟨rfl, eachSame_map fun t ht => ih t g hg ht⟩
    | union m left right =>
      simp only [instantiate, parts, List.forall_mem_cons] at ih ⊢
      exact .union ih.1 ih.2.1
    | complement m left right =>
      simp only [instantiate, parts, List.forall_mem_cons] at ih ⊢
      exact .complement ih.1 ih.2.1
    | reference m name args =>
      simp only [instantiate, instantiateAll_eq]
      exact .named (eachSame_map ih)
    | typeVariable m v =>
      simp only [instantiate]
      split
      · exact .typeVariable
      · rcases h.find? v.letter with ⟨h₁, h₂⟩ | ⟨t, t', h₁, h₂, e⟩
        · simp only [h₁, h₂, Option.getD_none]
          exact .typeVariable
        · simp only [h₁, h₂, Option.getD_some]
          exact alike_iff.2 e

end TypeExpr

/-! ## Fields by their names -/

namespace Field

variable {α : Type} {fields : List (Field α)} {name : String}

lemma find?_eq_none : find? fields name = none ↔ name ∉ names fields := by
  simp [find?, names]

/-- The type of a field that is found. -/
lemma exists_of_find? {a : α} (h : find? fields name = some a) :
    ∃ f ∈ fields, f.name = name ∧ f.type = a := by
  simp only [find?, Option.map_eq_some_iff] at h
  obtain ⟨f, hf, rfl⟩ := h
  exact ⟨f, List.mem_of_find?_eq_some hf, by simpa using List.find?_some hf, rfl⟩

end Field

/-! ## Declarations -/

namespace Declaration

open TypeExpr

/-- The parameters of a declaration bound to arguments, the last one in front. -/
def binding (d : Declaration) (args : List TypeExpr) : Env :=
  ((d.letters.zip args).map fun (letter, t) => ⟨letter, t⟩).reverse

/-- The body of a declaration with arguments in the place of the parameters. -/
def applied (d : Declaration) (args : List TypeExpr) : TypeExpr :=
  d.body.instantiate (d.binding args) (some d.name)

/-- The parameters are bound if there are as many arguments. -/
lemma names_binding (d : Declaration) {args : List TypeExpr} (arity : args.length = d.arity) :
    Field.names (d.binding args) = d.letters.reverse := by
  have length : d.letters.length = args.length := by simp [letters, arity, Declaration.arity]
  have fst : (d.letters.zip args).map Prod.fst = d.letters :=
    List.map_fst_zip (Nat.le_of_eq length)
  simp [binding, Field.names, Function.comp_def, fst]

/-- They are bound to arguments. -/
lemma type_mem_of_mem_binding (d : Declaration) {args : List TypeExpr} {f : Field TypeExpr}
    (hf : f ∈ d.binding args) : f.type ∈ args := by
  simp only [binding, List.mem_reverse, List.mem_map] at hf
  obtain ⟨p, hp, rfl⟩ := hf
  exact (List.of_mem_zip hp).2

lemma binding_congr (d : Declaration) {args args' : List TypeExpr} (h : EachSame args args') :
    SameEnv (d.binding args) (d.binding args') := by
  unfold binding
  refine List.rel_reverse ?_
  generalize d.letters = letters
  induction h generalizing letters with
  | nil => simp
  | cons e _ ih =>
    cases letters with
    | nil => simp
    | cons letter letters => exact .cons ⟨rfl, e⟩ (ih letters)

/-- Equal arguments give equal bodies. -/
lemma applied_congr (d : Declaration) {args args' : List TypeExpr} (h : EachSame args args') :
    (d.applied args).same (d.applied args') = true :=
  instantiate_congr (d.binding_congr h) d.body

end Declaration

end TypeNotation
