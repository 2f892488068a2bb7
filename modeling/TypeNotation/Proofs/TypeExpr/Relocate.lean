import TypeNotation.Declaration
import TypeNotation.Proofs.TypeExpr.Sameness

/-!
# Moving what is written to other positions

The same text can stand at different places.  `relocate` changes all the positions in a type, or in
a declaration, as it is written.  Equality of types does not see the change, and so neither does
anything that is decided by it.
-/

namespace TypeNotation

/-- A mark at another position. -/
def Mark.relocate (f : Position → Position) (m : Mark) : Mark :=
  { m with position := m.position.map f }

@[simp] lemma Mark.relocate_written (f : Position → Position) (p : Option Position) :
    (Mark.written p).relocate f = .written (p.map f) := rfl

/-- A numeral at other positions. -/
def Numeral.relocate (f : Position → Position) : Numeral → Numeral
  | .literal p v => .literal (p.map f) v
  | .power p base exponent => .power (p.map f) (base.relocate f) (exponent.relocate f)

@[simp] lemma Numeral.position_relocate (f : Position → Position) (x : Numeral) :
    (x.relocate f).position = x.position.map f := by
  cases x <;> rfl

/-- A binder at another position. -/
def Binder.relocate (f : Position → Position) (b : Binder) : Binder :=
  { b with position := b.position.map f }

namespace TypeExpr

mutual

/-- A type as it is written, at other positions.  What is not written keeps its position. -/
def relocate (f : Position → Position) : TypeExpr → TypeExpr
  | .number x => .number (x.relocate f)
  | .interval m low high => .interval (m.relocate f) (low.relocate f) (high.relocate f)
  | .unit m => .unit (m.relocate f)
  | t@(.primitive ..) => t
  | .tuple m items => .tuple (m.relocate f) (relocateAll f items)
  | .list m members => .list (m.relocate f) (relocateAll f members)
  | .record m fields => .record (m.relocate f) (relocateFields f fields)
  | .function m inputs outputs =>
    .function (m.relocate f) (relocateInputs f inputs) (relocateAll f outputs)
  | .delegation m base targets =>
    .delegation (m.relocate f) (base.relocate f) (relocateAll f targets)
  | .predicate m constraint body listed =>
    .predicate (m.relocate f) (constraint.relocate f) (body.relocate f)
      (listed.map (Binder.relocate f))
  | .tagged m tags => .tagged (m.relocate f) (relocateTags f tags)
  | .union m left right => .union (m.relocate f) (left.relocate f) (right.relocate f)
  | .complement m left right => .complement (m.relocate f) (left.relocate f) (right.relocate f)
  | .reference m name args => .reference (m.relocate f) name (relocateAll f args)
  | .typeVariable m v => .typeVariable (m.relocate f) v
  | t@(.named ..) => t
  | t@(.deferred ..) => t

/-- Types at other positions. -/
def relocateAll (f : Position → Position) : List TypeExpr → List TypeExpr
  | [] => []
  | t :: rest => t.relocate f :: relocateAll f rest

/-- Fields at other positions. -/
def relocateFields (f : Position → Position) : List (Field TypeExpr) → List (Field TypeExpr)
  | [] => []
  | ⟨name, t⟩ :: rest => ⟨name, t.relocate f⟩ :: relocateFields f rest

/-- Inputs at other positions. -/
def relocateInputs (f : Position → Position) :
    List (Parameter TypeExpr) → List (Parameter TypeExpr)
  | [] => []
  | ⟨t, suffix, p⟩ :: rest => ⟨t.relocate f, suffix, p.map f⟩ :: relocateInputs f rest

/-- Constructors at other positions. -/
def relocateTags (f : Position → Position) : List (Tag TypeExpr) → List (Tag TypeExpr)
  | [] => []
  | ⟨name, fields⟩ :: rest => ⟨name, relocateAll f fields⟩ :: relocateTags f rest

end

end TypeExpr

/-- A field at other positions. -/
def Field.relocate (f : Position → Position) (g : Field TypeExpr) : Field TypeExpr :=
  ⟨g.name, g.type.relocate f⟩

/-- An input at other positions. -/
def Parameter.relocate (f : Position → Position) (p : Parameter TypeExpr) : Parameter TypeExpr :=
  ⟨p.type.relocate f, p.suffix, p.position.map f⟩

/-- A constructor at other positions. -/
def Tag.relocate (f : Position → Position) (g : Tag TypeExpr) : Tag TypeExpr :=
  ⟨g.name, g.fields.map (TypeExpr.relocate f)⟩

/-- A declaration at other positions. -/
def Declaration.relocate (f : Position → Position) (d : Declaration) : Declaration :=
  ⟨d.name, d.parameters.map (Binder.relocate f), d.body.relocate f, d.position.map f⟩

namespace TypeExpr

variable {f : Position → Position}

@[simp] lemma relocateAll_eq (ts : List TypeExpr) : relocateAll f ts = ts.map (relocate f) := by
  induction ts with
  | nil => rfl
  | cons t ts ih => simp [relocateAll, ih]

@[simp] lemma relocateFields_eq (fs : List (Field TypeExpr)) :
    relocateFields f fs = fs.map (Field.relocate f) := by
  induction fs with
  | nil => rfl
  | cons g fs ih => simp [relocateFields, ih, Field.relocate]

@[simp] lemma relocateInputs_eq (ps : List (Parameter TypeExpr)) :
    relocateInputs f ps = ps.map (Parameter.relocate f) := by
  induction ps with
  | nil => rfl
  | cons p ps ih => simp [relocateInputs, ih, Parameter.relocate]

@[simp] lemma relocateTags_eq (gs : List (Tag TypeExpr)) :
    relocateTags f gs = gs.map (Tag.relocate f) := by
  induction gs with
  | nil => rfl
  | cons g gs ih => simp [relocateTags, ih, Tag.relocate]

/-! ## Staying in place -/

end TypeExpr

lemma Mark.relocate_id (m : Mark) : m.relocate id = m := by
  rw [Mark.relocate, Option.map_id_fun, id]

lemma Numeral.relocate_id (x : Numeral) : x.relocate id = x := by
  induction x with
  | literal => simp [Numeral.relocate]
  | power _ _ _ hb he => simp [Numeral.relocate, hb, he]

lemma Binder.map_relocate_id (bs : List Binder) : bs.map (Binder.relocate id) = bs := by
  have each : ∀ b ∈ bs, Binder.relocate id b = b := fun b _ => by
    rw [Binder.relocate, Option.map_id_fun, id]
  rw [List.map_congr_left each, List.map_id']

namespace TypeExpr

variable {f : Position → Position}

lemma relocate_id (t : TypeExpr) : t.relocate id = t := by
  induction t using parts_induction with
  | step t ih =>
    cases t with
    | number x => simp [relocate, Numeral.relocate_id]
    | interval m low high => simp [relocate, Mark.relocate_id, Numeral.relocate_id]
    | unit | typeVariable => simp [relocate, Mark.relocate_id]
    | primitive | named | deferred => rfl
    | tuple m ts | list m ts | reference m name ts =>
      have each : ts.map (relocate id) = ts := (List.map_congr_left ih).trans (List.map_id' ts)
      simp only [relocate, relocateAll_eq, Mark.relocate_id, each]
    | record m fs =>
      simp only [parts, List.forall_mem_map] at ih
      have each : ∀ g ∈ fs, Field.relocate id g = g := fun g hg => by
        simp [Field.relocate, ih g hg]
      simp only [relocate, relocateFields_eq, Mark.relocate_id, List.map_congr_left each,
        List.map_id']
    | function m ps ts =>
      simp only [parts, List.forall_mem_append, List.forall_mem_map] at ih
      have each : ∀ p ∈ ps, Parameter.relocate id p = p := fun p hp => by
        simp [Parameter.relocate, ih.1 p hp]
      simp only [relocate, relocateAll_eq, relocateInputs_eq, Mark.relocate_id,
        List.map_congr_left each, List.map_congr_left ih.2, List.map_id']
    | delegation m base ts =>
      simp only [parts, List.forall_mem_cons] at ih
      simp only [relocate, relocateAll_eq, Mark.relocate_id, ih.1, List.map_congr_left ih.2,
        List.map_id']
    | predicate m constraint body listed =>
      simp only [parts, List.forall_mem_cons] at ih
      simp only [relocate, Mark.relocate_id, ih.1, ih.2.1, Binder.map_relocate_id]
    | tagged m gs =>
      simp only [parts, List.mem_flatMap, forall_exists_index, and_imp] at ih
      have each : ∀ g ∈ gs, Tag.relocate id g = g := fun g hg => by
        simp [Tag.relocate, List.map_congr_left fun t ht => ih t g hg ht]
      simp only [relocate, relocateTags_eq, Mark.relocate_id, List.map_congr_left each,
        List.map_id']
    | union m left right | complement m left right =>
      simp only [parts, List.forall_mem_cons] at ih
      simp only [relocate, Mark.relocate_id, ih.1, ih.2.1]

end TypeExpr

lemma Declaration.relocate_id (d : Declaration) : d.relocate id = d := by
  simp [Declaration.relocate, Binder.map_relocate_id, TypeExpr.relocate_id]

/-! ## Equality -/

lemma Numeral.same_relocate (f : Position → Position) (x : Numeral) :
    (x.relocate f).same x = true := by
  induction x with
  | literal p v => exact Numeral.same_self (.literal p v)
  | power _ _ _ hb he => simp [Numeral.relocate, Numeral.same, hb, he]

namespace TypeExpr

variable {f : Position → Position}

/-- A type is equal to what it is at other positions. -/
lemma same_relocate (f : Position → Position) (t : TypeExpr) : (t.relocate f).same t = true := by
  induction t using parts_induction with
  | step t ih =>
    rw [← alike_iff]
    have each {ts : List TypeExpr} (h : ∀ t ∈ ts, (t.relocate f).same t = true) :
        EachSame (ts.map (relocate f)) ts := by
      simpa [List.forall₂_map_left_iff, List.forall₂_same] using h
    cases t with
    | number x => exact .number (x.same_relocate f)
    | interval m low high => exact .interval (low.same_relocate f) (high.same_relocate f)
    | unit => exact .unit
    | typeVariable => exact .typeVariable
    | primitive | named | deferred => exact alike_iff.2 (same_self _)
    | tuple m ts =>
      simp only [relocate, relocateAll_eq]
      exact .tuple (each ih)
    | list m ts =>
      simp only [relocate, relocateAll_eq]
      exact .list (matchAll_same (each ih))
    | record m fs =>
      simp only [relocate, relocateFields_eq, parts, List.forall_mem_map] at ih ⊢
      refine .record (matchAll_sameField ?_)
      simpa [List.forall₂_map_left_iff, List.forall₂_same, Field.relocate] using ih
    | function m ps ts =>
      simp only [relocate, relocateAll_eq, relocateInputs_eq, parts, List.forall_mem_append,
        List.forall_mem_map] at ih ⊢
      refine .function ?_ (each ih.2)
      simpa [List.forall₂_map_left_iff, List.forall₂_same, Parameter.relocate] using ih.1
    | delegation m base ts =>
      simp only [relocate, relocateAll_eq, parts, List.forall_mem_cons] at ih ⊢
      exact .delegation ih.1 (each ih.2)
    | predicate m constraint body listed =>
      simp only [relocate, parts, List.forall_mem_cons] at ih ⊢
      exact .predicate ih.1 ih.2.1 (by simp [Binder.relocate])
    | tagged m gs =>
      simp only [parts, List.mem_flatMap, forall_exists_index, and_imp] at ih
      simp only [relocate, relocateTags_eq]
      refine .tagged ?_
      rw [List.forall₂_map_left_iff, List.forall₂_same]
      exact fun g hg => ⟨rfl, each fun t ht => ih t g hg ht⟩
    | union m left right =>
      simp only [relocate, parts, List.forall_mem_cons] at ih ⊢
      exact .union ih.1 ih.2.1
    | complement m left right =>
      simp only [relocate, parts, List.forall_mem_cons] at ih ⊢
      exact .complement ih.1 ih.2.1
    | reference m name ts =>
      simp only [relocate, relocateAll_eq]
      exact .reference (each ih)

/-- Positions do not count for equality. -/
lemma same_relocate_congr (t u : TypeExpr) : (t.relocate f).same (u.relocate f) = t.same u := by
  rw [same_congr (same_relocate f t), same_comm, same_congr (same_relocate f u), same_comm]

lemma withoutRepeats_relocate (ts : List TypeExpr) :
    withoutRepeats (ts.map (relocate f)) = (withoutRepeats ts).map (relocate f) := by
  have grown (kept : List TypeExpr) (t : TypeExpr) :
      keep (kept.map (relocate f)) (t.relocate f) = (keep kept t).map (relocate f) := by
    simp only [keep, List.any_map, Function.comp_def, same_relocate_congr]
    split <;> simp
  have folded (kept : List TypeExpr) : (ts.map (relocate f)).foldl keep (kept.map (relocate f)) =
      (ts.foldl keep kept).map (relocate f) := by
    induction ts generalizing kept with
    | nil => rfl
    | cons t ts ih => rw [List.map_cons, List.foldl_cons, grown, ih, List.foldl_cons]
  exact folded []

lemma listOf_relocate (m : Mark) (ts : List TypeExpr) :
    listOf (m.relocate f) (ts.map (relocate f)) = (listOf m ts).relocate f := by
  simp only [listOf, withoutRepeats_relocate, relocate, relocateAll_eq]

end TypeExpr

/-- A declaration is equal to what it is at other positions. -/
lemma Declaration.same_relocate (f : Position → Position) (d : Declaration) :
    (d.relocate f).same d = true := by
  simp [Declaration.relocate, Declaration.same, Declaration.letters, TypeExpr.same_relocate,
    Binder.relocate, Function.comp_def]

end TypeNotation
