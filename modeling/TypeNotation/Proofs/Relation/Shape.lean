import TypeNotation.Proofs.Relation.Holds

/-!
# Shapes

Types that are structures, and not put together from other types by operators, have a shape: they
hold values of one kind only.  A definite value has one shape, so it inhabits structures of that
shape only.
-/

namespace TypeNotation

open TypeExpr

/-- The kinds of values that structures tell apart. -/
inductive Shape where
  | absent
  | number
  | text
  | sequence
  | keyed
  | constructed
  | applied
  deriving DecidableEq

/-- The shape of a value that is definite. -/
def Value.shape? : Value → Option Shape
  | absent => some .absent
  | number _ => some .number
  | text _ => some .text
  | list _ | tuple _ => some .sequence
  | mapping _ | object .. => some .keyed
  | bool _ | tagged .. => some .constructed
  | call _ | callable _ => some .applied
  | bytes _ | type _ => none

/-- The shape of the values that a structure holds. -/
def TypeExpr.shape? : TypeExpr → Option Shape
  | unit _ => some .absent
  | number _ | interval .. => some .number
  | primitive .. => some .text
  | tuple .. | list .. => some .sequence
  | record .. => some .keyed
  | tagged .. => some .constructed
  | function .. => some .applied
  | _ => none

namespace Matcher

variable {m : Matcher} {K : TypeExpr → Prop} {slotted constructed calls : Prop} {t : TypeExpr}
  {v : Value} {s : Shape}

/-- A definite value that inhabits a structure has its shape.  Constructed values are definite only
if there are no record types. -/
lemma shape_of_holds (concrete : m.heap.Concrete K constructed)
    (records : constructed → ∀ {t}, K t → t.isRecord = false) (ht : K t)
    (hs : t.shape? = some s) (hany : t.isAny = false) (hv : v.Definite slotted constructed calls)
    (h : m.Holds v t) : v.shape? = some s := by
  cases t with
  | number x =>
    obtain ⟨p, y, rfl⟩ := concrete.number ht
    obtain ⟨z, rfl, -⟩ := holds_number.1 h
    exact hs
  | interval =>
    obtain ⟨p, q, x, y, rfl, rfl, -, -⟩ := concrete.interval ht
    obtain ⟨z, rfl, -⟩ := holds_interval.1 h
    exact hs
  | unit =>
    rw [holds_unit.1 h]
    exact hs
  | primitive _ name =>
    obtain ⟨text, rfl⟩ := (holds_primitive.1 h).resolve_right (by simpa [isAny] using hany)
    exact hs
  | tuple =>
    obtain ⟨vs, hvs, -⟩ := (holds_tuple concrete hv.ordinary ht).1 h
    cases v <;> first | exact hs | cases hvs
  | list =>
    obtain ⟨vs, hvs, -⟩ := (holds_list concrete hv.ordinary ht).1 h
    cases v <;> first | exact hs | cases hvs
  | record =>
    obtain ⟨entries, hentries, -⟩ := (holds_record concrete hv.ordinary ht).1 h
    cases hv with
    | mapping | object => exact hs
    | tagged hc | callable hc | call hc => cases records hc ht
    | _ => cases hentries
  | tagged =>
    obtain ⟨tag, vs, g, htag, -⟩ := (holds_tagged concrete hv.ordinary ht).1 h
    cases v <;> first | exact hs | cases htag
  | function =>
    rcases call_or_callable_of_holds h with ⟨arguments, rfl⟩ | ⟨slots, rfl⟩ <;> exact hs
  | _ => cases hs

end Matcher

end TypeNotation
