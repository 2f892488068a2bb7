import TypeNotation.Relation.Subtype
import TypeNotation.Proofs.Relation.Congruence
import TypeNotation.Proofs.Relation.Covering
import TypeNotation.Proofs.Relation.Shape

/-!
# Subtyping and overlap are sound for membership

Where a type is found to be a subtype, it holds no definite value that the other does not hold; and
where two types are found not to overlap, there is no definite value that both hold.  The two are
proved together, by induction on the depth of the question.

Recursive types are related under the assumption that they are.  An assumed pair may be relied on
for lighter values, since for these the pair itself has been asked about.  For the value itself it
is not needed: until the value gets lighter, the types that are compared get lower, so that the pair
does not come up again.
-/

namespace TypeNotation

open TypeExpr

namespace Matcher

variable {m : Matcher} {K : TypeExpr → Prop} {slotted constructed calls : Prop} {a b : TypeExpr}
  {v : Value}

/-! ## Subtyping of structures -/

section Structures

variable {sub : TypeExpr → TypeExpr → Query Bool}

lemma acceptsCounts_of_acceptsRange {slots : List Slot} {inputs inputs' : List (Parameter TypeExpr)}
    (hrange : acceptsRange inputs inputs' = true)
    (h : acceptsCounts slots (Parameter.least inputs) (Parameter.greatest? inputs) = true) :
    acceptsCounts slots (Parameter.least inputs') (Parameter.greatest? inputs') = true := by
  rcases hrun : Slot.range slots with ⟨low, high⟩
  simp only [acceptsCounts, acceptsRange, hrun, Bool.and_eq_true, decide_eq_true_eq] at h hrange ⊢
  refine ⟨h.1.trans hrange.1, ?_⟩
  cases high with
  | none => rfl
  | some most =>
    cases hg : Parameter.greatest? inputs with
    | none => simp [hg] at h
    | some g =>
      cases hg' : Parameter.greatest? inputs' with
      | none => simp [hg, hg'] at hrange
      | some g' =>
        simp only [hg, hg', decide_eq_true_eq] at h hrange ⊢
        exact hrange.2.trans h.2

lemma same_of_numeralRule {p q : Option Position} {x y z : Number}
    (h : numeralRule (.literal p x) (.number (.literal q y)) = .ok true) (hz : z.same x = true) :
    z.same y = true := by
  have hplace : z.place = x.place := by simpa [Number.same] using hz
  simp only [numeralRule, Numeral.isNaN, Number.isNaN] at h
  by_cases hnan : x.place = .nan ∨ y.place = .nan
  · have hboth : x.place = .nan ∧ y.place = .nan := by simpa [hnan] using h
    simp [Number.same, hplace, hboth]
  · rw [not_or] at hnan
    have heq : x.compare y = .eq := by
      simpa [hnan, Query.ofArithmetic, bind, Except.bind, pure, Except.pure] using h
    simp [Number.same, hplace, (Place.compare_eq_eq hnan.1 hnan.2).1 heq]

lemma between_of_numeralRule {p q q' : Option Position} {k : Mark} {x low high z : Number}
    (h : numeralRule (.literal p x) (.interval k (.literal q low) (.literal q' high)) = .ok true)
    (hz : z.same x = true) : Number.Between low high z := by
  have hplace : z.place = x.place := by simpa [Number.same] using hz
  have h : holdsInterval (.number x) (.literal q low) (.literal q' high) = .ok true := by
    simp only [numeralRule, Numeral.isNaN, Numeral.compare_literal] at h
    simpa only [holdsInterval, Numeral.compare_literal] using h
  obtain ⟨_, ⟨⟩, hx⟩ := holdsInterval_eq_true.1 h
  exact ⟨hplace ▸ hx.place, hplace ▸ hx.low, hplace ▸ hx.high⟩

lemma numeralRule_sound {p : Option Position} {x z : Number}
    (concrete : m.heap.Concrete K constructed)
    (hb : K b) (h : numeralRule (.literal p x) b = .ok true) (hz : z.same x = true) :
    m.Holds (.number z) b := by
  cases b with
  | number y =>
    obtain ⟨q, y, rfl⟩ := concrete.number hb
    exact holds_number.2 ⟨z, rfl, same_of_numeralRule h hz⟩
  | interval mk low high =>
    obtain ⟨q, q', low, high, rfl, rfl, -, -⟩ := concrete.interval hb
    exact holds_interval.2 ⟨z, rfl, between_of_numeralRule h hz⟩
  | _ => cases h

lemma intervalRule_sound {p q p' q' : Option Position} {low high low' high' z : Number}
    (hlow : low.place ≠ .nan) (hhigh' : high'.place ≠ .nan)
    (h : intervalRule (.literal p low) (.literal q high) (.literal p' low') (.literal q' high') =
      .ok true) (hz : Number.Between low high z) : Number.Between low' high' z := by
  simp only [intervalRule, Numeral.compare_literal, bind, Except.bind, pure, Except.pure] at h
  by_cases hgt : low'.compare low = .gt
  · simp [hgt, Query.ofArithmetic] at h
  · have hle : high.compare high' ≠ .gt := by
      simpa [hgt, Query.ofArithmetic, bne_iff_ne] using h
    have hlow' : low.place.isLeftOf low'.place = false := by
      rw [← Bool.not_eq_true, ← Place.compare_eq_gt]
      exact hgt
    have hhigh : high'.place.isLeftOf high.place = false := by
      rw [← Bool.not_eq_true, ← Place.compare_eq_gt]
      exact hle
    exact ⟨hz.place, Place.not_isLeftOf_trans hlow hlow' hz.low,
      Place.isLeftOf_of_isLeftOf_of_not hhigh' hz.high hhigh⟩

lemma recordRule_admits {fields fields' : List (Field TypeExpr)}
    (h : m.recordRule sub fields fields' = .ok true) (hadmits : m.Admits v fields) :
    m.Admits v fields' ∧ ∀ f ∈ fields', ∃ x, Field.find? fields f.name = some x ∧
      sub x f.type = .ok true := by
  unfold recordRule at h
  split at h
  · cases h
  · rename_i hclosed
    refine ⟨?_, fun f hf => ?_⟩
    · cases hopen : m.openRecords with
      | true => exact .inl hopen
      | false =>
        have hsame : Field.sameNames fields fields' = true := by simpa [hopen] using hclosed
        exact hadmits.congr (Field.sameNames_iff.1 hsame)
    · have hf := allM_eq_true.1 h f hf
      cases hx : Field.find? fields f.name with
      | none => simp [hx] at hf
      | some x => exact ⟨x, rfl, by simpa [hx] using hf⟩

/-- Structures that are found to be subtypes hold no value that the supertype does not hold, if that
is so for what the value is taken apart into. -/
lemma structureRule_sound (concrete : m.heap.Concrete K constructed) (ha : K a) (hb : K b)
    (hcalls : ¬ calls) (hv : v.Definite slotted constructed calls)
    (hsub : ∀ w ∈ v.components, ∀ {x y}, K x → K y → sub x y = .ok true →
      m.Holds w x → m.Holds w y)
    (h : m.structureRule sub a b = .ok true) (hin : m.Holds v a) : m.Holds v b := by
  cases a with
  | number x =>
    obtain ⟨p, x, rfl⟩ := concrete.number ha
    obtain ⟨z, rfl, hz⟩ := holds_number.1 hin
    exact numeralRule_sound concrete hb h hz
  | interval mk low high =>
    cases b with
    | interval mk' low' high' =>
      obtain ⟨p, q, low, high, rfl, rfl, hlow, -⟩ := concrete.interval ha
      obtain ⟨p', q', low', high', rfl, rfl, -, hhigh'⟩ := concrete.interval hb
      obtain ⟨z, rfl, hz⟩ := holds_interval.1 hin
      exact holds_interval.2 ⟨z, rfl, intervalRule_sound hlow hhigh' h hz⟩
    | _ => cases h
  | unit =>
    cases b with
    | unit => exact holds_unit.2 (holds_unit.1 hin)
    | _ => cases h
  | primitive mk name =>
    cases b with
    | primitive mk' name' =>
      obtain rfl : name = name' := by simpa [structureRule] using h
      exact holds_primitive.2 (holds_primitive.1 hin)
    | _ => cases h
  | tuple mk items =>
    obtain ⟨vs, hvs, hall⟩ := (holds_tuple concrete hv.ordinary ha).1 hin
    cases b with
    | tuple mk' items' =>
      have hpairs : List.Forall₂ (fun x y => sub x y = .ok true) items items' :=
        allM_zip_eq_true.1 h
      refine (holds_tuple concrete hv.ordinary hb).2 ⟨vs, hvs, ?_⟩
      exact forall₂_trans_mem hall hpairs fun w hw x hx y hy h hxy =>
        hsub w (Value.mem_components_of_sequence hvs hw) (concrete.part ha rfl hx)
          (concrete.part hb rfl hy) hxy h
    | list mk' members =>
      refine (holds_list concrete hv.ordinary hb).2 ⟨vs, hvs, fun w hw => ?_⟩
      obtain ⟨x, hx, hwx⟩ := forall₂_exists_left hall.flip w hw
      obtain ⟨y, hy, hxy⟩ := exists_of_anyM_eq_true (allM_eq_true.1 h x hx)
      exact ⟨y, hy, hsub w (Value.mem_components_of_sequence hvs hw) (concrete.part ha rfl hx)
        (concrete.part hb rfl hy) hxy hwx⟩
    | _ => cases h
  | list mk members =>
    obtain ⟨vs, hvs, hall⟩ := (holds_list concrete hv.ordinary ha).1 hin
    cases b with
    | list mk' members' =>
      refine (holds_list concrete hv.ordinary hb).2 ⟨vs, hvs, fun w hw => ?_⟩
      obtain ⟨x, hx, hwx⟩ := hall w hw
      obtain ⟨y, hy, hxy⟩ := exists_of_anyM_eq_true (allM_eq_true.1 h x hx)
      exact ⟨y, hy, hsub w (Value.mem_components_of_sequence hvs hw) (concrete.part ha rfl hx)
        (concrete.part hb rfl hy) hxy hwx⟩
    | _ => cases h
  | record mk fields =>
    cases b with
    | record mk' fields' =>
      obtain ⟨entries, hentries, hadmits, hall⟩ := (holds_record concrete hv.ordinary ha).1 hin
      obtain ⟨hadmits', hfields⟩ := recordRule_admits h hadmits
      refine (holds_record concrete hv.ordinary hb).2 ⟨entries, hentries, hadmits', fun f hf => ?_⟩
      obtain ⟨x, hx, hxf⟩ := hfields f hf
      obtain ⟨g, hg, hname, rfl⟩ := Field.exists_of_find? hx
      obtain ⟨w, hw, hwg⟩ := hall g hg
      have own := concrete.ends.own ha hv.ordinary hg
      exact ⟨w, hname ▸ hw, hsub w (Value.mem_components_of_entry hentries own hw)
        (concrete.part ha rfl (List.mem_map_of_mem hg))
        (concrete.part hb rfl (List.mem_map_of_mem hf)) hxf hwg⟩
    | _ => cases h
  | function mk inputs outputs =>
    cases b with
    | function mk' inputs' outputs' =>
      rcases call_or_callable_of_holds hin with ⟨arguments, rfl⟩ | ⟨slots, rfl⟩
      · cases hv with
        | call _ hc => exact (hcalls hc).elim
      · obtain ⟨known, rfl, hcounts⟩ := holds_callable.1 hin
        refine holds_callable.2 ⟨known, rfl, acceptsCounts_of_acceptsRange ?_ hcounts⟩
        cases hrange : acceptsRange inputs inputs' with
        | true => rfl
        | false =>
          simp only [structureRule, functionRule, hrange] at h
          cases h
    | _ => cases h
  | tagged mk tags =>
    cases b with
    | tagged mk' tags' =>
      obtain ⟨tag, vs, g, hvs, hg, hall⟩ := (holds_tagged concrete hv.ordinary ha).1 hin
      have hmem := List.mem_of_find?_eq_some hg
      have hname : g.name = tag := by simpa using List.find?_some hg
      have hrule := allM_eq_true.1 h g hmem
      cases hg' : Tag.find? tags' g.name with
      | none => simp [hg'] at hrule
      | some g' =>
        simp only [hg'] at hrule
        have hpairs : List.Forall₂ (fun x y => sub x y = .ok true) g.fields g'.fields :=
          allM_zip_eq_true.1 hrule
        refine (holds_tagged concrete hv.ordinary hb).2 ⟨tag, vs, g', hvs, hname ▸ hg', ?_⟩
        exact forall₂_trans_mem hall hpairs fun w hw x hx y hy h hxy =>
          hsub w (Value.mem_components_of_tagged hvs hw)
            (concrete.part ha rfl (List.mem_flatMap.2 ⟨g, hmem, hx⟩))
            (concrete.part hb rfl
              (List.mem_flatMap.2 ⟨g', List.mem_of_find?_eq_some hg', hy⟩)) hxy h
    | _ => cases h
  | _ => cases h

end Structures

/-! ## Subtyping of types that are taken apart -/

section Operators

variable {appeal : Appeal}

/-- A subject that is taken apart. -/
lemma subjectRule_sound (concrete : m.heap.Concrete K constructed)
    (ordinary : v.Ordinary constructed) (ha : K a) (hb : K b)
    (hsub : ∀ {x y}, K x → K y → m.heap.height x + m.heap.height y <
      m.heap.height a + m.heap.height b → appeal.subtype [] [] x y = .ok true →
        m.Holds v x → m.Holds v y)
    (hover : ∀ {x y}, K x → K y → appeal.overlap x y = .ok false → m.Holds v x → ¬ m.Holds v y)
    {q : Query Bool} (hq : subjectRule? appeal [] [] a b = some q) (h : q = .ok true)
    (hin : m.Holds v a) : m.Holds v b := by
  have below {x : TypeExpr} (hx : x ∈ m.heap.unguarded a) : m.heap.height x < m.heap.height a :=
    (concrete.grounded ha).height_lt hx
  have below' {y : TypeExpr} (hy : y ∈ m.heap.unguarded b) : m.heap.height y < m.heap.height b :=
    (concrete.grounded hb).height_lt hy
  subst h
  cases a with
  | union mk x y =>
    have hx : K x := concrete.part ha rfl (by simp [valueParts, parts])
    have hy : K y := concrete.part ha rfl (by simp [valueParts, parts])
    have hlx := below (by simp [Heap.unguarded] : x ∈ m.heap.unguarded (.union mk x y))
    have hly := below (by simp [Heap.unguarded] : y ∈ m.heap.unguarded (.union mk x y))
    simp only [subjectRule?, Option.some.injEq, bind_ite_eq_ok] at hq
    obtain ⟨hsx, hsy⟩ | ⟨-, hsy⟩ := hq
    · rcases (holds_union concrete ordinary ha).1 hin with hin | hin
      · exact hsub hx hb (by omega) hsx hin
      · exact hsub hy hb (by omega) hsy hin
    · cases hsy
  | complement mk x y =>
    have hx : K x := concrete.part ha rfl (by simp [valueParts, parts])
    have hy : K y := concrete.part ha rfl (by simp [valueParts, parts])
    have hlx := below (by simp [Heap.unguarded] : x ∈ m.heap.unguarded (.complement mk x y))
    have hly := below (by simp [Heap.unguarded] : y ∈ m.heap.unguarded (.complement mk x y))
    obtain ⟨hinx, hout⟩ := (holds_complement concrete ordinary ha).1 hin
    simp only [subjectRule?, Option.some.injEq, bind_ite_eq_ok] at hq
    obtain ⟨hsx, -⟩ | ⟨-, hq⟩ := hq
    · exact hsub hx hb (by omega) hsx hinx
    · cases b with
      | complement mk' x' y' =>
        have hx' : K x' := concrete.part hb rfl (by simp [valueParts, parts])
        have hy' : K y' := concrete.part hb rfl (by simp [valueParts, parts])
        have hlx' := below' (by simp [Heap.unguarded] : x' ∈
          m.heap.unguarded (.complement mk' x' y'))
        have hly' := below' (by simp [Heap.unguarded] : y' ∈
          m.heap.unguarded (.complement mk' x' y'))
        simp only [bind_ite_eq_ok] at hq
        obtain ⟨hsx, hq⟩ | ⟨-, hq⟩ := hq
        · have hinx' := hsub hx hx' (by omega) hsx hinx
          refine (holds_complement concrete ordinary hb).2 ⟨hinx', fun hiny' => ?_⟩
          -- what is taken away on the right is taken away on the left, or apart from the left
          obtain ⟨hsy, -⟩ | ⟨-, hq⟩ := hq
          · exact hout (hsub hy' hy (by omega) hsy hiny')
          · obtain ⟨r, hr, hnot⟩ := bind_eq_ok.1 hq
            obtain rfl : r = false := by simpa [pure_eq_ok] using hnot
            exact hover hx hy' hr hinx hiny'
        · cases hq
      | _ => cases hq
  | predicate | typeVariable => cases concrete.concrete ha
  | _ => cases hq

/-- An object that is taken apart. -/
lemma objectRule_sound (concrete : m.heap.Concrete K constructed)
    (ordinary : v.Ordinary constructed) (straight : ∀ {t}, K t → t.isDelegation = false) (ha : K a)
    (hb : K b) {depth : Nat}
    (hsub : ∀ {x y}, K x → K y → m.heap.height x + m.heap.height y <
      m.heap.height a + m.heap.height b → appeal.subtype [] [] x y = .ok true →
        m.Holds v x → m.Holds v y)
    (hover : ∀ {x y}, K x → K y → appeal.overlap x y = .ok false → m.Holds v x → ¬ m.Holds v y)
    {q : Query Bool} (hq : m.objectRule? depth appeal [] [] a b = some q) (h : q = .ok true)
    (hin : m.Holds v a) : m.Holds v b := by
  have below {y : TypeExpr} (hy : y ∈ m.heap.unguarded b) : m.heap.height y < m.heap.height b :=
    (concrete.grounded hb).height_lt hy
  subst h
  cases b with
  | union mk x y =>
    have hx : K x := concrete.part hb rfl (by simp [valueParts, parts])
    have hy : K y := concrete.part hb rfl (by simp [valueParts, parts])
    have hlx := below (by simp [Heap.unguarded] : x ∈ m.heap.unguarded (.union mk x y))
    have hly := below (by simp [Heap.unguarded] : y ∈ m.heap.unguarded (.union mk x y))
    simp only [objectRule?, Option.some.injEq, bind_ite_eq_ok] at hq
    obtain ⟨hsx, -⟩ | ⟨-, ⟨hsy, -⟩ | ⟨-, hcovers⟩⟩ := hq
    · exact (holds_union concrete ordinary hb).2 (.inl (hsub ha hx (by omega) hsx hin))
    · exact (holds_union concrete ordinary hb).2 (.inr (hsub ha hy (by omega) hsy hin))
    · cases a with
      | interval mk' low high =>
        obtain ⟨p, q, low, high, rfl, rfl, hlow, -⟩ := concrete.interval ha
        obtain ⟨z, rfl, hz⟩ := holds_interval.1 hin
        exact holds_of_covers concrete hb hlow hcovers hz
      | _ => cases hcovers
  | complement mk x y =>
    have hx : K x := concrete.part hb rfl (by simp [valueParts, parts])
    have hy : K y := concrete.part hb rfl (by simp [valueParts, parts])
    have hlx := below (by simp [Heap.unguarded] : x ∈ m.heap.unguarded (.complement mk x y))
    simp only [objectRule?, Option.some.injEq, bind_ite_eq_ok] at hq
    obtain ⟨hsx, hq⟩ | ⟨-, hq⟩ := hq
    · obtain ⟨r, hr, hnot⟩ := bind_eq_ok.1 hq
      obtain rfl : r = false := by simpa [pure_eq_ok] using hnot
      exact (holds_complement concrete ordinary hb).2
        ⟨hsub ha hx (by omega) hsx hin, hover ha hy hr hin⟩
    · cases hq
  | predicate | typeVariable => cases concrete.concrete hb
  | delegation => cases straight hb
  | record =>
    cases a with
    | delegation => cases straight ha
    | _ => cases hq
  | _ =>
    cases a with
    | delegation => cases straight ha
    | _ => cases hq

end Operators

/-! ## Overlap -/

section Overlap

variable {appeal : Appeal} {rec : TypeExpr → TypeExpr → Query Bool}

/-- A type that is taken apart on one side of an overlap. -/
lemma overlapRule_sound (concrete : m.heap.Concrete K constructed)
    (ordinary : v.Ordinary constructed) (ha : K a) (hb : K b)
    (hrec : ∀ {x y}, K x → K y → rec x y = .ok false → m.Holds v x → ¬ m.Holds v y)
    (hsub : a.isComplement = true → ∀ {x y}, K x → K y → appeal.subtype [] [] x y = .ok true →
      m.Holds v x → m.Holds v y)
    {q : Query Bool} (hq : overlapRule? appeal rec a b = some q) (h : q = .ok false)
    (hin : m.Holds v a) : ¬ m.Holds v b := by
  subst h
  unfold overlapRule? at hq
  split at hq
  · cases hq
  cases a with
  | union mk x y =>
    have hx : K x := concrete.part ha rfl (by simp [valueParts, parts])
    have hy : K y := concrete.part ha rfl (by simp [valueParts, parts])
    simp only [Option.some.injEq, bind_ite_eq_ok] at hq
    obtain ⟨-, hq⟩ | ⟨hqx, hqy⟩ := hq
    · cases hq
    · rcases (holds_union concrete ordinary ha).1 hin with hin | hin
      · exact hrec hx hb hqx hin
      · exact hrec hy hb hqy hin
  | complement mk x y =>
    have hx : K x := concrete.part ha rfl (by simp [valueParts, parts])
    have hy : K y := concrete.part ha rfl (by simp [valueParts, parts])
    obtain ⟨hinx, hout⟩ := (holds_complement concrete ordinary ha).1 hin
    simp only [Option.some.injEq, bind_ite_eq_ok] at hq
    obtain ⟨-, hq⟩ | ⟨hqx, -⟩ := hq
    · obtain ⟨r, hr, hnot⟩ := bind_eq_ok.1 hq
      obtain rfl : r = true := by simpa [pure_eq_ok] using hnot
      exact fun hinb => hout (hsub rfl hb hy hr hinb)
    · exact hrec hx hb hqx hinx
  | delegation mk base targets =>
    have hbase : K base := concrete.part ha rfl (by simp [valueParts])
    exact hrec hbase hb (Option.some.inj hq) (holds_delegation.1 hin)
  | predicate | typeVariable => cases concrete.concrete ha
  | _ => cases hq

/-- What no rule takes apart on a side of an overlap is a structure. -/
lemma shape_of_overlapRule (concrete : m.heap.Concrete K constructed) (ha : K a)
    (href : a.isReferring = false)
    (hq : overlapRule? appeal rec a b = none) : (∃ s, a.shape? = some s) ∧ a.isAny = false := by
  unfold overlapRule? at hq
  split at hq
  · cases hq
  · rename_i hany
    refine ⟨?_, by simpa using hany⟩
    cases a with
    | union | complement | delegation => cases hq
    | predicate | typeVariable | reference | deferred => cases concrete.concrete ha
    | named => cases href
    | _ => exact ⟨_, rfl⟩

/-- A number is below the numeric types that hold it. -/
lemma subtype_number_ne_false (concrete : m.heap.Concrete K constructed) (hb : K b)
    (hshape : b.shape? = some .number) {p : Option Position} {x z : Number} (hz : z.same x = true)
    (hin : m.Holds (.number z) b) (depth : Nat) (assumed : Assumed) :
    m.subtype depth assumed [] [] (.number (.literal p x)) b ≠ .ok false := by
  have hplace : z.place = x.place := by simpa [Number.same] using hz
  cases depth with
  | zero => simp [subtype]
  | succ depth =>
    cases b with
    | number y =>
      obtain ⟨q, y, rfl⟩ := concrete.number hb
      obtain ⟨z', hz', hzy⟩ := holds_number.1 hin
      cases hz'
      have hsame : (TypeExpr.number (.literal p x)).same (.number (.literal q y)) = true := by
        have hplace' : z.place = y.place := by simpa [Number.same] using hzy
        simp [TypeExpr.same, Numeral.same, Number.same, ← hplace, hplace']
      simp [subtype, isReferring, hsame]
    | interval mk low high =>
      obtain ⟨q, q', low, high, rfl, rfl, -, -⟩ := concrete.interval hb
      obtain ⟨z', hz', hzi⟩ := holds_interval.1 hin
      cases hz'
      have hx : Number.Between low high x :=
        ⟨hplace ▸ hzi.place, hplace ▸ hzi.low, hplace ▸ hzi.high⟩
      have hrule : numeralRule (.literal p x) (.interval mk (.literal q low) (.literal q' high)) =
          .ok true := by
        have h := (holdsInterval_eq_true (p := q) (q := q')).2 ⟨x, rfl, hx⟩
        simp only [holdsInterval, Numeral.compare_literal] at h
        simpa only [numeralRule, Numeral.isNaN, Numeral.compare_literal] using h
      simp [subtype, isReferring, subjectRule?, objectRule?, structureRule, hrule]
    | _ => simp [shape?] at hshape

/-- Numeric types that are found not to overlap share no number. -/
lemma numericOverlap_sound (concrete : m.heap.Concrete K constructed) (ha : K a) (hb : K b)
    (hshape : a.shape? = some .number) (hshape' : b.shape? = some .number) {depth : Nat}
    {overlap : TypeExpr → TypeExpr → Query Bool}
    (h : numericOverlap ⟨m.subtype depth [], overlap⟩ a b = .ok false) (hin : m.Holds v a) :
    ¬ m.Holds v b := by
  intro hinb
  cases a with
  | number x =>
    obtain ⟨p, x, rfl⟩ := concrete.number ha
    obtain ⟨z, rfl, hz⟩ := holds_number.1 hin
    refine subtype_number_ne_false concrete hb hshape' hz hinb depth [] (p := p) ?_
    cases b <;> exact h
  | interval mk low high =>
    cases b with
    | number y =>
      obtain ⟨q, y, rfl⟩ := concrete.number hb
      obtain ⟨z, rfl, hz⟩ := holds_number.1 hinb
      exact subtype_number_ne_false concrete ha hshape hz hin depth [] h
    | interval mk' low' high' =>
      obtain ⟨p, q, low, high, rfl, rfl, hlow, -⟩ := concrete.interval ha
      obtain ⟨p', q', low', high', rfl, rfl, hlow', -⟩ := concrete.interval hb
      obtain ⟨z, rfl, hz⟩ := holds_interval.1 hin
      obtain ⟨z', hz', hz''⟩ := holds_interval.1 hinb
      cases hz'
      -- each starts before the number, and the other ends after it
      have hlt : low.compare high' = .lt :=
        Place.compare_eq_lt.2 (Place.isLeftOf_of_not_of_isLeftOf hlow hz.low hz''.high)
      have hlt' : low'.compare high = .lt :=
        Place.compare_eq_lt.2 (Place.isLeftOf_of_not_of_isLeftOf hlow' hz''.low hz.high)
      simp [numericOverlap, hlt, hlt', Query.ofArithmetic, bind, Except.bind, pure,
        Except.pure] at h
    | _ => simp [shape?] at hshape'
  | _ => simp [shape?] at hshape

/-- Two record types that admit a definite value have the same names, if records are closed. -/
lemma sameNames_of_admits (slots : slotted → m.openRecords = true)
    (hv : v.Definite slotted constructed calls) {entries : List (Field Value)}
    (hentries : v.entries? = some entries) {fields fields' : List (Field TypeExpr)}
    (h : m.Admits v fields) (h' : m.Admits v fields') :
    m.openRecords = true ∨ Field.sameNames fields fields' = true := by
  by_contra hclosed
  rw [not_or] at hclosed
  have hlisted : ∃ names, v.listed? = some names := by
    cases hv with
    | mapping | tagged | callable | call => exact ⟨_, rfl⟩
    | @object attributes inspectable hs =>
      cases inspectable with
      | true => exact ⟨_, rfl⟩
      | false => exact (hclosed.1 (slots (hs rfl))).elim
    | _ => cases hentries
  obtain ⟨names, hnames⟩ := hlisted
  have hleft := h.resolve_left hclosed.1 names hnames
  have hright := h'.resolve_left hclosed.1 names hnames
  exact hclosed.2 (Field.sameNames_iff.2 fun name => (hleft name).symm.trans (hright name))

/-- Structures of one shape that are found not to overlap share no value, if that is so for what the
value is taken apart into. -/
lemma overlapStructure_sound (concrete : m.heap.Concrete K constructed) (ha : K a) (hb : K b)
    (hshape : a.shape? = b.shape?) (hany : a.isAny = false) (hany' : b.isAny = false)
    (slots : slotted → m.openRecords = true) (hv : v.Definite slotted constructed calls)
    (hrec : ∀ w ∈ v.components, ∀ {x y}, K x → K y → rec x y = .ok false →
      m.Holds w x → ¬ m.Holds w y) {depth : Nat} {overlap : TypeExpr → TypeExpr → Query Bool}
    (h : m.overlapStructure ⟨m.subtype depth [], overlap⟩ rec a b = .ok false)
    (hin : m.Holds v a) : ¬ m.Holds v b := by
  intro hinb
  cases a with
  | number x =>
    have hnumeric : isNumeric b = true := by cases b <;> first | rfl | cases hshape
    simp only [overlapStructure, hnumeric, if_true] at h
    exact numericOverlap_sound concrete ha hb rfl hshape.symm h hin hinb
  | interval mk low high =>
    have hnumeric : isNumeric b = true := by cases b <;> first | rfl | cases hshape
    simp only [overlapStructure, hnumeric, if_true] at h
    exact numericOverlap_sound concrete ha hb rfl hshape.symm h hin hinb
  | unit =>
    cases b with
    | unit => cases h
    | _ => cases hshape
  | primitive mk name =>
    cases b with
    | primitive mk' name' =>
      obtain rfl : name = "string" := (concrete.primitive ha).resolve_right (by
        simpa [isAny] using hany)
      obtain rfl : name' = "string" := (concrete.primitive hb).resolve_right (by
        simpa [isAny] using hany')
      cases h
    | _ => cases hshape
  | tuple mk items =>
    obtain ⟨vs, hvs, hall⟩ := (holds_tuple concrete hv.ordinary ha).1 hin
    cases b with
    | tuple mk' items' =>
      obtain ⟨vs', hvs', hall'⟩ := (holds_tuple concrete hv.ordinary hb).1 hinb
      obtain rfl : vs = vs' := by simpa [hvs] using hvs'
      refine not_forall₂_of_allM_zip_eq_false h (forall₂_trans_mem hall.flip hall' ?_)
      intro x hx w hw y hy hwx hwy hfalse
      exact hrec w (Value.mem_components_of_sequence hvs hw) (concrete.part ha rfl hx)
        (concrete.part hb rfl hy) hfalse hwx hwy
    | list mk' members =>
      obtain ⟨vs', hvs', hall'⟩ := (holds_list concrete hv.ordinary hb).1 hinb
      obtain rfl : vs = vs' := by simpa [hvs] using hvs'
      obtain ⟨x, hx, hnone⟩ := exists_of_allM_eq_false h
      obtain ⟨w, hw, hwx⟩ := forall₂_exists_left hall x hx
      obtain ⟨y, hy, hwy⟩ := hall' w hw
      exact hrec w (Value.mem_components_of_sequence hvs hw) (concrete.part ha rfl hx)
        (concrete.part hb rfl hy) (anyM_eq_false.1 hnone y hy) hwx hwy
    | _ => cases hshape
  | list mk members =>
    obtain ⟨vs, hvs, hall⟩ := (holds_list concrete hv.ordinary ha).1 hin
    cases b with
    | list => cases h
    | tuple mk' items =>
      obtain ⟨vs', hvs', hall'⟩ := (holds_tuple concrete hv.ordinary hb).1 hinb
      obtain rfl : vs = vs' := by simpa [hvs] using hvs'
      obtain ⟨x, hx, hnone⟩ := exists_of_allM_eq_false h
      obtain ⟨w, hw, hwx⟩ := forall₂_exists_left hall' x hx
      obtain ⟨y, hy, hwy⟩ := hall w hw
      exact hrec w (Value.mem_components_of_sequence hvs hw) (concrete.part hb rfl hx)
        (concrete.part ha rfl hy) (anyM_eq_false.1 hnone y hy) hwx hwy
    | _ => cases hshape
  | record mk fields =>
    cases b with
    | record mk' fields' =>
      obtain ⟨entries, hentries, hadmits, hall⟩ := (holds_record concrete hv.ordinary ha).1 hin
      obtain ⟨entries', hentries', hadmits', hall'⟩ := (holds_record concrete hv.ordinary hb).1 hinb
      obtain rfl : entries = entries' := by simpa [hentries] using hentries'
      have hfits : (!m.openRecords && !Field.sameNames fields fields') = false := by
        rcases sameNames_of_admits slots hv hentries hadmits hadmits' with h | h <;> simp [h]
      simp only [overlapStructure, hfits] at h
      obtain ⟨f, hf, hfalse⟩ := exists_of_allM_eq_false h
      cases hy : Field.find? fields' f.name with
      | none => simp [hy] at hfalse
      | some y =>
        simp only [hy] at hfalse
        obtain ⟨g, hg, hname, rfl⟩ := Field.exists_of_find? hy
        obtain ⟨w, hw, hwf⟩ := hall f hf
        obtain ⟨w', hw', hwg⟩ := hall' g hg
        obtain rfl : w = w' := by
          rw [hname, hw] at hw'
          exact Option.some.inj hw'
        have own := concrete.ends.own ha hv.ordinary hf
        exact hrec w (Value.mem_components_of_entry hentries own hw)
          (concrete.part ha rfl (List.mem_map_of_mem hf))
          (concrete.part hb rfl (List.mem_map_of_mem hg)) hfalse hwf hwg
    | _ => cases hshape
  | function =>
    cases b with
    | function => cases h
    | _ => cases hshape
  | tagged mk tags =>
    cases b with
    | tagged mk' tags' =>
      obtain ⟨tag, vs, g, hvs, hg, hall⟩ := (holds_tagged concrete hv.ordinary ha).1 hin
      obtain ⟨tag', vs', g', hvs', hg', hall'⟩ := (holds_tagged concrete hv.ordinary hb).1 hinb
      obtain ⟨rfl, rfl⟩ : tag = tag' ∧ vs = vs' := by simpa [hvs] using hvs'
      have hmem := List.mem_of_find?_eq_some hg
      have hname : g.name = tag := by simpa using List.find?_some hg
      have hfalse := anyM_eq_false.1 h g hmem
      simp only [hname, hg'] at hfalse
      refine not_forall₂_of_allM_zip_eq_false hfalse (forall₂_trans_mem hall.flip hall' ?_)
      intro x hx w hw y hy hwx hwy hfalse
      exact hrec w (Value.mem_components_of_tagged hvs hw)
        (concrete.part ha rfl (List.mem_flatMap.2 ⟨g, hmem, hx⟩))
        (concrete.part hb rfl (List.mem_flatMap.2 ⟨g', List.mem_of_find?_eq_some hg', hy⟩))
        hfalse hwx hwy
    | _ => cases hshape
  | _ => cases h

end Overlap

/-! ## The induction -/

/-- What is asked of the values and of the types so that the relations can be relied on. -/
structure Fair (m : Matcher) (K : TypeExpr → Prop) (slotted constructed : Prop) : Prop where
  concrete : m.heap.Concrete K constructed
  slots : slotted → m.openRecords = true
  records : constructed → ∀ {t}, K t → t.isRecord = false

/-- There are neither delegations among the types nor calls among the values. -/
def Straight (K : TypeExpr → Prop) (calls : Prop) : Prop :=
  (∀ {t}, K t → t.isDelegation = false) ∧ ¬ calls

/-- An assumed pair that may be relied on for a value, where two types are compared: it is right for
lighter values, and for the value itself unless the types that are compared are lower. -/
def Trusted (m : Matcher) (Admitted : Value → Prop) (v : Value) (a b : TypeExpr)
    (p : TypeExpr × TypeExpr) : Prop :=
  (∀ w, w.weight < v.weight → Admitted w → m.Holds w p.1 → m.Holds w p.2) ∧
    ((m.Holds v p.1 → m.Holds v p.2) ∨
      m.heap.height a + m.heap.height b < m.heap.height p.1 + m.heap.height p.2)

/-- Whatever is found to be a subtype, under assumed pairs that may be relied on, holds no value
that the supertype does not hold. -/
def SubtypeSound (m : Matcher) (K : TypeExpr → Prop) (Admitted : Value → Prop) (depth : Nat) :
    Prop :=
  ∀ ⦃assumed : Assumed⦄ ⦃a b : TypeExpr⦄, K a → K b →
    m.subtype depth assumed [] [] a b = .ok true → ∀ ⦃v : Value⦄, Admitted v →
      (∀ p ∈ assumed, m.Trusted Admitted v a b p) → m.Holds v a → m.Holds v b

/-- Types that are found not to overlap share no value. -/
def OverlapSound (m : Matcher) (K : TypeExpr → Prop) (Admitted : Value → Prop) (depth : Nat) :
    Prop :=
  ∀ ⦃assumed : Assumed⦄ ⦃a b : TypeExpr⦄, K a → K b →
    m.overlap depth assumed a b = .ok false → ∀ ⦃v : Value⦄, Admitted v → m.Holds v a →
      ¬ m.Holds v b

section Induction

variable {Admitted : Value → Prop} {p : TypeExpr × TypeExpr} {w : Value} {x y : TypeExpr}

lemma Trusted.lower (h : m.Trusted Admitted v a b p)
    (hle : m.heap.height x + m.heap.height y ≤ m.heap.height a + m.heap.height b) :
    m.Trusted Admitted v x y p :=
  ⟨h.1, h.2.imp_right fun hlt => by omega⟩

lemma Trusted.lighter (h : m.Trusted Admitted v a b p) (hlt : w.weight < v.weight)
    (hw : Admitted w) : m.Trusted Admitted w x y p :=
  ⟨fun u hu => h.1 u (hu.trans hlt), .inl (h.1 w hlt hw)⟩

variable (fair : m.Fair K slotted constructed)
include fair

lemma subtypeSound_succ (straight : Straight K calls) {depth : Nat}
    (hsub : m.SubtypeSound K (Value.Definite slotted constructed calls) depth)
    (hover : m.OverlapSound K (Value.Definite slotted constructed calls) depth) :
    m.SubtypeSound K (Value.Definite slotted constructed calls) (depth + 1) := by
  intro assumed a b ha hb h v
  have concrete := fair.concrete
  -- by the weight of the value, for the pair that is about to be assumed
  induction hn : v.weight using Nat.strong_induction_on generalizing v with
  | _ n byWeight =>
  intro hv trusted hin
  unfold subtype at h
  split at h
  · rename_i href
    split at h
    · rename_i hmem
      exact (trusted _ hmem).2.elim (fun hp => hp hin) fun hlt => (lt_irrefl _ hlt).elim
    · rw [concrete.reveal ha, concrete.reveal hb] at h
      have hlower : m.heap.height (m.heap.unfold a) + m.heap.height (m.heap.unfold b) <
          m.heap.height a + m.heap.height b := by
        have hla := (concrete.grounded ha).height_unfold_le
        have hlb := (concrete.grounded hb).height_unfold_le
        rcases Bool.or_eq_true_iff.1 href with href | href
        · have := concrete.height_unfold_lt ha href
          omega
        · have := concrete.height_unfold_lt hb href
          omega
      refine holds_unfold.1 (hsub (concrete.unfold ha) (concrete.unfold hb) h hv ?_
        (holds_unfold.2 hin))
      intro p hp
      rcases List.mem_cons.1 hp with rfl | hp
      · refine ⟨fun w hw hadmitted => ?_, .inr hlower⟩
        exact byWeight w.weight (hn ▸ hw) rfl hadmitted fun p hp =>
          (trusted p hp).lighter hw hadmitted
      · exact (trusted p hp).lower hlower.le
  · split at h
    · rename_i hsame
      rcases Bool.or_eq_true_iff.1 hsame with hsame | hany
      · exact (holds_congr concrete ha hb hsame hv.ordinary).1 hin
      · cases b with
        | primitive mk name => exact holds_primitive.2 (.inr (by simpa [isAny] using hany))
        | _ => cases hany
    · have hsub_here {x y : TypeExpr} (hx : K x) (hy : K y)
          (hlt : m.heap.height x + m.heap.height y < m.heap.height a + m.heap.height b)
          (hxy : m.subtype depth assumed [] [] x y = .ok true) : m.Holds v x → m.Holds v y :=
        hsub hx hy hxy hv fun p hp => (trusted p hp).lower hlt.le
      have hover_here {x y : TypeExpr} (hx : K x) (hy : K y)
          (hxy : m.overlap depth [] x y = .ok false) : m.Holds v x → ¬ m.Holds v y :=
        hover hx hy hxy hv
      dsimp only at h
      split at h
      · exact subjectRule_sound concrete hv.ordinary ha hb hsub_here hover_here ‹_› h hin
      · split at h
        · exact objectRule_sound concrete hv.ordinary straight.1 ha hb hsub_here
            hover_here ‹_› h hin
        · refine structureRule_sound concrete ha hb straight.2 hv
            (fun w hw x y hx hy hxy => ?_) h hin
          have hlt := Value.weight_lt_of_mem_components hw
          exact hsub hx hy hxy (hv.component hw) fun p hp =>
            (trusted p hp).lighter hlt (hv.component hw)

lemma overlapSound_succ (straight : (∃ t, K t ∧ t.isComplement = true) → Straight K calls)
    {depth : Nat}
    (hsub : Straight K calls → m.SubtypeSound K (Value.Definite slotted constructed calls) depth)
    (hover : m.OverlapSound K (Value.Definite slotted constructed calls) depth) :
    m.OverlapSound K (Value.Definite slotted constructed calls) (depth + 1) := by
  intro assumed a b ha hb h v hv hin
  have concrete := fair.concrete
  unfold overlap at h
  split at h
  · split at h
    · cases h
    · rw [concrete.reveal ha, concrete.reveal hb] at h
      rw [← holds_unfold]
      exact hover (concrete.unfold ha) (concrete.unfold hb) h hv (holds_unfold.2 hin)
  · rename_i href
    rw [Bool.or_eq_true, not_or, Bool.not_eq_true, Bool.not_eq_true] at href
    have hrec {w : Value} (hw : w.Definite slotted constructed calls) {x y : TypeExpr} (hx : K x)
        (hy : K y) (hxy : m.overlap depth assumed x y = .ok false) : m.Holds w x → ¬ m.Holds w y :=
      hover hx hy hxy hw
    have hsub_here {t : TypeExpr} (ht : K t) (hcomplement : t.isComplement = true) {x y : TypeExpr}
        (hx : K x) (hy : K y) (hxy : m.subtype depth [] [] [] x y = .ok true) :
        m.Holds v x → m.Holds v y :=
      hsub (straight ⟨t, ht, hcomplement⟩) hx hy hxy hv fun p hp => by cases hp
    dsimp only at h
    split at h
    · exact overlapRule_sound concrete hv.ordinary ha hb (hrec hv) (hsub_here ha) ‹_› h hin
    · rename_i hrule
      split at h
      · exact fun hinb =>
          overlapRule_sound concrete hv.ordinary hb ha (hrec hv) (hsub_here hb) ‹_› h hinb hin
      · rename_i hrule'
        obtain ⟨⟨s, hs⟩, hany⟩ := shape_of_overlapRule concrete ha href.1 hrule
        obtain ⟨⟨s', hs'⟩, hany'⟩ := shape_of_overlapRule concrete hb href.2 hrule'
        intro hinb
        -- the value has one shape, and so have the types
        have hshape : a.shape? = b.shape? := by
          rw [hs, hs', ← shape_of_holds concrete fair.records ha hs hany hv hin,
            ← shape_of_holds concrete fair.records hb hs' hany' hv hinb]
        exact overlapStructure_sound concrete ha hb hshape hany hany' fair.slots hv
          (fun w hw => hrec (hv.component hw)) h hin hinb

/-- At every depth, what is found to be a subtype holds no more definite values, and what is found
not to overlap shares none. -/
lemma relations_sound (straight : (∃ t, K t ∧ t.isComplement = true) → Straight K calls)
    (depth : Nat) :
    (Straight K calls → m.SubtypeSound K (Value.Definite slotted constructed calls) depth) ∧
      m.OverlapSound K (Value.Definite slotted constructed calls) depth := by
  induction depth with
  | zero =>
    refine ⟨fun _ => ?_, ?_⟩ <;>
      · intro assumed a b ha hb h
        cases h
  | succ depth ih =>
    obtain ⟨hsub, hover⟩ := ih
    exact ⟨fun h => subtypeSound_succ fair h (hsub h) hover,
      overlapSound_succ fair straight hsub hover⟩

end Induction

end Matcher

end TypeNotation
