import TypeNotation.Proofs.Number.Doubles
import TypeNotation.Proofs.Number.Measure
import TypeNotation.Proofs.Number.Place

/-!
# The order of numerals

Comparing two numerals the other way round gives the opposite answer.  Not to be greater is
transitive among numerals that are computed, for these stand at places of the number line.

Where a power is left symbolic, the measures of numerals are compared instead.  They are in an
order, but a measure may be without a logarithm, zero times infinity, and then it is neither less
nor greater than others of its sign.  Also, logarithms are rounded.  So transitivity asks for a
logarithm of the numeral in the middle, and that the measures of those that are computed are in the
order of their values.  The latter is a question of numbers of one sign only.
-/

namespace TypeNotation

namespace Place

variable {p q r : Place}

lemma compare_swap (p q : Place) : q.compare p = (p.compare q).swap := by
  cases h : p.compare q with
  | lt => exact compare_eq_gt.2 (compare_eq_lt.1 h)
  | gt => exact compare_eq_lt.2 (compare_eq_gt.1 h)
  | eq =>
    cases h' : q.compare p with
    | lt => simp [compare_eq_gt.2 (compare_eq_lt.1 h')] at h
    | gt => simp [compare_eq_lt.2 (compare_eq_gt.1 h')] at h
    | eq => rfl

@[simp] lemma compare_self (p : Place) : p.compare p = .eq := by
  cases h : p.compare p with
  | eq => rfl
  | _ => simpa [h] using compare_swap p p

lemma compare_trans (hq : q ≠ .nan) (h : p.compare q ≠ .gt) (h' : q.compare r ≠ .gt) :
    p.compare r ≠ .gt := by
  rw [Ne, compare_eq_gt, Bool.not_eq_true] at *
  exact not_isLeftOf_trans hq h h'

/-- How far to the right a place is: the two ends and zero stand apart from what is between. -/
def side : Place → Int
  | .nan => -1
  | .below => -2
  | .at q => if q < 0 then -1 else if q = 0 then 0 else 1
  | .above => 2

lemma isLeftOf_of_side_lt (hp : p ≠ .nan) (hq : q ≠ .nan) (h : p.side < q.side) :
    p.isLeftOf q = true := by
  cases p <;> cases q <;> simp_all [side, isLeftOf] <;> grind

end Place

namespace LogScale

variable {a b c : LogScale}

lemma compare_eq_gt :
    a.compare b = .gt ↔ b.sign < a.sign ∨ b.sign = a.sign ∧ b.log < a.log := by
  have asymm : b.log < a.log → ¬ a.log < b.log := Double.not_lt_of_lt
  rw [compare]
  split_ifs <;> simp <;> grind

lemma compare_swap (a b : LogScale) : b.compare a = (a.compare b).swap := by
  have asymm : b.log < a.log → ¬ a.log < b.log := Double.not_lt_of_lt
  rw [compare, compare]
  split_ifs <;> first | rfl | omega | grind

@[simp] lemma compare_self (a : LogScale) : a.compare a = .eq := by
  cases h : a.compare a with
  | eq => rfl
  | _ => simpa [h] using compare_swap a a

lemma compare_trans (hb : b.log.isNaN = false) (h : a.compare b ≠ .gt)
    (h' : b.compare c ≠ .gt) : a.compare c ≠ .gt := by
  rw [Ne, compare_eq_gt, not_or, not_and, not_lt] at *
  obtain ⟨sign, log⟩ := h
  obtain ⟨sign', log'⟩ := h'
  refine ⟨sign.trans sign', fun same => ?_⟩
  exact Double.not_lt_trans hb (log (by omega)) (log' (by omega))

end LogScale

namespace Number

variable {x y b e v : Number}

/-- A number at a rational place. -/
def IsFinite (x : Number) : Prop :=
  ∃ q, x.place = .at q

lemma IsFinite.isNaN (h : x.IsFinite) : x.isNaN = false := by
  obtain ⟨q, hq⟩ := h
  simp [Number.isNaN, hq]

lemma isFinite_toDouble {d : Float} (hx : x.IsFinite) (h : x.toDouble? = some d) :
    d.isFinite = true := by
  obtain ⟨q, hq⟩ := hx
  cases x with
  | double y =>
    cases h
    exact Double.isFinite_of_place hq
  | int | fraction =>
    rw [toDouble?, toDouble?.bounded] at h
    split at h
    · next hplace =>
      cases h
      exact Double.isFinite_of_place hplace
    · cases h

lemma IsFinite.doublePower (hb : b.IsFinite) (he : e.IsFinite)
    (h : b.doublePower e = .ok (some v)) : v.IsFinite := by
  rw [Number.doublePower] at h
  split at h
  · next c d hc hd =>
    have finite : (c.isFinite && d.isFinite) = true := by
      rw [isFinite_toDouble hb hc, isFinite_toDouble he hd]
      rfl
    have power : ∃ r, Double.power c d = .ok r ∧ v = .double r := by
      split at h
      · cases h
      · cases h
      · next r hr =>
        split_ifs at h
        · cases h
        · cases h
          exact ⟨r, hr, rfl⟩
    obtain ⟨r, hr, rfl⟩ := power
    simp only [Double.power, finite, if_true] at hr
    split_ifs at hr with hnan hinf
    cases hr
    exact Double.exists_place_of_isFinite
      (Double.isFinite_of_not (Bool.eq_false_iff.2 hnan) (Bool.eq_false_iff.2 hinf))
  · cases h

lemma IsFinite.power (hb : b.IsFinite) (he : e.IsFinite) (h : b.power e = .ok (some v)) :
    v.IsFinite := by
  rw [Number.power.eq_def] at h
  split at h
  · split_ifs at h
    · exact hb.doublePower he h
    · split at h
      · split_ifs at h
        · cases h
        · cases h
          exact ⟨_, rfl⟩
      · cases h
      · cases h
    · cases h
      exact ⟨_, rfl⟩
  · exact hb.doublePower he h

/-- What a number is, as its measure tells it: zero, infinite, positive or negative. -/
lemma sign_of_scale {s : LogScale} (h : x.scale = .ok s) :
    s.sign = if x.isZero then 0
      else if x.isInfinite then (if x.isPositive then 2 else -2)
      else if x.isPositive then 1 else -1 := by
  cases zero : x.isZero with
  | true =>
    simp only [scale, zero, if_true] at h
    cases h
    rfl
  | false =>
    simp only [scale, zero, Bool.false_eq_true, if_false] at h ⊢
    generalize (if x.isPositive = true then (1 : Int) else -1) = sign at *
    generalize (if x.isPositive = true then (2 : Int) else -2) = extreme at *
    by_cases large : x.toDouble?.isNone = true
    · rw [if_pos large] at h
      cases h
    · by_cases infinite : x.isInfinite = true
      · simp only [large, infinite, if_true] at h ⊢
        cases h
        rfl
      · simp only [large, infinite] at h ⊢
        obtain ⟨log, -, h⟩ := bind_eq_ok.1 h
        cases h
        rfl

lemma sign_eq_side {s : LogScale} (h : x.scale = .ok s) : s.sign = x.place.side := by
  rw [sign_of_scale h]
  have zero : x.isZero = decide (x.place = .at 0) := rfl
  have positive : x.isPositive = (Place.at 0).isLeftOf x.place := by
    simp [isPositive, Number.compare, Place.compare_eq_gt, place]
  simp only [zero, isInfinite, positive]
  cases x.place with
  | «at» q =>
    simp only [Place.side, Place.isLeftOf, Place.at.injEq, decide_eq_true_eq]
    grind
  | _ => rfl

lemma compare_of_sign_lt {s t : LogScale} (hx : x.isNaN = false) (hy : y.isNaN = false)
    (hs : x.scale = .ok s) (ht : y.scale = .ok t) (h : s.sign < t.sign) :
    s.compare t = .lt ∧ x.compare y = .lt := by
  constructor
  · rw [LogScale.compare, if_pos h]
  · rw [sign_eq_side hs, sign_eq_side ht] at h
    exact Place.compare_eq_lt.2
      (Place.isLeftOf_of_side_lt (isNaN_eq_false.1 hx) (isNaN_eq_false.1 hy) h)

/-- Numbers whose measures differ in sign are in the order of their measures. -/
lemma compare_scale_of_sign_ne {s t : LogScale} (hx : x.isNaN = false) (hy : y.isNaN = false)
    (hs : x.scale = .ok s) (ht : y.scale = .ok t) (hne : s.sign ≠ t.sign) :
    s.compare t = x.compare y := by
  rcases lt_or_gt_of_ne hne with hlt | hgt
  · obtain ⟨h, h'⟩ := compare_of_sign_lt hx hy hs ht hlt
    rw [h, h']
  · obtain ⟨h, h'⟩ := compare_of_sign_lt hy hx ht hs hgt
    rw [LogScale.compare_swap t, Number.compare, Place.compare_swap y.place, h]
    exact congrArg Ordering.swap h'.symm

/-- The measure of a positive integer comes from the double nearest to it. -/
lemma scale_positive {i : Int} (positive : 0 < i) {d : Float} (h : (int i).toDouble? = some d) :
    (int i).scale = .ok (.ofLog 1 (Float.log10 d)) := by
  have nonzero : (int i).isZero = false := by
    simp [isZero, same, place, Place.at.injEq, positive.ne']
  have sign : (int i).isPositive = true := by
    simpa [isPositive, Number.compare, Place.compare_eq_gt, place, Place.isLeftOf]
      using Rat.intCast_pos.2 positive
  have abs : (int i).abs = int i := by
    simp only [Number.abs, Number.int.injEq]
    omega
  have log : (int i).logarithm Float.log10 = .ok (Float.log10 d) := by
    rw [logarithm, if_neg (by omega), h]
  simp only [scale, nonzero, h, sign, abs, log, Option.isNone_some, Bool.false_eq_true, if_false,
    isInfinite, place, if_true]
  rfl
end Number

namespace Numeral

/-- A power of integers, whose base and exponent may again be such powers. -/
inductive Whole : Numeral → Prop
  | literal (p : Option Position) (i : Int) : Whole (.literal p (.int i))
  | power (p : Option Position) {base exponent : Numeral} :
    Whole base → Whole exponent → Whole (.power p base exponent)

/-- A literal of a number other than the one that is not a number, or a power of integers. -/
def Placed (x : Numeral) : Prop :=
  (∃ p v, x = .literal p v ∧ v.isNaN = false) ∨ x.Whole

/-- The measures of two numerals that are computed are in the order of their values, if they are of
one sign. -/
def Consistent (x y : Numeral) : Prop :=
  ∀ a b s t, x.value? = .ok (some a) → y.value? = .ok (some b) →
    a.scale = .ok s → b.scale = .ok t → s.sign = t.sign → s.compare t = a.compare b

/-- What order the measures of two numerals are to be in is asked only where both are computed. -/
lemma consistent_of_symbolic {x y : Numeral} (h : x.Symbolic ∨ y.Symbolic) : Consistent x y := by
  rintro a b s t ha hb
  rw [Symbolic, Symbolic, ha, hb] at h
  simp at h

lemma consistent_self (x : Numeral) : Consistent x x := by
  intro a b s t ha hb hs ht _
  cases ha.symm.trans hb
  cases hs.symm.trans ht
  rw [LogScale.compare_self, Number.compare, Place.compare_self]

/-- Literals of different sign are in the order of their measures. -/
lemma consistent_of_side_ne {p q : Option Position} {u v : Number}
    (h : u.place.side ≠ v.place.side) : Consistent (.literal p u) (.literal q v) := by
  intro a b s t ha hb hs ht same
  cases ha
  cases hb
  rw [Number.sign_eq_side hs, Number.sign_eq_side ht] at same
  exact absurd same h

variable {x y z : Numeral} {o o' o'' : Ordering}

lemma Whole.value (hx : x.Whole) {v : Number} (hv : x.value? = .ok (some v)) : v.IsFinite := by
  induction hx generalizing v with
  | literal p i =>
    cases hv
    exact ⟨i, rfl⟩
  | power p _ _ ihb ihe =>
    rw [value?] at hv
    obtain ⟨b, hb, hv⟩ := bind_eq_ok.1 hv
    obtain ⟨e, he, hv⟩ := bind_eq_ok.1 hv
    rcases b with _ | b
    · cases hv
    · rcases e with _ | e
      · cases hv
      · exact (ihb hb).power (ihe he) hv

lemma Placed.value (hx : x.Placed) {v : Number} (hv : x.value? = .ok (some v)) :
    v.isNaN = false := by
  rcases hx with ⟨p, a, rfl, ha⟩ | hx
  · cases hv
    exact ha
  · exact (hx.value hv).isNaN

/-- The other way round, the answer is the opposite. -/
lemma compare_swap (h : x.compare y = .ok o) : y.compare x = .ok o.swap := by
  rw [compare_eq_ok] at h ⊢
  rcases h with ⟨a, b, ha, hb, rfl⟩ | ⟨symbolic, s, t, hs, ht, rfl⟩
  · exact .inl ⟨b, a, hb, ha, (Place.compare_swap _ _).symm⟩
  · exact .inr ⟨symbolic.symm, t, s, ht, hs, (LogScale.compare_swap _ _).symm⟩

/-- Measures of numerals are in the order that comparing the numerals gives. -/
lemma compare_scale (hx : x.Placed) (hy : y.Placed) (consistent : Consistent x y)
    {s t : LogScale} (hs : x.scale = .ok s) (ht : y.scale = .ok t) (h : x.compare y = .ok o) :
    s.compare t = o := by
  rcases compare_eq_ok.1 h with ⟨a, b, ha, hb, rfl⟩ | ⟨-, s', t', hs', ht', rfl⟩
  · rw [scale_eq ha] at hs
    rw [scale_eq hb] at ht
    by_cases sign : s.sign = t.sign
    · exact consistent a b s t ha hb hs ht sign
    · exact Number.compare_scale_of_sign_ne (hx.value ha) (hy.value hb) hs ht sign
  · rw [hs] at hs'
    rw [ht] at ht'
    cases hs'
    cases ht'
    rfl

/-- Two numerals that are compared and of which one is symbolic have measures. -/
lemma measured_of_compare (h : x.compare y = .ok o) (symbolic : x.Symbolic ∨ y.Symbolic) :
    x.Measured ∧ y.Measured :=
  (exists_compare_iff.1 ⟨o, h⟩).2.2 symbolic

/-- A numeral that is not symbolic is computed, where it is compared. -/
lemma value_of_compare (h : x.compare y = .ok o) (hx : ¬ x.Symbolic) :
    ∃ a, x.value? = .ok (some a) := by
  obtain ⟨⟨v, hv⟩, -⟩ := exists_compare_iff.1 ⟨o, h⟩
  cases v with
  | none => exact absurd hv hx
  | some a => exact ⟨a, hv⟩

/-- The order of numerals that are all computed. -/
lemma compare_trans_of_values {a b c : Number} (ha : x.value? = .ok (some a))
    (hb : y.value? = .ok (some b)) (hc : z.value? = .ok (some c)) (number : b.isNaN = false)
    (hxy : x.compare y = .ok o) (hyz : y.compare z = .ok o') (hxz : x.compare z = .ok o'')
    (h : o ≠ .gt) (h' : o' ≠ .gt) : o'' ≠ .gt := by
  rw [compare, ha, hb] at hxy
  rw [compare, hb, hc] at hyz
  rw [compare, ha, hc] at hxz
  cases hxy
  cases hyz
  cases hxz
  exact Place.compare_trans (Number.isNaN_eq_false.1 number) h h'

/-- What an order by measure needs to know of three numerals: the middle one has a logarithm that is
a number, and those that are computed are in the order of their measures. -/
structure Ranked (x y z : Numeral) : Prop where
  number : ∀ t, y.scale = .ok t → t.log.isNaN = false
  left : Consistent x y
  right : Consistent y z
  outer : Consistent x z

/-- The order of numerals that all have measures. -/
lemma compare_trans_of_scales (hx : x.Placed) (hy : y.Placed) (hz : z.Placed)
    (measured : x.Measured ∧ y.Measured ∧ z.Measured) (ranked : Ranked x y z)
    (hxy : x.compare y = .ok o) (hyz : y.compare z = .ok o') (hxz : x.compare z = .ok o'')
    (h : o ≠ .gt) (h' : o' ≠ .gt) : o'' ≠ .gt := by
  obtain ⟨⟨s, hs⟩, ⟨t, ht⟩, u, hu⟩ := measured
  rw [← compare_scale hx hy ranked.left hs ht hxy] at h
  rw [← compare_scale hy hz ranked.right ht hu hyz] at h'
  rw [← compare_scale hx hz ranked.outer hs hu hxz]
  exact LogScale.compare_trans (ranked.number t ht) h h'

/-- Comparing numerals the other way round gives the opposite, and not to be greater is transitive,
where all three numerals are computed or their measures are in order. -/
theorem compare_preorder {x y : Numeral} {o : Ordering} (hxy : x.compare y = .ok o) :
    y.compare x = .ok o.swap ∧
      ∀ {z : Numeral} {o' o'' : Ordering}, x.Placed → y.Placed → z.Placed →
        (x.Symbolic ∨ y.Symbolic ∨ z.Symbolic → Ranked x y z) →
        y.compare z = .ok o' → x.compare z = .ok o'' → o ≠ .gt → o' ≠ .gt → o'' ≠ .gt := by
  refine ⟨compare_swap hxy, ?_⟩
  intro z o' o'' hx hy hz ranked hyz hxz h h'
  by_cases symbolic : x.Symbolic ∨ y.Symbolic ∨ z.Symbolic
  · -- each of the three is compared by measure with one of the others
    have measured : x.Measured ∧ y.Measured ∧ z.Measured := by
      rcases symbolic with sx | sy | sz
      · have xy := measured_of_compare hxy (.inl sx)
        exact ⟨xy.1, xy.2, (measured_of_compare hxz (.inl sx)).2⟩
      · have yz := measured_of_compare hyz (.inl sy)
        exact ⟨(measured_of_compare hxy (.inr sy)).1, yz⟩
      · have yz := measured_of_compare hyz (.inr sz)
        exact ⟨(measured_of_compare hxz (.inr sz)).1, yz⟩
    exact compare_trans_of_scales hx hy hz measured (ranked symbolic) hxy hyz hxz h h'
  · simp only [not_or] at symbolic
    obtain ⟨sx, sy, sz⟩ := symbolic
    obtain ⟨a, ha⟩ := value_of_compare hxy sx
    obtain ⟨b, hb⟩ := value_of_compare hyz sy
    obtain ⟨c, hc⟩ := value_of_compare (compare_swap hyz) sz
    exact compare_trans_of_values ha hb hc (hy.value hb) hxy hyz hxz h h'

/-- One over ten to the four hundredth is positive, but too small for a double. -/
def speck : Numeral :=
  .power none (.literal none (.int (10 ^ (400 : Nat)))) (.literal none (.int (-1)))

/-- A literal integer. -/
def integer (i : Int) : Numeral :=
  .literal none (.int i)

/-- The small power stays symbolic, is positive and has a logarithm.  Minus five has a measure. -/
lemma speck_spec : speck.value? = .ok none ∧ speck.sign = .ok 1 ∧ speck.log10.isOk ∧
    (integer (-5)).scale.isOk := by
  decide +kernel

lemma symbolic_speck : speck.Symbolic :=
  speck_spec.1

lemma sign_speck : speck.sign = .ok 1 :=
  speck_spec.2.1

lemma scale_speck : ∃ t, speck.scale = .ok t ∧ t.sign = 1 := by
  have log : ∃ l, speck.log10 = .ok l := by
    have := speck_spec.2.2.1
    cases h : speck.log10 <;> simp_all [Except.isOk, Except.toBool]
  obtain ⟨l, hl⟩ := log
  rw [scale_eq symbolic_speck, scaleWith, sign_speck]
  exact ⟨.ofLog 1 l, by rw [hl]; rfl, rfl⟩

lemma placed_integer (i : Int) : (integer i).Placed :=
  .inr (.literal none i)

lemma scale_integer (i : Int) : (integer i).scale = (Number.int i).scale := by
  show _ = (integer i).scaleWith (some (.int i))
  exact scale_eq rfl

lemma scale_zero : (integer 0).scale = .ok ⟨0, 0⟩ := by
  rfl

lemma scale_minus : ∃ s, (integer (-5)).scale = .ok s ∧ s.sign = -1 := by
  obtain ⟨s, hs⟩ := measured_iff_isOk.2 speck_spec.2.2.2
  exact ⟨s, hs, Number.sign_eq_side ((scale_integer _).symm.trans hs)⟩

/-- Minus five, zero and a power too small for a double are in this order. -/
theorem compare_preorder_speck :
    speck.compare (integer 0) = .ok .gt ∧
      ∃ o, (integer (-5)).compare speck = .ok o ∧ o ≠ .gt := by
  obtain ⟨t, ht, sign⟩ := scale_speck
  obtain ⟨s, hs, sign'⟩ := scale_minus
  have low : (integer (-5)).compare (integer 0) = .ok .lt := by decide +kernel
  have middle : (integer 0).compare speck = .ok .lt :=
    compare_eq_ok.2 (.inr ⟨.inr symbolic_speck, _, t, scale_zero, ht,
      by rw [LogScale.compare, if_pos (by rw [sign]; decide)]⟩)
  have outer : (integer (-5)).compare speck = .ok (s.compare t) :=
    compare_eq_ok.2 (.inr ⟨.inr symbolic_speck, s, t, hs, ht, rfl⟩)
  have ranked : Ranked (integer (-5)) (integer 0) speck := by
    refine ⟨fun t ht => ?_, ?_, consistent_of_symbolic (.inr symbolic_speck),
      consistent_of_symbolic (.inr symbolic_speck)⟩
    · cases scale_zero.symm.trans ht
      decide +kernel
    · exact consistent_of_side_ne (by decide)
  exact ⟨(compare_preorder middle).1, _, outer,
    (compare_preorder low).2 (placed_integer _) (placed_integer _)
      (.inr (.power _ (.literal _ _) (.literal _ _))) (fun _ => ranked) middle outer (by decide)
      (by decide)⟩

/-- Zero to the power of that number has the logarithm of zero, but is symbolic. -/
def nought : Numeral :=
  .power none (integer 0) speck

/-- The power of that to zero has no logarithm. -/
def obscure : Numeral :=
  .power none nought (integer 0)

lemma symbolic_nought : nought.Symbolic := by
  rw [Symbolic, nought, value?, symbolic_speck]
  rfl

lemma symbolic_obscure : obscure.Symbolic := by
  rw [Symbolic, obscure, value?, symbolic_nought]
  rfl

lemma log10_nought : nought.log10 = .ok (-Double.infinity * Double.infinity) := by
  rw [nought, log10, symbolic_speck, sign_speck]
  rfl

lemma log10_obscure : obscure.log10 = .ok (-Double.infinity * Double.infinity * 0) := by
  rw [obscure, log10, log10_nought]
  rfl

lemma sign_nought : nought.sign = .ok 0 := by
  rw [nought, sign, symbolic_speck]
  rfl

lemma sign_obscure : obscure.sign = .ok 0 := by
  rw [obscure, sign, symbolic_nought, sign_nought]
  rfl

lemma scale_nought : nought.scale = .ok ⟨0, Double.infinity⟩ := by
  have log : -(-Double.infinity * Double.infinity) = Double.infinity := by cbv
  rw [scale_eq symbolic_nought, scaleWith, sign_nought, log10_nought, ← log]
  rfl

lemma scale_obscure : obscure.scale = .ok ⟨0, Double.nan⟩ := by
  have log : -(-Double.infinity * Double.infinity * 0) = Double.nan := by decide +kernel
  rw [scale_eq symbolic_obscure, scaleWith, sign_obscure, log10_obscure, ← log]
  rfl

/-- A power without a logarithm is neither less nor greater than numerals that are not in order. -/
theorem not_compare_preorder_obscure :
    nought.Whole ∧ obscure.Whole ∧ (integer 0).Whole ∧
      nought.compare obscure = .ok .eq ∧ obscure.compare (integer 0) = .ok .eq ∧
      nought.compare (integer 0) = .ok .gt := by
  have zero : (integer 0).Whole := .literal _ _
  have nought_whole : nought.Whole := .power _ zero (.power _ (.literal _ _) (.literal _ _))
  refine ⟨nought_whole, .power _ nought_whole zero, zero, ?_, ?_, ?_⟩
  · exact compare_eq_ok.2 (.inr ⟨.inl symbolic_nought, _, _, scale_nought, scale_obscure,
      by decide +kernel⟩)
  · exact compare_eq_ok.2 (.inr ⟨.inl symbolic_obscure, _, _, scale_obscure, scale_zero,
      by decide +kernel⟩)
  · exact compare_eq_ok.2 (.inr ⟨.inl symbolic_nought, _, _, scale_nought, scale_zero,
      by decide +kernel⟩)

end Numeral

end TypeNotation
