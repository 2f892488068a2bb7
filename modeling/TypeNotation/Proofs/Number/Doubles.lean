import Mathlib
import TypeNotation.Number.Double

/-!
# The order of doubles

Every double has a rank, except for the one that is not a number.  One double is less than another
if both have ranks and these are in order.  So doubles that are numbers are in a linear order, up to
the sign of zero.

Whether a double is finite can be told from its place: the exponent of what is not finite has all
bits set.
-/

namespace TypeNotation

namespace Double

open Float.Model

/-- The rank of an unpacked double: first by what kind of number it is, then by exponent and
significand. -/
def unpackedRank? : UnpackedFloat → Option (Int ×ₗ Int ×ₗ Int)
  | .notANumber => none
  | .infinity .negative => some (toLex (-2, toLex (0, 0)))
  | .finite .negative m e _ => some (toLex (-1, toLex (-e, -(m : Int))))
  | .zero _ => some (toLex (0, toLex (0, 0)))
  | .finite .positive m e _ => some (toLex (1, toLex (e, (m : Int))))
  | .infinity .positive => some (toLex (2, toLex (0, 0)))

/-- The rank of a double. -/
def rank? (x : Float) : Option (Int ×ₗ Int ×ₗ Int) :=
  unpackedRank? x.toModel.unpack

variable {x y z : Float}

lemma isSome_rank? (h : x.isNaN = false) : ∃ r, rank? x = some r := by
  have number : x.toModel.unpack.isNaN = false := h
  rw [rank?]
  generalize x.toModel.unpack = a at number ⊢
  rcases a with ⟨_ | _⟩ | _ | _ | ⟨_ | _, m, e, _⟩
  case notANumber => cases number
  all_goals exact ⟨_, rfl⟩

lemma lt_unpacked {a b : UnpackedFloat} :
    a.lt b = true ↔ ∃ r s, unpackedRank? a = some r ∧ unpackedRank? b = some s ∧ r < s := by
  rcases a with ⟨_ | _⟩ | _ | _ | ⟨_ | _, m, e, _⟩ <;>
    rcases b with ⟨_ | _⟩ | _ | _ | ⟨_ | _, n, f, _⟩ <;>
    dsimp only [UnpackedFloat.lt, UnpackedFloat.compare, unpackedRank?] <;>
    simp [Prod.Lex.toLex_lt_toLex]
  case infinity.negative.infinity.positive => rfl
  case finite.negative.finite.negative =>
    rw [Ordering.then_eq_gt, Int.compare_eq_gt, compare_eq_iff_eq, Nat.compare_eq_gt]
  case finite.positive.finite.positive =>
    rw [Ordering.then_eq_lt, Int.compare_eq_lt, compare_eq_iff_eq, Nat.compare_eq_lt]

lemma lt_iff : x < y ↔ ∃ r s, rank? x = some r ∧ rank? y = some s ∧ r < s := by
  rw [rank?, rank?, ← lt_unpacked]
  show (decide (x.toModel < y.toModel)) = true ↔ _
  rw [decide_eq_true_iff]
  rfl

lemma not_lt_of_lt (h : x < y) : ¬ y < x := by
  intro h'
  obtain ⟨r, s, hr, hs, hlt⟩ := lt_iff.1 h
  obtain ⟨s', r', hs', hr', hlt'⟩ := lt_iff.1 h'
  rw [hs] at hs'
  rw [hr] at hr'
  cases hs'
  cases hr'
  exact lt_asymm hlt hlt'

/-- Not to be greater passes on along a number. -/
lemma not_lt_trans (hy : y.isNaN = false) (h : ¬ y < x) (h' : ¬ z < y) : ¬ z < x := by
  intro hlt
  obtain ⟨t, r, ht, hr, hlt⟩ := lt_iff.1 hlt
  obtain ⟨s, hs⟩ := isSome_rank? hy
  have hrs : r ≤ s := not_lt.1 fun hsr => h (lt_iff.2 ⟨s, r, hs, hr, hsr⟩)
  have hst : s ≤ t := not_lt.1 fun hts => h' (lt_iff.2 ⟨t, s, ht, hs, hts⟩)
  exact absurd hlt (not_lt.2 (hrs.trans hst))

/-- The exponent of a bit pattern, as it is read off the number and as the core library unpacks
it. -/
lemma exponent_parts : (parts x).exponent =
    (@UnpackedFloat.unpackExponent .binary64 x.toModel.toBits.toBitVec).toNat := by
  have bits : x.toBits.toNat = x.toModel.toBits.toBitVec.toNat := rfl
  simp only [parts, bits, UnpackedFloat.unpackExponent, BitVec.toNat_cast,
    BitVec.extractLsb_toNat, Nat.shiftRight_eq_div_pow]

lemma isFinite_iff : x.isFinite = true ↔ (parts x).exponent ≠ 2047 := by
  rw [exponent_parts]
  show (UnpackedFloat.unpack .binary64 x.toModel.toBits.toBitVec).isFinite = true ↔ _
  have all : @UnpackedFloat.unpackExponent .binary64 x.toModel.toBits.toBitVec = -1#_ ↔
      (@UnpackedFloat.unpackExponent .binary64 x.toModel.toBits.toBitVec).toNat = 2047 := by
    rw [← BitVec.toNat_inj]
    rfl
  rw [Ne, ← all]
  delta UnpackedFloat.unpack
  dsimp only
  split
  · next top => split <;> exact iff_of_false Bool.false_ne_true fun low => low top
  · next low =>
    split
    · split <;> exact iff_of_true rfl low
    · exact iff_of_true rfl low

lemma isFinite_of_place {q : Rat} (h : place x = .at q) : x.isFinite = true := by
  rw [isFinite_iff]
  intro top
  simp only [place, top, if_true] at h
  split_ifs at h

lemma exists_place_of_isFinite (h : x.isFinite = true) : ∃ q, place x = .at q := by
  rw [isFinite_iff] at h
  exact ⟨_, by simp only [place, h, if_false]; rfl⟩

lemma isFinite_of_not (hnan : x.isNaN = false) (hinf : x.isInf = false) : x.isFinite = true := by
  have hnan : x.toModel.unpack.isNaN = false := hnan
  have hinf : x.toModel.unpack.isInf = false := hinf
  show x.toModel.unpack.isFinite = true
  generalize x.toModel.unpack = a at *
  cases a with
  | notANumber => cases hnan
  | infinity => cases hinf
  | zero => rfl
  | finite => rfl

end Double

end TypeNotation
