import WireSchema.Proofs.Documents
import Mathlib.Algebra.Order.Field.Rat
import Mathlib.Algebra.Order.Ring.Cast
import Mathlib.Data.Int.Cast.Lemmas

/-!
# The numbers that JSON numbers are

A number of a document comes in one of three forms: as an integer with or without a sign, or as a
double. What it is does not depend on the form: `value` gives it as a rational number, and `Admits`
says which rational numbers a numeric type has room for. The checks look at patterns of bits and at
magnitudes in units instead; for every number that JSON can write, they come to the same.
-/

namespace WireSchema

open BinaryFormat

namespace BinaryFormat

variable {f : BinaryFormat}

/-- Rounding goes at most to the next power of two. -/
theorem round_le_of_lt {num den k : Nat} (hd : 0 < den)
    (h : num < 2 ^ (f.fractionBits + (k + 1)) * den) :
    f.round num den ≤ (k + 2) * 2 ^ f.fractionBits := by
  have hq : num / den < 2 ^ (f.fractionBits + (k + 1)) := (Nat.div_lt_iff_lt_mul hd).mpr h
  obtain ⟨e, he⟩ : ∃ e, (num / den).log2 - f.fractionBits = e := ⟨_, rfl⟩
  have hshift : e ≤ k := by
    by_cases hz : num / den = 0
    · rw [hz, Nat.log2_zero] at he
      omega
    · have := (Nat.log2_lt hz).mpr hq
      omega
  calc f.round num den ≤ e * 2 ^ f.fractionBits + 2 * 2 ^ f.fractionBits :=
        round_le hd he (Nat.le_of_lt (he ▸ lt_spacing hd))
    _ = (e + 2) * 2 ^ f.fractionBits := (Nat.add_mul ..).symm
    _ ≤ (k + 2) * 2 ^ f.fractionBits := Nat.mul_le_mul_right _ (by omega)

/-- A pattern below that of a power of two has less than twice its magnitude. -/
theorem magnitude_lt {p k : Nat} (h : f.unsigned p < (k + 2) * 2 ^ f.fractionBits) :
    f.magnitude p < 2 ^ (f.fractionBits + (k + 1)) := by
  have hshift : f.shift p ≤ k := by
    have := (Nat.div_lt_iff_lt_mul (Nat.two_pow_pos _)).mpr h
    unfold shift
    omega
  calc f.magnitude p < 2 * 2 ^ f.fractionBits * 2 ^ f.shift p :=
        Nat.mul_lt_mul_of_pos_right (normal_parts p).lt (Nat.two_pow_pos _)
    _ ≤ 2 * 2 ^ f.fractionBits * 2 ^ k :=
        Nat.mul_le_mul_left _ (Nat.pow_le_pow_right (by decide) hshift)
    _ = 2 ^ (f.fractionBits + (k + 1)) := by
        rw [Nat.mul_comm 2, ← Nat.pow_succ, ← Nat.pow_add]
        congr 1
        omega

end BinaryFormat

/-! ## Doubles -/

/-- The largest finite single. -/
def largestSingle : Nat := (2 ^ (24 : Nat) - 1) * 2 ^ (104 : Nat)

namespace Double

/-- The number that a finite double is. -/
def value (x : Double) : ℚ :=
  if x.isNegative then -(x.magnitude / one) else x.magnitude / one

theorem one_pos : (0 : ℚ) < one := by
  exact_mod_cast Nat.two_pow_pos double.unitsPerOne

theorem abs_value (x : Double) : |x.value| = x.magnitude / one := by
  have hnonneg : (0 : ℚ) ≤ x.magnitude / one := div_nonneg (Nat.cast_nonneg _) one_pos.le
  unfold value
  split
  · rw [abs_neg, abs_of_nonneg hnonneg]
  · exact abs_of_nonneg hnonneg

/-- **The integer that is read off a double is its value**, and there is none if that is broken. -/
theorem toInt?_eq_some {x : Double} (hx : x.isFinite = true) {i : Int} :
    x.toInt? = some i ↔ x.value = i := by
  have hone : (one : ℚ) ≠ 0 := one_pos.ne'
  unfold toInt?
  rw [hx, Bool.true_and]
  by_cases hmod : x.magnitude % one = 0
  · obtain ⟨q, hq⟩ := Nat.dvd_of_mod_eq_zero hmod
    have hdiv : (x.magnitude / one : ℚ) = q := by
      rw [hq, Nat.cast_mul, mul_div_cancel_left₀ _ hone]
    have hquot : x.magnitude / one = q := by
      rw [hq, Nat.mul_div_cancel_left q (show 0 < one from Nat.two_pow_pos _)]
    rw [if_pos (beq_iff_eq.mpr hmod), value, hdiv, hquot]
    dsimp only
    rw [Option.some_inj]
    split
    · rw [← Int.cast_natCast (R := ℚ) q, ← Int.cast_neg, Int.cast_inj]
    · rw [← Int.cast_natCast (R := ℚ) q, Int.cast_inj]
  · rw [if_neg (by simpa using hmod)]
    refine ⟨fun h => absurd h (by simp), fun h => absurd ?_ hmod⟩
    have hunits : x.magnitude = i.natAbs * one := by
      have habs := x.abs_value
      rw [h, eq_div_iff hone, ← Int.cast_abs, Int.abs_eq_natAbs] at habs
      exact_mod_cast habs.symm
    rw [hunits, Nat.mul_mod_left]

end Double

theorem Single.magnitude_largest_eq : largest.magnitude = largestSingle * Double.one := by
  have hbits : 2 * 2 ^ single.fractionBits - 1 = 2 ^ (24 : Nat) - 1 := by decide
  have hshift : double.unitsPerOne - single.unitsPerOne + 253 = 104 + double.unitsPerOne := by decide
  rw [magnitude_largest, largestSingle, Nat.mul_assoc, unit, Double.one, ← Nat.pow_add,
    ← Nat.pow_add, hbits, hshift]

namespace Double

theorem exceedsSingle_iff {x : Double} (hx : x.isFinite = true) :
    x.exceedsSingle = true ↔ (largestSingle : ℚ) < |x.value| := by
  rw [exceedsSingle, hx, Bool.true_and, decide_eq_true_iff, Single.magnitude_largest_eq, abs_value,
    lt_div_iff₀ one_pos]
  norm_cast

/-- No integer of 64 bits is too large for a single. -/
theorem exceedsSingle_ofInt {i : Int} (h : i.natAbs ≤ 2 ^ (64 : Nat)) :
    (ofInt i).exceedsSingle = false := by
  -- in units, `2 ^ 64` is `2 ^ (64 + 1074)`, and rounding may go up to the next power of two
  have hround : double.round (i.natAbs * one) 1 ≤ (1086 + 2) * 2 ^ double.fractionBits := by
    refine round_le_of_lt Nat.one_pos ?_
    calc i.natAbs * one ≤ 2 ^ (64 : Nat) * one := Nat.mul_le_mul_right _ h
      _ < 2 ^ (double.fractionBits + (1086 + 1)) * 1 := by
        rw [Nat.mul_one, one, ← Nat.pow_add]
        exact Nat.pow_lt_pow_right (by decide) (by decide)
  have hsign : double.round (i.natAbs * one) 1 < double.signBit :=
    Nat.lt_of_le_of_lt (round_le_infinity _ _) infinity_lt_signBit
  have hmag : (ofInt i).magnitude < 2 ^ (double.fractionBits + (1087 + 1)) := by
    refine magnitude_lt ?_
    rw [ofInt, (ofPattern_withSign hsign _).2]
    exact Nat.lt_of_le_of_lt hround (Nat.mul_lt_mul_of_pos_right (by decide) (Nat.two_pow_pos _))
  have hlargest : 2 ^ (double.fractionBits + (1087 + 1)) ≤ Single.largest.magnitude := by
    rw [Single.magnitude_largest_eq, largestSingle, Nat.mul_assoc, one, ← Nat.pow_add]
    exact Nat.le_trans (Nat.pow_le_pow_right (by decide) (by decide))
      (Nat.le_mul_of_pos_left _ (by decide))
  rw [exceedsSingle, decide_eq_false (by omega), Bool.and_false]

end Double

/-! ## Numbers of documents -/

namespace Number

/-- The number that is meant. -/
def value : Number → ℚ
  | .int i => i
  | .float x => x.value

/-- **A number stands for the integer it is**, unless that is far out of every range. -/
theorem toInt?_eq_some {n : Number} (hn : n.Valid) {i : Int} :
    n.toInt? = some i ↔ n.value = i ∧ i.natAbs < integerLimit := by
  cases n with
  | int j =>
    have hj : -(2 : Int) ^ 63 ≤ j ∧ j < 2 ^ 64 := hn
    have hlimit : j.natAbs < integerLimit := by
      unfold integerLimit
      omega
    rw [toInt?, value, Option.some_inj, Int.cast_inj]
    exact ⟨fun h => ⟨h, h ▸ hlimit⟩, fun h => h.1⟩
  | float x =>
    rw [toInt?, value, Option.filter_eq_some_iff, Double.toInt?_eq_some hn, decide_eq_true_iff]

theorem exceedsSingle_iff {n : Number} (hn : n.Valid) :
    n.toDouble.exceedsSingle = true ↔ (largestSingle : ℚ) < |n.value| := by
  cases n with
  | int i =>
    have hi : -(2 : Int) ^ 63 ≤ i ∧ i < 2 ^ 64 := hn
    have hbound : i.natAbs ≤ 2 ^ (64 : Nat) := by omega
    have hsmall : i.natAbs ≤ largestSingle := Nat.le_trans hbound (by decide)
    rw [toDouble, Double.exceedsSingle_ofInt hbound, value, ← Int.cast_abs, Int.abs_eq_natAbs]
    refine ⟨fun h => absurd h (by simp), fun h => ?_⟩
    have : largestSingle < i.natAbs := by exact_mod_cast h
    omega
  | float x => exact Double.exceedsSingle_iff hn

end Number

/-- An integer lies in the signed range of a numeric type. -/
def Numeric.InRange (k : Numeric) (i : Int) : Prop :=
  -(2 : Int) ^ (8 * k.width - 1) ≤ i ∧ i < (2 : Int) ^ (8 * k.width - 1)

theorem Numeric.InRange.natAbs_lt {k : Numeric} {i : Int} (h : k.InRange i) :
    i.natAbs < integerLimit := by
  have hwide : -(2 : Int) ^ (63 : Nat) ≤ i ∧ i < (2 : Int) ^ (63 : Nat) := by
    cases k <;> simp only [InRange, width] at h <;> omega
  unfold integerLimit
  omega

/-- The numbers that a numeric type has room for. -/
def Numeric.Admits : Numeric → Number → Prop
  | .float64, _ => True
  | .float32, n => |n.value| ≤ largestSingle
  | k, n => ∃ i : Int, n.value = i ∧ k.InRange i

/-- **The check of a number looks at its value.** -/
theorem Number.fits_iff {n : Number} (hn : n.Valid) (k : Numeric) : n.Fits k ↔ k.Admits n := by
  have hinteger : (n.integer? k).isSome ↔ ∃ i : Int, n.value = i ∧ k.InRange i := by
    rw [Option.isSome_iff_exists]
    refine exists_congr fun i => ?_
    rw [integer?, Option.filter_eq_some_iff, toInt?_eq_some hn, fitsWidth, decide_eq_true_iff]
    exact ⟨fun h => ⟨h.1.1, h.2⟩, fun h => ⟨⟨h.1, h.2.natAbs_lt⟩, h.2⟩⟩
  cases k with
  | float64 => exact Iff.rfl
  | float32 =>
    rw [Fits, Numeric.Admits, ← not_lt, ← exceedsSingle_iff hn, Bool.not_eq_true]
  | _ => exact hinteger

end WireSchema
