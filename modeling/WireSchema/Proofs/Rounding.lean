import WireSchema.Data.Fit

/-!
# Narrowing and widening

A single is a double: widening it rounds nothing, so narrowing the result gives back the same bits.
A double need not be a single, but one that passes the range check rounds to a finite one.

What is not above the largest finite number of a format rounds to a finite one, and what is not
below a power of two is not rounded below it.

All of this rests on one fact about patterns. A pattern is
`shift * 2 ^ fractionBits + significand` for a shift and a significand in *normal form*, and
rounding `significand * 2 ^ shift` in normal form is putting the two back together.
-/

namespace WireSchema

theorem roundHalfEven_mul (q : Nat) {den : Nat} (hd : 0 < den) :
    roundHalfEven (q * den) den = q := by
  unfold roundHalfEven
  have hdiv : q * den / den = q := Nat.mul_div_cancel q hd
  have hmod : q * den % den = 0 := Nat.mul_mod_left q den
  rw [hdiv, hmod]
  dsimp only
  rw [if_neg (by omega)]

/-- Rounding never passes a whole number. -/
theorem roundHalfEven_le {num den q : Nat} (hd : 0 < den) (h : num ≤ q * den) :
    roundHalfEven num den ≤ q := by
  rcases Nat.eq_or_lt_of_le h with rfl | hlt
  · exact Nat.le_of_eq (roundHalfEven_mul q hd)
  · have hq : num / den < q := (Nat.div_lt_iff_lt_mul hd).mpr hlt
    unfold roundHalfEven
    dsimp only
    split <;> omega

theorem log2_mul_two_pow {n : Nat} (hn : n ≠ 0) (k : Nat) : (n * 2 ^ k).log2 = n.log2 + k := by
  have hpos : n * 2 ^ k ≠ 0 := Nat.mul_ne_zero hn (Nat.ne_of_gt (Nat.two_pow_pos k))
  rw [Nat.log2_eq_iff hpos]
  constructor
  · rw [Nat.pow_add]
    exact Nat.mul_le_mul_right _ (Nat.log2_self_le hn)
  · rw [show n.log2 + k + 1 = n.log2 + 1 + k by omega, Nat.pow_add]
    exact Nat.mul_lt_mul_of_pos_right Nat.lt_log2_self (Nat.two_pow_pos _)

namespace BinaryFormat

variable (f : BinaryFormat)

/--
A significand and a shift in the form in which a pattern holds them: the leading bit is there,
unless nothing is shifted.
-/
structure Normal (significand shift : Nat) : Prop where
  lt : significand < 2 * 2 ^ f.fractionBits
  leading : shift = 0 ∨ 2 ^ f.fractionBits ≤ significand

variable {f}

theorem unsigned_eq (p : Nat) :
    f.unsigned p = f.shift p * 2 ^ f.fractionBits + f.significand p := by
  have hle : f.shift p * 2 ^ f.fractionBits ≤ f.unsigned p :=
    Nat.le_trans (Nat.mul_le_mul_right _ (Nat.sub_le _ _)) (Nat.div_mul_le_self _ _)
  unfold significand
  omega

theorem normal_parts (p : Nat) : f.Normal (f.significand p) (f.shift p) := by
  have hP : 0 < 2 ^ f.fractionBits := Nat.two_pow_pos _
  have hu := unsigned_eq (f := f) p
  have hdiv := Nat.div_add_mod (f.unsigned p) (2 ^ f.fractionBits)
  have hmod := Nat.mod_lt (f.unsigned p) hP
  have hshift : f.shift p = f.unsigned p / 2 ^ f.fractionBits - 1 := rfl
  generalize f.unsigned p / 2 ^ f.fractionBits = q at hdiv hshift
  cases q with
  | zero =>
    rw [hshift] at hu ⊢
    exact ⟨by omega, Or.inl rfl⟩
  | succ q =>
    rw [hshift, Nat.add_sub_cancel] at hu ⊢
    rw [Nat.mul_succ, Nat.mul_comm] at hdiv
    exact ⟨by omega, Or.inr (by omega)⟩

/-- What normal form is put together to, it is taken apart from. -/
theorem parts_of_normal {m e : Nat} (h : f.Normal m e)
    (hlt : e * 2 ^ f.fractionBits + m < f.signBit) :
    f.shift (e * 2 ^ f.fractionBits + m) = e ∧ f.significand (e * 2 ^ f.fractionBits + m) = m := by
  have hP : 0 < 2 ^ f.fractionBits := Nat.two_pow_pos _
  have hu : f.unsigned (e * 2 ^ f.fractionBits + m) = e * 2 ^ f.fractionBits + m :=
    Nat.mod_eq_of_lt hlt
  have hq : (e * 2 ^ f.fractionBits + m) / 2 ^ f.fractionBits = e + m / 2 ^ f.fractionBits := by
    rw [Nat.add_comm, Nat.add_mul_div_right _ _ hP, Nat.add_comm]
  have hm : m / 2 ^ f.fractionBits ≤ 1 :=
    Nat.lt_succ_iff.mp ((Nat.div_lt_iff_lt_mul hP).mpr h.lt)
  have hshift : f.shift (e * 2 ^ f.fractionBits + m) = e := by
    rw [shift, hu, hq]
    rcases h.leading with he | hle
    · omega
    · have := (Nat.one_le_div_iff hP).mpr hle
      omega
  refine ⟨hshift, ?_⟩
  rw [significand, hshift, hu, Nat.add_sub_cancel_left]

theorem magnitude_of_normal {m e : Nat} (h : f.Normal m e)
    (hlt : e * 2 ^ f.fractionBits + m < f.signBit) :
    f.magnitude (e * 2 ^ f.fractionBits + m) = m * 2 ^ e := by
  obtain ⟨hshift, hsig⟩ := parts_of_normal h hlt
  rw [magnitude, hshift, hsig]

/-- **Normal form is not rounded.** -/
theorem round_normal {m e d : Nat} (h : f.Normal m e) (hd : 0 < d) :
    f.round (m * 2 ^ e * d) d = min (e * 2 ^ f.fractionBits + m) f.infinity := by
  have hlog : (m * 2 ^ e).log2 - f.fractionBits = e := by
    by_cases hm : m = 0
    · -- nothing to shift: zero has no leading bit
      have hP : 0 < 2 ^ f.fractionBits := Nat.two_pow_pos _
      have he : e = 0 := by rcases h.leading with he | hle <;> omega
      rw [hm, he]
      simp
    · rw [log2_mul_two_pow hm]
      have hup : m.log2 < f.fractionBits + 1 := by
        rw [Nat.log2_lt hm, Nat.pow_succ, Nat.mul_comm]
        exact h.lt
      rcases h.leading with he | hle
      · omega
      · have := (Nat.le_log2 hm).mpr hle
        omega
  unfold round
  dsimp only
  rw [Nat.mul_div_cancel _ hd, hlog, Nat.mul_assoc, Nat.mul_comm (2 ^ e) d,
    roundHalfEven_mul m (Nat.mul_pos hd (Nat.two_pow_pos _))]

/-- A finite pattern is the one its magnitude rounds to. -/
theorem round_magnitude {p d : Nat} (hp : f.isFinite p = true) (hd : 0 < d) :
    f.round (f.magnitude p * d) d = f.unsigned p := by
  have hlt : f.unsigned p < f.infinity := of_decide_eq_true hp
  rw [magnitude, round_normal (normal_parts p) hd, ← unsigned_eq]
  exact Nat.min_eq_left (Nat.le_of_lt hlt)

/-- A number whose significant bits fit is rounded to a pattern of its own magnitude. -/
theorem magnitude_round {m k : Nat} (hm : m < 2 * 2 ^ f.fractionBits) (hk : f.fractionBits ≤ k)
    (hlt : (k + 2) * 2 ^ f.fractionBits < f.infinity) (hinf : f.infinity ≤ f.signBit) :
    f.round (m * 2 ^ k) 1 < f.infinity ∧ f.magnitude (f.round (m * 2 ^ k) 1) = m * 2 ^ k := by
  obtain ⟨m', e, hn, he, heq⟩ :
      ∃ m' e, f.Normal m' e ∧ e ≤ k ∧ m' * 2 ^ e = m * 2 ^ k := by
    by_cases hz : m = 0
    · exact ⟨0, 0, ⟨by have := Nat.two_pow_pos f.fractionBits; omega,
        Or.inl rfl⟩, Nat.zero_le k, by rw [hz]; simp⟩
    · -- the leading bit is moved up to its place
      have hlog : m.log2 < f.fractionBits + 1 := by
        rw [Nat.log2_lt hz, Nat.pow_succ, Nat.mul_comm]
        exact hm
      have hlo := Nat.log2_self_le hz
      have hhi := Nat.lt_log2_self (n := m)
      have hup : m.log2 + (f.fractionBits - m.log2) = f.fractionBits := by omega
      refine ⟨m * 2 ^ (f.fractionBits - m.log2), k - (f.fractionBits - m.log2), ⟨?_, Or.inr ?_⟩,
        Nat.sub_le _ _, ?_⟩
      · calc m * 2 ^ (f.fractionBits - m.log2)
            < 2 ^ (m.log2 + 1) * 2 ^ (f.fractionBits - m.log2) :=
              Nat.mul_lt_mul_of_pos_right hhi (Nat.two_pow_pos _)
          _ = 2 * 2 ^ f.fractionBits := by
              rw [← Nat.pow_add, show m.log2 + 1 + (f.fractionBits - m.log2) = f.fractionBits + 1
                by omega, Nat.pow_succ, Nat.mul_comm]
      · calc 2 ^ f.fractionBits = 2 ^ m.log2 * 2 ^ (f.fractionBits - m.log2) := by
              rw [← Nat.pow_add, hup]
          _ ≤ m * 2 ^ (f.fractionBits - m.log2) := Nat.mul_le_mul_right _ hlo
      · rw [Nat.mul_assoc, ← Nat.pow_add]
        congr 2
        omega
  have hsum : e * 2 ^ f.fractionBits + m' < f.infinity := by
    have hle : e * 2 ^ f.fractionBits ≤ k * 2 ^ f.fractionBits := Nat.mul_le_mul_right _ he
    have := hn.lt
    rw [Nat.add_mul] at hlt
    omega
  have hround : f.round (m * 2 ^ k) 1 = e * 2 ^ f.fractionBits + m' := by
    have := round_normal hn (d := 1) (by decide)
    rw [Nat.mul_one, heq] at this
    rw [this, Nat.min_eq_left (Nat.le_of_lt hsum)]
  rw [hround]
  exact ⟨hsum, by rw [magnitude_of_normal hn (Nat.lt_of_lt_of_le hsum hinf), heq]⟩

/-- What lies below `bound` times the spacing around it is rounded below that bound. -/
theorem round_le {num den bound e : Nat} (hd : 0 < den)
    (he : (num / den).log2 - f.fractionBits = e) (h : num ≤ bound * (den * 2 ^ e)) :
    f.round num den ≤ e * 2 ^ f.fractionBits + bound := by
  unfold round
  dsimp only
  rw [he]
  have := roundHalfEven_le (Nat.mul_pos hd (Nat.two_pow_pos e)) h
  omega

/-- The spacing around a number leaves room for one bit more than the stored fraction has. -/
theorem lt_spacing {num den : Nat} (hd : 0 < den) :
    num < 2 * 2 ^ f.fractionBits * (den * 2 ^ ((num / den).log2 - f.fractionBits)) := by
  have hlog := Nat.lt_log2_self (n := num / den)
  have hle : 2 ^ ((num / den).log2 + 1)
      ≤ 2 * 2 ^ f.fractionBits * 2 ^ ((num / den).log2 - f.fractionBits) := by
    rw [Nat.mul_comm 2, ← Nat.pow_succ, ← Nat.pow_add]
    exact Nat.pow_le_pow_right (by decide) (by omega)
  have hq := (Nat.div_lt_iff_lt_mul hd).mp (Nat.lt_of_lt_of_le hlog hle)
  rwa [Nat.mul_comm den, ← Nat.mul_assoc]

theorem round_le_infinity (num den : Nat) : f.round num den ≤ f.infinity :=
  Nat.min_le_right _ _

/-- What is not below a power of two is not rounded below it. -/
theorem le_round {num den k : Nat} (hd : 0 < den) (h : 2 ^ (f.fractionBits + k) * den ≤ num) :
    min ((k + 1) * 2 ^ f.fractionBits) f.infinity ≤ f.round num den := by
  have hq : 2 ^ (f.fractionBits + k) ≤ num / den := (Nat.le_div_iff_mul_le hd).mpr h
  have hz : num / den ≠ 0 := Nat.ne_of_gt (Nat.lt_of_lt_of_le (Nat.two_pow_pos _) hq)
  have hlog : f.fractionBits + k ≤ (num / den).log2 := (Nat.le_log2 hz).mpr hq
  obtain ⟨e, he⟩ := Nat.exists_eq_add_of_le (Nat.le_trans (Nat.le_add_right _ _) hlog)
  -- the quotient has its leading bit, and rounding does not go below it
  have hleading : 2 ^ f.fractionBits ≤ roundHalfEven num (den * 2 ^ e) := by
    have hdiv : 2 ^ f.fractionBits ≤ num / (den * 2 ^ e) := by
      rw [← Nat.div_div_eq_div_mul, Nat.le_div_iff_mul_le (Nat.two_pow_pos e), ← Nat.pow_add, ← he]
      exact Nat.log2_self_le hz
    unfold roundHalfEven
    dsimp only
    split <;> omega
  have hshift : k * 2 ^ f.fractionBits ≤ e * 2 ^ f.fractionBits :=
    Nat.mul_le_mul_right _ (by omega)
  unfold round
  dsimp only
  rw [he, Nat.add_sub_cancel_left, Nat.add_mul]
  omega

/-- A pattern from that of a power of two on has at least its magnitude. -/
theorem le_magnitude {p k : Nat} (h : (k + 1) * 2 ^ f.fractionBits ≤ f.unsigned p) :
    2 ^ (f.fractionBits + k) ≤ f.magnitude p := by
  have hshift : k ≤ f.shift p := by
    have := (Nat.le_div_iff_mul_le (Nat.two_pow_pos _)).mpr h
    unfold shift
    omega
  have hleading : 2 ^ f.fractionBits ≤ f.significand p := by
    rcases (normal_parts p).leading with hz | hle
    · -- nothing is shifted, so the pattern is the significand
      rw [unsigned_eq, hz, Nat.zero_mul, Nat.zero_add] at h
      exact Nat.le_trans (Nat.le_mul_of_pos_left _ (Nat.succ_pos k)) h
    · exact hle
  rw [Nat.pow_add]
  exact Nat.mul_le_mul hleading (Nat.pow_le_pow_right (by decide) hshift)

/-! ## The range of a format

The shifts of finite patterns go from zero to a last one, which is three less than there are
exponents: the largest exponent is that of infinity, and the two smallest both shift nothing. -/

section Range

variable {last : Nat} (hlast : 2 ^ f.exponentBits = last + 3)

include hlast

theorem infinity_eq : f.infinity = (last + 2) * 2 ^ f.fractionBits := by
  rw [infinity, hlast]
  rfl

theorem shift_le {p : Nat} (hp : f.isFinite p = true) : f.shift p ≤ last := by
  have hlt : f.unsigned p < (last + 2) * 2 ^ f.fractionBits :=
    infinity_eq hlast ▸ of_decide_eq_true hp
  have hq := (Nat.div_lt_iff_lt_mul (Nat.two_pow_pos _)).mpr hlt
  unfold shift
  omega

theorem magnitude_le {p : Nat} (hp : f.isFinite p = true) :
    f.magnitude p ≤ (2 * 2 ^ f.fractionBits - 1) * 2 ^ last :=
  Nat.mul_le_mul (Nat.le_sub_one_of_lt (normal_parts p).lt)
    (Nat.pow_le_pow_right (by decide) (shift_le hlast hp))

/-- **What is not above the largest finite number is rounded to a finite one.** -/
theorem round_lt_infinity {num den : Nat} (hd : 0 < den)
    (h : num ≤ (2 * 2 ^ f.fractionBits - 1) * (den * 2 ^ last)) : f.round num den < f.infinity := by
  have hP : 0 < 2 ^ f.fractionBits := Nat.two_pow_pos _
  obtain ⟨e, he⟩ : ∃ e, (num / den).log2 - f.fractionBits = e := ⟨_, rfl⟩
  rw [infinity_eq hlast]
  rcases Nat.lt_or_ge e last with hlow | hhigh
  · -- below the last binade even the next power of two is finite
    calc f.round num den ≤ e * 2 ^ f.fractionBits + 2 * 2 ^ f.fractionBits :=
          round_le hd he (Nat.le_of_lt (he ▸ lt_spacing hd))
      _ = (e + 2) * 2 ^ f.fractionBits := (Nat.add_mul ..).symm
      _ < (last + 2) * 2 ^ f.fractionBits := Nat.mul_lt_mul_of_pos_right (by omega) hP
  · -- in the last binade the largest finite number bounds the result
    have hq : num / den < 2 ^ (f.fractionBits + 1 + last) := by
      rw [Nat.div_lt_iff_lt_mul hd, Nat.pow_add, Nat.pow_succ, Nat.mul_comm _ 2, Nat.mul_assoc,
        Nat.mul_comm (2 ^ last)]
      exact Nat.lt_of_le_of_lt h
        (Nat.mul_lt_mul_of_pos_right (by omega) (Nat.mul_pos hd (Nat.two_pow_pos _)))
    have hlog : (num / den).log2 < f.fractionBits + 1 + last := by
      by_cases hz : num / den = 0
      · rw [hz, Nat.log2_zero]
        omega
      · exact (Nat.log2_lt hz).mpr hq
    obtain rfl : e = last := by omega
    have hround := round_le hd he h
    rw [Nat.add_mul]
    omega

end Range

/-! ## Signs -/

theorem unsigned_withSign {r : Nat} (h : r < f.signBit) (negative : Bool) :
    f.unsigned (f.withSign negative r) = r := by
  cases negative with
  | true => exact (Nat.add_mod_left _ _).trans (Nat.mod_eq_of_lt h)
  | false => exact Nat.mod_eq_of_lt h

theorem signBit_le_withSign {r : Nat} (h : r < f.signBit) (negative : Bool) :
    decide (f.withSign negative r ≥ f.signBit) = negative := by
  cases negative with
  | true => exact decide_eq_true (Nat.le_add_right _ _)
  | false => exact decide_eq_false (Nat.not_le.mpr h)

theorem withSign_lt {r : Nat} (h : r < f.signBit) (negative : Bool) :
    f.withSign negative r < 2 * f.signBit := by
  unfold withSign
  split <;> omega

theorem withSign_unsigned {p : Nat} (h : p < 2 * f.signBit) :
    f.withSign (decide (p ≥ f.signBit)) (f.unsigned p) = p := by
  unfold withSign unsigned
  by_cases hp : f.signBit ≤ p
  · rw [if_pos (decide_eq_true hp), Nat.mod_eq_sub_mod hp, Nat.mod_eq_of_lt (by omega)]
    omega
  · rw [if_neg (by simp [hp]), Nat.mod_eq_of_lt (by omega)]

theorem magnitude_unsigned (p : Nat) : f.magnitude (f.unsigned p) = f.magnitude p := by
  have hu : f.unsigned (f.unsigned p) = f.unsigned p := Nat.mod_mod _ _
  unfold magnitude significand shift
  rw [hu]

end BinaryFormat

open BinaryFormat

namespace Double

theorem infinity_lt_signBit : double.infinity < double.signBit := by decide

/-- A double put together from a sign and a pattern without one. -/
theorem ofPattern_withSign {r : Nat} (h : r < double.signBit) (negative : Bool) :
    (ofPattern (double.withSign negative r)).isNegative = negative ∧
      double.unsigned (ofPattern (double.withSign negative r)).pattern = r := by
  have hlt : double.withSign negative r < 2 ^ 64 := withSign_lt h negative
  have hp : (ofPattern (double.withSign negative r)).pattern = double.withSign negative r :=
    UInt64.toNat_ofNat_of_lt' hlt
  rw [isNegative, hp]
  exact ⟨signBit_le_withSign h negative, unsigned_withSign h negative⟩

theorem isFinite_ofPattern_withSign {r : Nat} (h : r < double.infinity) (negative : Bool) :
    (ofPattern (double.withSign negative r)).isFinite = true := by
  have hr : r < double.signBit := Nat.lt_trans h infinity_lt_signBit
  rw [isFinite, BinaryFormat.isFinite, (ofPattern_withSign hr negative).2]
  exact decide_eq_true h

theorem unsigned_ofPattern {r : Nat} (h : r < double.signBit) :
    double.unsigned (ofPattern r).pattern = r :=
  (ofPattern_withSign h false).2

theorem isFinite_ofPattern {r : Nat} (h : r < double.infinity) : (ofPattern r).isFinite = true :=
  isFinite_ofPattern_withSign h false

/-- The largest shift of a finite double is 2045. -/
theorem last_shift : 2 ^ double.exponentBits = 2045 + 3 := rfl

/-- Below `2 ^ 64` a number is far inside the range of doubles. -/
theorem round_lt_infinity {n : Nat} (h : n ≤ 2 ^ (64 : Nat)) :
    double.round (n * one) 1 < double.infinity :=
  BinaryFormat.round_lt_infinity last_shift Nat.one_pos
    (Nat.le_trans (Nat.mul_le_mul_right one h) (by decide +kernel))

theorem isFinite_ofNat {n : Nat} (h : n ≤ 2 ^ (64 : Nat)) : (ofNat n).isFinite = true := by
  rw [ofNat]
  exact isFinite_ofPattern (round_lt_infinity h)

theorem isFinite_ofInt {i : Int} (h : i.natAbs ≤ 2 ^ (64 : Nat)) : (ofInt i).isFinite = true :=
  isFinite_ofPattern_withSign (round_lt_infinity h) _

theorem one_eq : one = 2 ^ (double.fractionBits + 1022) :=
  congrArg (2 ^ ·) (show double.unitsPerOne = double.fractionBits + 1022 from rfl)

/-- No number is rounded below one. -/
theorem one_le_magnitude_ofNat {n : Nat} (h : 0 < n) : one ≤ (ofNat n).magnitude := by
  have hround : min ((1022 + 1) * 2 ^ double.fractionBits) double.infinity
      ≤ double.round (n * one) 1 := by
    refine le_round Nat.one_pos ?_
    rw [Nat.mul_one, ← one_eq]
    exact Nat.le_mul_of_pos_left one h
  have hunsigned : double.unsigned (ofNat n).pattern = double.round (n * one) 1 := by
    rw [ofNat]
    exact unsigned_ofPattern (Nat.lt_of_le_of_lt (round_le_infinity _ _) infinity_lt_signBit)
  rw [Nat.min_eq_left (by decide), ← hunsigned] at hround
  rw [one_eq]
  exact le_magnitude hround

/-- Dividing by one or more leaves a finite number finite. -/
theorem isFinite_divMagnitude {x y : Double} (hx : x.isFinite = true) (hy : one ≤ y.magnitude) :
    (x.divMagnitude y).isFinite = true := by
  have hone : 0 < one := Nat.two_pow_pos _
  rw [divMagnitude]
  refine isFinite_ofPattern
    (BinaryFormat.round_lt_infinity last_shift (Nat.lt_of_lt_of_le hone hy) ?_)
  rw [Nat.mul_comm y.magnitude, ← Nat.mul_assoc]
  exact Nat.mul_le_mul (magnitude_le last_shift hx) hy

theorem isFinite_negate {x : Double} (hx : x.isFinite = true) : x.negate.isFinite = true :=
  isFinite_ofPattern_withSign (of_decide_eq_true hx) _

end Double

namespace Single

/-- Neither an infinity nor a NaN. -/
def isFinite (x : Single) : Bool :=
  single.isFinite x.pattern

theorem infinity_lt_signBit : single.infinity < single.signBit := by decide

theorem unit_pos : 0 < unit := Nat.two_pow_pos _

theorem pattern_lt (x : Single) : x.pattern < 2 * single.signBit :=
  x.bits.toNat_lt

/-- The largest shift of a finite single is 253. -/
theorem last_shift : 2 ^ single.exponentBits = 253 + 3 := rfl

/-- **Widening is exact.** A finite single is a double of the same sign and magnitude. -/
theorem toDouble_spec {x : Single} (hx : x.isFinite = true) :
    x.toDouble.isFinite = true ∧ x.toDouble.magnitude = x.magnitude ∧
      x.toDouble.isNegative = decide (x.pattern ≥ single.signBit) := by
  have hfin : single.unsigned x.pattern < single.infinity := of_decide_eq_true hx
  have hshift := shift_le last_shift hx
  have hmag : x.magnitude = single.significand x.pattern * 2 ^ (single.shift x.pattern + 925) := by
    rw [magnitude, BinaryFormat.magnitude, Nat.mul_assoc, unit, ← Nat.pow_add]
    rfl
  have hround : double.round x.magnitude 1 < double.infinity ∧
      double.magnitude (double.round x.magnitude 1) = x.magnitude := by
    rw [hmag]
    refine magnitude_round ?_ ?_ ?_ (Nat.le_of_lt Double.infinity_lt_signBit)
    · exact Nat.lt_trans (normal_parts x.pattern).lt (by decide)
    · exact Nat.le_trans (show 52 ≤ 925 by decide) (Nat.le_add_left _ _)
    · exact Nat.lt_of_le_of_lt (Nat.mul_le_mul_right _ (show single.shift x.pattern + 925 + 2 ≤ 1180
        by omega)) (by decide)
  have hr := Nat.lt_trans hround.1 Double.infinity_lt_signBit
  have hdef : x.toDouble = .ofPattern (double.withSign (decide (x.pattern ≥ single.signBit))
      (double.round x.magnitude 1)) := by
    unfold toDouble
    dsimp only
    rw [if_pos hfin]
  rw [hdef]
  obtain ⟨hneg, hunsigned⟩ := Double.ofPattern_withSign hr (decide (x.pattern ≥ single.signBit))
  refine ⟨Double.isFinite_ofPattern_withSign hround.1 _, ?_, hneg⟩
  rw [Double.magnitude, ← magnitude_unsigned, hunsigned, hround.2]

/-- Widening makes no float finite that is not. -/
theorem isFinite_toDouble (x : Single) : x.toDouble.isFinite = x.isFinite := by
  cases hx : x.isFinite with
  | true => exact (toDouble_spec hx).1
  | false =>
    have hlarge : ∀ r negative, double.infinity ≤ r → r < double.signBit →
        (Double.ofPattern (double.withSign negative r)).isFinite = false := by
      intro r negative hle hlt
      rw [Double.isFinite, BinaryFormat.isFinite, (Double.ofPattern_withSign hlt negative).2]
      exact decide_eq_false (Nat.not_lt.mpr hle)
    unfold toDouble
    dsimp only
    rw [if_neg (of_decide_eq_false hx)]
    split
    · exact hlarge _ _ (Nat.le_refl _) Double.infinity_lt_signBit
    · exact hlarge _ _ (Nat.le_add_right _ _) (by decide)

/-- **Narrowing undoes widening**, for negative zero as for every other finite single. -/
theorem ofDouble_toDouble {x : Single} (hx : x.isFinite = true) : ofDouble x.toDouble = x := by
  obtain ⟨hfin, hmag, hneg⟩ := toDouble_spec hx
  have hnan : x.toDouble.isNaN = false := by
    have : double.unsigned x.toDouble.pattern < double.infinity := of_decide_eq_true hfin
    exact decide_eq_false (by omega)
  have hround : single.round x.magnitude unit = single.unsigned x.pattern :=
    round_magnitude hx unit_pos
  unfold ofDouble
  dsimp only
  rw [hnan, hfin, hmag, hneg, if_neg (by decide), if_pos rfl, hround,
    withSign_unsigned (pattern_lt x)]
  exact congrArg Single.mk (UInt32.ofNat_toNat)

theorem magnitude_largest :
    largest.magnitude = (2 * 2 ^ single.fractionBits - 1) * (unit * 2 ^ (253 : Nat)) := by
  have : single.magnitude largest.pattern
      = (2 * 2 ^ single.fractionBits - 1) * 2 ^ (253 : Nat) := by
    decide +kernel
  rw [magnitude, this, Nat.mul_assoc, Nat.mul_comm (2 ^ (253 : Nat))]

theorem magnitude_le_largest {x : Single} (hx : x.isFinite = true) :
    x.magnitude ≤ largest.magnitude := by
  rw [magnitude_largest, Nat.mul_comm unit, ← Nat.mul_assoc]
  exact Nat.mul_le_mul_right unit (magnitude_le last_shift hx)

/-- What was a single passes the range check. -/
theorem exceedsSingle_toDouble {x : Single} (hx : x.isFinite = true) :
    x.toDouble.exceedsSingle = false := by
  obtain ⟨_, hmag, _⟩ := toDouble_spec hx
  rw [Double.exceedsSingle, hmag, decide_eq_false (Nat.not_lt.mpr (magnitude_le_largest hx)),
    Bool.and_false]

/-- **What passes the range check becomes a finite single.** -/
theorem isFinite_ofDouble {x : Double} (hx : x.isFinite = true) (hr : x.exceedsSingle = false) :
    (ofDouble x).isFinite = true := by
  have hle : x.magnitude ≤ (2 * 2 ^ single.fractionBits - 1) * (unit * 2 ^ (253 : Nat)) := by
    rw [Double.exceedsSingle, hx, Bool.true_and] at hr
    rw [← magnitude_largest]
    exact Nat.not_lt.mp (of_decide_eq_false hr)
  have hnan : x.isNaN = false := by
    have : double.unsigned x.pattern < double.infinity := of_decide_eq_true hx
    exact decide_eq_false (by omega)
  have hlt := round_lt_infinity last_shift unit_pos hle
  have hs := Nat.lt_trans hlt infinity_lt_signBit
  have hdef : (ofDouble x).pattern
      = single.withSign x.isNegative (single.round x.magnitude unit) := by
    unfold ofDouble
    dsimp only
    rw [hnan, hx, if_neg (by decide), if_pos rfl]
    exact UInt32.toNat_ofNat_of_lt' (withSign_lt hs _)
  rw [isFinite, BinaryFormat.isFinite, hdef, unsigned_withSign hs]
  exact decide_eq_true hlt

end Single

end WireSchema
