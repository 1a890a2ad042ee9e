import Mathlib

/-!
# Rounding to 53 bits

`nearest n` is the nearest of the numbers that have at most 53 bits in front of their trailing zeros
(`nearest_closest`), the even one of two equally near ones. Floats are rounded by shifting the mantissa to the right,
with one bit for the half and one for what lies below it; both the shift (`roundedMantissa_shiftRight`) and the rounding
of a float that is not too small (`rounded_round`) come down to `nearest`.
-/

namespace Blueprint.Decimal

open Float.Model Float.Model.UnpackedFloat

/-! ## Shifting and rounding -/

/-- A number divided by a power of two, rounded to the nearest, halves to even. -/
def roundShift (m k : Nat) : Nat :=
  if 2 * (m % 2 ^ k) < 2 ^ k then m / 2 ^ k
  else if 2 * (m % 2 ^ k) = 2 ^ k then m / 2 ^ k + m / 2 ^ k % 2
  else m / 2 ^ k + 1

section
variable {m k c : Nat}

theorem roundShift_zero (m : Nat) : roundShift m 0 = m := by simp [roundShift, Nat.mod_one]

theorem le_roundShift (m k : Nat) : m / 2 ^ k ≤ roundShift m k := by
  unfold roundShift
  split
  · exact Nat.le_refl _
  · split <;> omega

theorem roundShift_le (m k : Nat) : roundShift m k ≤ m / 2 ^ k + 1 := by
  unfold roundShift
  split
  · omega
  · split <;> omega

/-- A multiple of the power of two is divided. -/
theorem roundShift_mul (c k : Nat) : roundShift (c * 2 ^ k) k = c := by
  simp [roundShift]

theorem le_roundShift_of_le (h : c * 2 ^ k ≤ m) : c ≤ roundShift m k :=
  Nat.le_trans ((Nat.le_div_iff_mul_le (Nat.two_pow_pos k)).mpr h) (le_roundShift m k)

theorem roundShift_le_of_le (h : m ≤ c * 2 ^ k) : roundShift m k ≤ c := by
  rcases Nat.lt_or_eq_of_le h with hlt | rfl
  · have hdiv : m / 2 ^ k < c := (Nat.div_lt_iff_lt_mul (Nat.two_pow_pos k)).mpr hlt
    exact Nat.le_trans (roundShift_le m k) hdiv
  · rw [roundShift_mul]

/-- Bits that are added below are shifted out again. -/
theorem roundShift_mul_pow (m k j : Nat) : roundShift (m * 2 ^ j) (k + j) = roundShift m k := by
  have hdiv : m * 2 ^ j / 2 ^ (k + j) = m / 2 ^ k := by
    rw [Nat.pow_add, Nat.mul_div_mul_right _ _ (Nat.two_pow_pos j)]
  have hmod : m * 2 ^ j % 2 ^ (k + j) = m % 2 ^ k * 2 ^ j := by rw [Nat.pow_add, Nat.mul_mod_mul_right]
  have hpos := Nat.two_pow_pos j
  have hlt : 2 * (m % 2 ^ k * 2 ^ j) < 2 ^ k * 2 ^ j ↔ 2 * (m % 2 ^ k) < 2 ^ k := by
    rw [← Nat.mul_assoc, Nat.mul_lt_mul_right hpos]
  have heq : 2 * (m % 2 ^ k * 2 ^ j) = 2 ^ k * 2 ^ j ↔ 2 * (m % 2 ^ k) = 2 ^ k := by
    rw [← Nat.mul_assoc, Nat.mul_left_inj hpos.ne']
  rw [roundShift, hdiv, hmod, Nat.pow_add]
  simp only [hlt, heq, roundShift]

end

/-- After a shift, one bit tells the half and one whether there is more below it. -/
theorem shiftRight_succ (m k : Nat) :
    (ExtendedMantissa.mk m false false) >>> (k + 1) =
      ⟨m / 2 ^ (k + 1), m / 2 ^ k % 2 != 0, m % 2 ^ k != 0⟩ := by
  induction k with
  | zero => simp [HShiftRight.hShiftRight, Nat.repeat, ExtendedMantissa.shiftRightOne, Nat.mod_one]
  | succ k ih =>
    have hstep : (ExtendedMantissa.mk m false false) >>> (k + 1 + 1) =
        ((ExtendedMantissa.mk m false false) >>> (k + 1)).shiftRightOne := rfl
    rw [hstep, ih]
    simp only [ExtendedMantissa.shiftRightOne, ExtendedMantissa.mk.injEq, true_and]
    refine ⟨by rw [Nat.div_div_eq_div_mul, ← Nat.pow_succ], ?_⟩
    have hmod := Nat.mod_pow_succ (x := m) (b := 2) (k := k)
    have hpos := Nat.two_pow_pos k
    grind

/-- The rounded mantissa after a shift. -/
theorem roundedMantissa_shiftRight (m k : Nat) :
    ((ExtendedMantissa.mk m false false) >>> k).roundedMantissa = roundShift m k := by
  cases k with
  | zero => exact (roundShift_zero m).symm
  | succ k =>
    have hmod := Nat.mod_pow_succ (x := m) (b := 2) (k := k)
    have hlt := Nat.mod_lt m (Nat.two_pow_pos k)
    rw [shiftRight_succ, roundShift, Nat.pow_succ]
    rcases Nat.mod_two_eq_zero_or_one (m / 2 ^ k) with hbit | hbit <;>
      rcases Nat.eq_zero_or_pos (m % 2 ^ k) with hrest | hrest <;>
      simp [ExtendedMantissa.roundedMantissa, ExtendedMantissa.accuracy, Accuracy.roundToNearestEven, hbit, hrest] <;>
      grind

/-! ## The nearest number of 53 bits -/

/-- The nearest number that has at most 53 bits in front of its trailing zeros. -/
def nearest (m : Nat) : Nat := roundShift m (m.log2 - 52) * 2 ^ (m.log2 - 52)

/-- The numbers that have at most 53 bits in front of their trailing zeros. -/
def Short (n : Nat) : Prop := ∃ c j, c < 2 ^ 53 ∧ n = c * 2 ^ j

theorem Short.of_lt {n : Nat} (h : n < 2 ^ 53) : Short n := ⟨n, 0, h, (Nat.mul_one n).symm⟩

theorem Short.two_pow (k : Nat) : Short (2 ^ k) := ⟨1, k, by decide, (Nat.one_mul _).symm⟩

theorem Short.of_le {c : Nat} (h : c ≤ 2 ^ 53) (j : Nat) : Short (c * 2 ^ j) := by
  rcases Nat.lt_or_eq_of_le h with hlt | rfl
  · exact ⟨c, j, hlt, rfl⟩
  · rw [← Nat.pow_add]
    exact .two_pow (53 + j)

/-- A short number is a multiple of the last place of `n`, unless it is so small that all its places are lower. -/
theorem Short.multiple_or_le {r : Nat} (hr : Short r) (n : Nat) :
    (∃ d, r = d * 2 ^ (n.log2 - 52)) ∨ r ≤ 2 ^ 52 * 2 ^ (n.log2 - 52) ∧ 2 ^ 52 * 2 ^ (n.log2 - 52) ≤ n := by
  obtain ⟨c, j, hc, rfl⟩ := hr
  generalize hk : n.log2 - 52 = k
  rcases Nat.lt_or_ge j k with hkj | hkj
  · have hn : n ≠ 0 := fun h0 => by simp [h0] at hk; omega
    have hlog : 52 + k = n.log2 := by omega
    refine .inr ⟨?_, ?_⟩
    · calc c * 2 ^ j ≤ 2 ^ 53 * 2 ^ (k - 1) := Nat.mul_le_mul hc.le (Nat.pow_le_pow_right (by decide) (by omega))
        _ = 2 ^ 52 * 2 ^ k := by
          rw [← Nat.pow_add, ← Nat.pow_add]
          congr 1
          omega
    · rw [← Nat.pow_add, hlog]
      exact Nat.log2_self_le hn
  · obtain ⟨i, rfl⟩ := Nat.exists_eq_add_of_le' hkj
    exact .inl ⟨c * 2 ^ i, by rw [Nat.pow_add, Nat.mul_assoc]⟩

theorem le_nearest {r n : Nat} (hr : Short r) (h : r ≤ n) : r ≤ nearest n := by
  rcases hr.multiple_or_le n with ⟨d, rfl⟩ | ⟨hle, hn⟩
  · exact Nat.mul_le_mul_right _ (le_roundShift_of_le h)
  · exact hle.trans (Nat.mul_le_mul_right _ (le_roundShift_of_le hn))

theorem nearest_le {r n : Nat} (hr : Short r) (h : n ≤ r) : nearest n ≤ r := by
  rcases hr.multiple_or_le n with ⟨d, rfl⟩ | ⟨hle, hn⟩
  · exact Nat.mul_le_mul_right _ (roundShift_le_of_le h)
  · exact (Nat.mul_le_mul_right _ (roundShift_le_of_le (h.trans hle))).trans (hn.trans h)

theorem nearest_short (n : Nat) : Short (nearest n) := by
  refine .of_le (roundShift_le_of_le ?_) (n.log2 - 52)
  have hlt : n < 2 ^ (n.log2 + 1) := Nat.lt_log2_self
  rw [← Nat.pow_add]
  exact hlt.le.trans (Nat.pow_le_pow_right (by decide) (by omega))

/-- Exactly the short numbers stay as they are. -/
theorem nearest_eq_self_iff (n : Nat) : nearest n = n ↔ Short n :=
  ⟨fun h => h ▸ nearest_short n, fun h => Nat.le_antisymm (nearest_le h (Nat.le_refl n)) (le_nearest h (Nat.le_refl n))⟩

theorem nearest_of_lt {n : Nat} (h : n < 2 ^ 53) : nearest n = n := (nearest_eq_self_iff n).mpr (.of_lt h)

theorem log2_mul_pow {m : Nat} (hm : m ≠ 0) (j : Nat) : (m * 2 ^ j).log2 = m.log2 + j := by
  rw [Nat.log2_eq_iff (Nat.mul_ne_zero hm (Nat.two_pow_pos j).ne'), Nat.add_right_comm, Nat.pow_add, Nat.pow_add]
  exact ⟨Nat.mul_le_mul_right _ (Nat.log2_self_le hm), Nat.mul_lt_mul_of_pos_right Nat.lt_log2_self (Nat.two_pow_pos j)⟩

theorem nearest_mul_pow (m j : Nat) : nearest (m * 2 ^ j) = nearest m * 2 ^ j := by
  by_cases hm : m = 0
  · simp [hm, nearest_of_lt]
  · rw [nearest, log2_mul_pow hm]
    rcases Nat.le_total 52 m.log2 with hlog | hlog
    · rw [Nat.sub_add_comm hlog, roundShift_mul_pow, Nat.pow_add, ← Nat.mul_assoc]
      rfl
    · -- no more zeros are added than are shifted out
      have hj : j = (j - (m.log2 + j - 52)) + (m.log2 + j - 52) := by omega
      have hlt : m < 2 ^ 53 :=
        Nat.lt_of_lt_of_le Nat.lt_log2_self (Nat.pow_le_pow_right (by decide) (Nat.succ_le_succ hlog))
      generalize m.log2 + j - 52 = k at hj ⊢
      rw [hj, Nat.pow_add, ← Nat.mul_assoc, roundShift_mul, nearest_of_lt hlt, Nat.mul_assoc]

/-- Rounding moves a number by half of the last place at most. -/
theorem two_mul_roundShift (n k : Nat) :
    2 * n ≤ 2 * (roundShift n k * 2 ^ k) + 2 ^ k ∧ 2 * (roundShift n k * 2 ^ k) ≤ 2 * n + 2 ^ k := by
  have hdiv : n / 2 ^ k * 2 ^ k + n % 2 ^ k = n := Nat.div_add_mod' n (2 ^ k)
  have hlt := Nat.mod_lt n (Nat.two_pow_pos k)
  have hsucc := Nat.add_one_mul (n / 2 ^ k) (2 ^ k)
  unfold roundShift
  split
  · omega
  · split
    · rcases Nat.mod_two_eq_zero_or_one (n / 2 ^ k) with heven | hodd
      · rw [heven, Nat.add_zero]
        omega
      · rw [hodd]
        omega
    · omega

/-- No short number is nearer. -/
theorem nearest_closest {r : Nat} (hr : Short r) (n : Nat) :
    ((n : Int) - nearest n).natAbs ≤ ((n : Int) - r).natAbs := by
  obtain ⟨hlow, hhigh⟩ := two_mul_roundShift n (n.log2 - 52)
  have hmultiple (d : Nat) : ((n : Int) - nearest n).natAbs ≤ ((n : Int) - (d * 2 ^ (n.log2 - 52) : Nat)).natAbs := by
    unfold nearest
    rcases Nat.lt_trichotomy d (roundShift n (n.log2 - 52)) with hd | rfl | hd
    · have := Nat.mul_le_mul_right (2 ^ (n.log2 - 52)) hd
      rw [Nat.succ_mul] at this
      omega
    · exact Nat.le_refl _
    · have := Nat.mul_le_mul_right (2 ^ (n.log2 - 52)) hd
      rw [Nat.succ_mul] at this
      omega
  rcases hr.multiple_or_le n with ⟨d, rfl⟩ | ⟨hle, hn⟩
  · exact hmultiple d
  · have := hmultiple (2 ^ 52)
    omega

/-- Halfway between two short numbers the last place is made even. -/
theorem nearest_even {n : Nat} (h : 2 * ((n : Int) - nearest n).natAbs = 2 ^ (n.log2 - 52)) :
    2 * 2 ^ (n.log2 - 52) ∣ nearest n := by
  unfold nearest at h ⊢
  generalize n.log2 - 52 = k at h ⊢
  have hdiv : n / 2 ^ k * 2 ^ k + n % 2 ^ k = n := Nat.div_add_mod' n (2 ^ k)
  have hsucc := Nat.add_one_mul (n / 2 ^ k) (2 ^ k)
  unfold roundShift at h ⊢
  split at h
  · omega
  · next hnot =>
    split at h
    · next hhalf =>
      rw [if_neg hnot, if_pos hhalf]
      exact Nat.mul_dvd_mul_right (by omega) _
    · omega

/-- The nearest integer that has at most 53 bits in front of its trailing zeros. -/
def nearestInt (n : Int) : Int := n.sign * nearest n.natAbs

theorem nearestInt_natCast (n : Nat) : nearestInt n = nearest n := by
  rcases Nat.eq_zero_or_pos n with rfl | hn
  · rfl
  · rw [nearestInt, Int.sign_eq_one_of_pos (Int.natCast_pos.mpr hn), Int.one_mul, Int.natAbs_natCast]

theorem nearestInt_neg (n : Int) : nearestInt (-n) = -nearestInt n := by
  rw [nearestInt, nearestInt, Int.sign_neg, Int.natAbs_neg, Int.neg_mul]

theorem natAbs_nearestInt (n : Int) : (nearestInt n).natAbs = nearest n.natAbs := by
  obtain ⟨k, rfl | rfl⟩ := Int.eq_nat_or_neg n
  · rw [nearestInt_natCast, Int.natAbs_natCast, Int.natAbs_natCast]
  · rw [nearestInt_neg, nearestInt_natCast, Int.natAbs_neg, Int.natAbs_neg, Int.natAbs_natCast, Int.natAbs_natCast]

theorem nearestInt_eq_self_iff (n : Int) : nearestInt n = n ↔ Short n.natAbs := by
  rw [← nearest_eq_self_iff]
  obtain ⟨k, rfl | rfl⟩ := Int.eq_nat_or_neg n
  · rw [nearestInt_natCast, Int.natAbs_natCast, Int.natCast_inj]
  · rw [nearestInt_neg, nearestInt_natCast, Int.natAbs_neg, Int.natAbs_natCast, Int.neg_inj, Int.natCast_inj]

theorem natAbs_sub_nearestInt (n : Int) :
    (n - nearestInt n).natAbs = ((n.natAbs : Int) - nearest n.natAbs).natAbs := by
  obtain ⟨k, rfl | rfl⟩ := Int.eq_nat_or_neg n
  · rw [nearestInt_natCast, Int.natAbs_natCast]
  · rw [nearestInt_neg, nearestInt_natCast, Int.natAbs_neg, Int.natAbs_natCast]
    omega

/-- No integer with as few bits is nearer. -/
theorem nearestInt_closest {m : Int} (hm : Short m.natAbs) (n : Int) : (n - nearestInt n).natAbs ≤ (n - m).natAbs := by
  have hclosest := nearest_closest hm n.natAbs
  rw [natAbs_sub_nearestInt]
  omega

theorem nearestInt_even {n : Int} (h : 2 * (n - nearestInt n).natAbs = 2 ^ (n.natAbs.log2 - 52)) :
    2 * 2 ^ (n.natAbs.log2 - 52) ∣ (nearestInt n).natAbs := by
  rw [natAbs_sub_nearestInt] at h
  rw [natAbs_nearestInt]
  exact nearest_even h

/-! ## Rounding floats -/

/-- The mantissa and the exponent of a float: 53 bits, unless the exponent is the least one. -/
structure Canonical (m : Nat) (e : Int) : Prop where
  lt : m < 2 ^ 53
  ge : -1074 ≤ e
  full : 2 ^ 52 ≤ m ∨ e = -1074

/-- The float is `± r`, in the form it is stored in. -/
def Rounded (s : Sign) (r : ℚ) (u : UnpackedFloat) : Prop :=
  ∃ m e hpos, u = .finite s m e hpos ∧ Canonical m e ∧ (m : ℚ) * 2 ^ e = r

theorem targetExponent_eq (m : Nat) (e : Int) :
    Format.binary64.targetExponent (totalExponent m e) = max (m.log2 + e - 52) (-1074) := by
  have hmin : Format.binary64.minExponent = -1074 := rfl
  have hbits : Format.binary64.mantissaBits = 53 := rfl
  rw [Format.targetExponent, totalExponent, hmin, hbits]
  omega

theorem shiftToTargetExponent_exact {m k : Nat} {e : Int} (hk : (max (m.log2 + e - 52) (-1074) - e).toNat = k) :
    shiftToTargetExponent Format.binary64 m e .exact = ((ExtendedMantissa.mk m false false) >>> k, e + k) := by
  rw [shiftToTargetExponent, targetExponent_eq, shiftToExponent, hk]
  rfl

/-- A second shift only makes room for the bit that rounding up a mantissa of ones has added. -/
theorem rounded_of_shift {m k : Nat} {e : Int} (s : Sign)
    (hk : (max (m.log2 + e - 52) (-1074) - e).toNat = k) (he : -1074 ≤ e + k) (hpos : 0 < roundShift m k)
    (hle : roundShift m k ≤ 2 ^ 53) (hfull : 2 ^ 52 ≤ roundShift m k ∨ e + k = -1074) :
    Rounded s (roundShift m k * 2 ^ (e + k)) (roundWithAccuracy Format.binary64 s m e .exact) := by
  simp only [roundWithAccuracy, shiftToTargetExponent_exact hk, roundedMantissa_shiftRight]
  rcases Nat.lt_or_eq_of_le hle with hlt | heq
  · have hlog : (roundShift m k).log2 < 53 := (Nat.log2_lt hpos.ne').mpr hlt
    have hmantissa : ((ExtendedMantissa.mk (roundShift m k) false false) >>> 0).mantissa = roundShift m k := rfl
    simp only [shiftToTargetExponent_exact (m := roundShift m k) (e := e + k) (k := 0) (by omega), hmantissa,
      Nat.cast_zero, add_zero, dif_neg hpos.ne']
    exact ⟨_, _, hpos, rfl, ⟨hlt, he, hfull⟩, rfl⟩
  · have hlog : (2 ^ 53 : Nat).log2 = 53 := Nat.log2_two_pow
    have hmantissa : ((ExtendedMantissa.mk (2 ^ 53) false false) >>> 1).mantissa = 2 ^ 52 := rfl
    simp only [heq, shiftToTargetExponent_exact (m := 2 ^ 53) (e := e + k) (k := 1) (by omega), hmantissa]
    refine ⟨2 ^ 52, e + k + 1, by decide, rfl, ⟨by decide, by omega, .inl (Nat.le_refl _)⟩, ?_⟩
    rw [zpow_add_one₀ (by norm_num)]
    push_cast
    ring

/-- Rounding a number that has all its bits gives the nearest one. -/
theorem rounded_roundWithAccuracy {m : Nat} {e : Int} (s : Sign) (hm : 0 < m) (he : -1074 ≤ e)
    (h : 52 ≤ m.log2 ∨ e = -1074) :
    Rounded s (nearest m * 2 ^ e) (roundWithAccuracy Format.binary64 s m e .exact) := by
  have hlow := Nat.log2_self_le hm.ne'
  have hhigh : m < 2 ^ (m.log2 + 1) := Nat.lt_log2_self
  have hvalue : (roundShift m (m.log2 - 52) : ℚ) * 2 ^ (e + (m.log2 - 52 : Nat)) = nearest m * 2 ^ e := by
    rw [nearest, zpow_add₀ (by norm_num), zpow_natCast]
    push_cast
    ring
  rw [← hvalue]
  rcases Nat.lt_or_ge m.log2 52 with hlog | hlog
  · have hzero : m.log2 - 52 = 0 := by omega
    have hlt : m < 2 ^ 52 := (Nat.log2_lt hm.ne').mp hlog
    rw [hzero]
    refine rounded_of_shift s (by omega) (by omega) ?_ ?_ ?_ <;> rw [roundShift_zero] <;> omega
  · have hsplit : m.log2 = 52 + (m.log2 - 52) := by omega
    rw [hsplit, Nat.pow_add] at hlow
    rw [hsplit, Nat.add_right_comm, Nat.pow_add] at hhigh
    have hge : 2 ^ 52 ≤ roundShift m (m.log2 - 52) := le_roundShift_of_le hlow
    exact rounded_of_shift s (by omega) (by omega) (by omega) (roundShift_le_of_le hhigh.le) (.inl hge)

/-- Bits are added below where the mantissa is short of them. -/
theorem rounded_round {m : Nat} {e : Int} (s : Sign) (hm : 0 < m) (he : -1074 ≤ e) :
    Rounded s (nearest m * 2 ^ e) (UnpackedFloat.round Format.binary64 s m e) := by
  simp only [UnpackedFloat.round, targetExponent_eq, decreaseExponent, Nat.shiftLeft_eq]
  generalize hj : (e - max (m.log2 + e - 52) (-1074)).toNat = j
  have hlog := log2_mul_pow hm.ne' j
  have hvalue : (nearest (m * 2 ^ j) : ℚ) * 2 ^ (e - j) = nearest m * 2 ^ e := by
    rw [nearest_mul_pow, zpow_sub₀ (by norm_num), zpow_natCast]
    push_cast
    field_simp
  rw [← hvalue]
  exact rounded_roundWithAccuracy s (Nat.mul_pos hm (Nat.two_pow_pos j)) (by omega) (by omega)

end Blueprint.Decimal
