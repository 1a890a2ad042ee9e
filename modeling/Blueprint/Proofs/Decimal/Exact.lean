import Blueprint.Decimal.Binary64
import Blueprint.Json.Basic
import Blueprint.Proofs.Decimal.Rounding

/-!
# The numbers that floats stand for

A finite float stands for a rational number, `value?`; the integers that a 64-bit word holds, signed or not, stand for
the nearest numbers (`value?_ofInt`) and are finite. Finite floats are compared as their numbers are, and a difference
of two is zero just if the numbers are equal: no difference is so small that it is rounded away. So a float has no
fraction just if its number is an integer.
-/

namespace Blueprint.Decimal

open Float.Model Float.Model.UnpackedFloat

/-- The number of an unpacked float; the infinities and NaN have none. -/
def unpackedValue? : UnpackedFloat → Option ℚ
  | .zero _ => some 0
  | .finite s m e _ => some (s.apply m * 2 ^ e)
  | .infinity _ | .notANumber => none

/-- The number a float stands for. -/
def value? (x : Float) : Option ℚ := unpackedValue? x.toModel.unpack

/-! ## Floats that are stored -/

/-- What a float unpacks to. -/
inductive Stored : UnpackedFloat → Prop
  | infinity (s : Sign) : Stored (.infinity s)
  | notANumber : Stored .notANumber
  | zero (s : Sign) : Stored (.zero s)
  | finite {s : Sign} {m : Nat} {e : Int} {hpos : 0 < m} (h : Canonical m e) (he : e ≤ 971) :
    Stored (.finite s m e hpos)

variable {u v : UnpackedFloat} {x y : Float} {a b : ℚ} {s : Sign} {m : Nat} {e : Int}

/-- The implicit bit of a normal float. -/
theorem toNat_implicit (bits : BitVec 52) : (1#1 ++ bits).toNat = 2 ^ 52 + bits.toNat := by
  rw [BitVec.toNat_append, ← Nat.shiftLeft_add_eq_or_of_lt bits.isLt]
  rfl

theorem stored_unpack (bits : BitVec Format.binary64.numBits) : Stored (UnpackedFloat.unpack Format.binary64 bits) := by
  have hmantissa : (unpackMantissa bits).toNat < 2 ^ 52 := (unpackMantissa bits).isLt
  have hexponent : (unpackExponent bits).toNat < 2048 := (unpackExponent bits).isLt
  have hbias : Format.binary64.exponentBias = 1023 := rfl
  simp only [UnpackedFloat.unpack, hbias]
  split
  · split
    · exact .infinity _
    · exact .notANumber
  · next hmax =>
    have hmax : (unpackExponent bits).toNat ≠ 2047 := fun h => hmax (BitVec.eq_of_toNat_eq h)
    split
    · next hzero =>
      have hzero : (unpackExponent bits).toNat = 0 := by rw [hzero]; rfl
      split
      · exact .zero _
      · exact .finite ⟨by omega, by omega, .inr (by omega)⟩ (by omega)
    · next hzero =>
      have hzero : (unpackExponent bits).toNat ≠ 0 := fun h => hzero (BitVec.eq_of_toNat_eq h)
      have himplicit := toNat_implicit (unpackMantissa bits)
      exact .finite ⟨by omega, by omega, .inl (by omega)⟩ (by omega)

theorem stored (x : Float) : Stored x.toModel.unpack := stored_unpack _

/-- What a finite float unpacks to, with its number. -/
inductive Valued : UnpackedFloat → ℚ → Prop
  | zero (s : Sign) : Valued (.zero s) 0
  | finite {s : Sign} {m : Nat} {e : Int} {hpos : 0 < m} (h : Canonical m e) (he : e ≤ 971) :
    Valued (.finite s m e hpos) (s.apply m * 2 ^ e)

theorem Stored.valued (hu : Stored u) (h : unpackedValue? u = some a) : Valued u a := by
  cases hu with
  | infinity s => cases h
  | notANumber => cases h
  | zero s =>
    cases h
    exact .zero s
  | finite hcanonical he =>
    cases h
    exact .finite hcanonical he

theorem valued (h : value? x = some a) : Valued x.toModel.unpack a := (stored x).valued h

theorem infinite_or_nan (h : unpackedValue? u = none) : (∃ s, u = .infinity s) ∨ u = .notANumber := by
  cases u with
  | infinity s => exact .inl ⟨s, rfl⟩
  | notANumber => exact .inr rfl
  | zero s => cases h
  | finite s m e hpos => cases h

theorem biased_eq (e : Int) : e + Format.binary64.exponentBias + (52 : Nat) = e + 1075 := Int.add_assoc e 1023 52

theorem pack_finite (hpos : 0 < m) (h : Canonical m e) (he : e ≤ 971) :
    UnpackedFloat.pack Format.binary64 (.finite s m e hpos) =
      packComponents Format.binary64 s (BitVec.ofNat 11 (if 2 ^ 52 ≤ m then (e + 1075).toNat else 0))
        (BitVec.ofNat 52 m) := by
  have hge := h.ge
  have hnormal : m.log2 + 1 = Format.binary64.mantissaBits ↔ 2 ^ 52 ≤ m := by
    have hbits : Format.binary64.mantissaBits = 53 := rfl
    have hlt := (Nat.log2_lt hpos.ne').mpr h.lt
    rw [hbits, ← Nat.le_log2 hpos.ne']
    omega
  simp only [UnpackedFloat.pack, biased_eq, hnormal]
  rw [if_neg (by omega)]
  split <;> rfl

theorem unpack_normal (s : Sign) {k : Nat} (hlow : 0 < k) (hhigh : k < 2047) (bits : BitVec 52) :
    UnpackedFloat.unpack Format.binary64 (packComponents Format.binary64 s (BitVec.ofNat 11 k) bits) =
      .finite s (2 ^ 52 + bits.toNat) (k - 1075) (by omega) := by
  have hk : (BitVec.ofNat 11 k).toNat = k := by
    rw [BitVec.toNat_ofNat]
    omega
  have hmax : BitVec.ofNat 11 k ≠ -1#11 := fun h => hhigh.ne (hk.symm.trans (congrArg BitVec.toNat h))
  have hzero : BitVec.ofNat 11 k ≠ 0#11 := fun h => hlow.ne' (hk.symm.trans (congrArg BitVec.toNat h))
  simp only [UnpackedFloat.unpack, unpackMantissa_packComponents, unpackExponent_packComponents,
    unpackSign_packComponents, Sign.ofBitVec_toBitVec, if_neg hmax, if_neg hzero, toNat_implicit, hk]
  rfl

theorem unpack_subnormal (s : Sign) {bits : BitVec 52} (hpos : 0 < bits.toNat) :
    UnpackedFloat.unpack Format.binary64 (packComponents Format.binary64 s (BitVec.ofNat 11 0) bits) =
      .finite s bits.toNat (-1074) hpos := by
  have hmax : BitVec.ofNat 11 0 ≠ -1#11 := by decide
  have hnonzero : bits ≠ 0#52 := fun h => hpos.ne' (congrArg BitVec.toNat h)
  simp only [UnpackedFloat.unpack, unpackMantissa_packComponents, unpackExponent_packComponents,
    unpackSign_packComponents, Sign.ofBitVec_toBitVec, if_neg hmax, if_pos, dif_neg hnonzero]
  rfl

theorem unpack_pack_finite (hpos : 0 < m) (h : Canonical m e) (he : e ≤ 971) :
    (pack (.finite s m e hpos)).unpack = .finite s m e hpos := by
  have hlt := h.lt
  have hge := h.ge
  have hbits : (BitVec.ofNat 52 m).toNat = m % 2 ^ 52 := BitVec.toNat_ofNat m 52
  change UnpackedFloat.unpack Format.binary64 (UnpackedFloat.pack Format.binary64 _) = _
  rw [pack_finite hpos h he]
  split
  · next hnormal =>
    rw [unpack_normal s (by omega) (by omega)]
    simp only [UnpackedFloat.finite.injEq, true_and]
    omega
  · next hnormal =>
    have he := h.full.resolve_left hnormal
    rw [unpack_subnormal s (by omega)]
    simp only [UnpackedFloat.finite.injEq, true_and]
    omega

theorem unpack_pack_large (hpos : 0 < m) (he : 971 < e) : (pack (.finite s m e hpos)).unpack = .infinity s := by
  have hlarge : 2 ^ 11 ≤ (e + 1075).toNat + 1 := by omega
  have hpack : UnpackedFloat.pack Format.binary64 (.finite s m e hpos) = packedInfinity Format.binary64 s := by
    simp only [UnpackedFloat.pack, biased_eq, if_pos hlarge]
  change UnpackedFloat.unpack Format.binary64 (UnpackedFloat.pack Format.binary64 _) = _
  rw [hpack]
  cases s <;> rfl

theorem unpack_pack (h : Stored u) : (pack u).unpack = u := by
  cases h with
  | infinity s => cases s <;> rfl
  | notANumber => rfl
  | zero s => cases s <;> rfl
  | finite h he => exact unpack_pack_finite _ h he

theorem apply_neg (s : Sign) (n : Int) : (-s).apply n = -s.apply n := by
  cases s with
  | negative => exact (Int.neg_neg n).symm
  | positive => rfl

theorem unpackedValue?_neg (u : UnpackedFloat) : unpackedValue? u.neg = (unpackedValue? u).map (- ·) := by
  cases u with
  | infinity s => rfl
  | notANumber => rfl
  | zero s => simp [UnpackedFloat.neg, unpackedValue?]
  | finite s m e hpos => simp [UnpackedFloat.neg, unpackedValue?, apply_neg]

theorem Stored.neg (h : Stored u) : Stored u.neg := by
  cases h with
  | infinity s => exact .infinity _
  | notANumber => exact .notANumber
  | zero s => exact .zero _
  | finite h he => exact .finite h he

theorem value?_neg (x : Float) : value? (-x) = (value? x).map (- ·) := by
  change unpackedValue? (pack x.toModel.unpack.neg).unpack = _
  rw [unpack_pack (stored x).neg, unpackedValue?_neg]
  rfl

/-! ## Comparing -/

theorem Canonical.mul_lt {m' : Nat} {e' : Int} (h : Canonical m e) (h' : Canonical m' e') (he : e < e') :
    (m : ℚ) * 2 ^ e < m' * 2 ^ e' := by
  have hge := h.ge
  have hfull : (2 ^ 52 : ℚ) ≤ m' := mod_cast h'.full.resolve_right (by omega)
  have hlt : (m : ℚ) < 2 ^ 53 := mod_cast h.lt
  calc (m : ℚ) * 2 ^ e < 2 ^ 53 * 2 ^ e := by gcongr
    _ = 2 ^ 52 * 2 ^ (e + 1) := by rw [zpow_add_one₀ (by norm_num)]; ring
    _ ≤ 2 ^ 52 * 2 ^ e' := by gcongr <;> grind
    _ ≤ m' * 2 ^ e' := by gcongr

/-- Canonical magnitudes are ordered by exponent first. -/
theorem Canonical.compare_eq {m' : Nat} {e' : Int} (h : Canonical m e) (h' : Canonical m' e') :
    (compare e e').then (compare m m') = compare ((m : ℚ) * 2 ^ e) (m' * 2 ^ e') := by
  rcases lt_trichotomy e e' with he | rfl | he
  · rw [compare_lt_iff_lt.mpr he, compare_lt_iff_lt.mpr (h.mul_lt h' he)]
    rfl
  · have hpos : (0 : ℚ) < 2 ^ e := by positivity
    rw [compare_eq_iff_eq.mpr (rfl : e = e), Ordering.eq_then]
    rcases lt_trichotomy m m' with hm | rfl | hm
    · rw [compare_lt_iff_lt.mpr hm, eq_comm, compare_lt_iff_lt]
      gcongr
    · rw [compare_eq_iff_eq.mpr rfl, compare_eq_iff_eq.mpr rfl]
    · rw [compare_gt_iff_gt.mpr hm, eq_comm, compare_gt_iff_gt]
      gcongr
  · rw [compare_gt_iff_gt.mpr he, compare_gt_iff_gt.mpr (h'.mul_lt h he)]
    rfl

theorem compare_neg (a b : ℚ) : compare (-a) (-b) = (compare a b).swap := by
  rcases lt_trichotomy a b with h | rfl | h
  · rw [compare_lt_iff_lt.mpr h, compare_gt_iff_gt.mpr (neg_lt_neg h)]
    rfl
  · rw [compare_eq_iff_eq.mpr rfl, compare_eq_iff_eq.mpr rfl]
    rfl
  · rw [compare_gt_iff_gt.mpr h, compare_lt_iff_lt.mpr (neg_lt_neg h)]
    rfl

theorem Valued.compare_eq (hu : Valued u a) (hv : Valued v b) : u.compare v = some (compare a b) := by
  cases hu with
  | zero s =>
    cases hv with
    | zero s' => rfl
    | @finite s' m e hpos h he =>
      have hmag : (0 : ℚ) < m * 2 ^ e := by positivity
      cases s' with
      | negative => exact congrArg some (compare_gt_iff_gt.mpr (by simpa [Sign.apply] using hmag)).symm
      | positive => exact congrArg some (compare_lt_iff_lt.mpr (by simpa [Sign.apply] using hmag)).symm
  | @finite s m e hpos h he =>
    have hmag : (0 : ℚ) < m * 2 ^ e := by positivity
    cases hv with
    | zero s' =>
      cases s with
      | negative => exact congrArg some (compare_lt_iff_lt.mpr (by simpa [Sign.apply] using hmag)).symm
      | positive => exact congrArg some (compare_gt_iff_gt.mpr (by simpa [Sign.apply] using hmag)).symm
    | @finite s' m' e' hpos' h' he' =>
      have hmag' : (0 : ℚ) < m' * 2 ^ e' := by positivity
      have heq := h.compare_eq h'
      cases s <;> cases s' <;> simp only [UnpackedFloat.compare, Sign.apply, Int.cast_neg, Int.cast_natCast, neg_mul]
      · rw [heq, compare_neg]
      · rw [compare_lt_iff_lt.mpr]
        linarith
      · rw [compare_gt_iff_gt.mpr]
        linarith
      · rw [heq]

theorem le_iff (ha : value? x = some a) (hb : value? y = some b) : x ≤ y ↔ a ≤ b := by
  have hle : x ≤ y ↔ UnpackedFloat.le x.toModel.unpack y.toModel.unpack = true := decide_eq_true_iff
  rw [hle, UnpackedFloat.le, (valued ha).compare_eq (valued hb)]
  exact Ordering.isLE_iff_ne_gt.trans compare_le_iff_le

theorem lt_iff (ha : value? x = some a) (hb : value? y = some b) : x < y ↔ a < b := by
  have hlt : x < y ↔ UnpackedFloat.lt x.toModel.unpack y.toModel.unpack = true := decide_eq_true_iff
  rw [hlt, UnpackedFloat.lt, (valued ha).compare_eq (valued hb), beq_iff_eq, Option.some.injEq]
  exact compare_lt_iff_lt

theorem beq_iff (ha : value? x = some a) (hb : value? y = some b) : (x == y) = true ↔ a = b := by
  have hbeq : (x == y) = UnpackedFloat.beq x.toModel.unpack y.toModel.unpack := rfl
  rw [hbeq, UnpackedFloat.beq, (valued ha).compare_eq (valued hb), beq_iff_eq, Option.some.injEq]
  exact compare_eq_iff_eq

theorem beq_zero_iff (x : Float) : (x == 0) = true ↔ value? x = some 0 := by
  have hbeq : (x == 0) = UnpackedFloat.beq x.toModel.unpack (.zero .positive) := rfl
  rw [hbeq]
  cases hx : value? x with
  | none =>
    obtain ⟨s, hu⟩ | hu := infinite_or_nan hx
    · rw [hu]
      cases s <;> simp [UnpackedFloat.beq, UnpackedFloat.compare]
    · simp [hu, UnpackedFloat.beq, UnpackedFloat.compare]
  | some a =>
    rw [UnpackedFloat.beq, (valued hx).compare_eq (.zero .positive), beq_iff_eq, Option.some.injEq, Option.some.injEq]
    exact compare_eq_iff_eq

/-! ## Subtracting -/

theorem apply_mul_zpow_ne_zero (s : Sign) (hpos : 0 < m) (e : Int) : (s.apply m : ℚ) * 2 ^ e ≠ 0 := by
  have hpow : (2 : ℚ) ^ e ≠ 0 := by positivity
  cases s <;> simp [Sign.apply, hpos.ne', hpow]

/-- A rounded number is never zero once it is stored. -/
theorem value?_pack_ne_zero (hpos : 0 < m) (h : Canonical m e) :
    unpackedValue? (pack (.finite s m e hpos)).unpack ≠ some 0 := by
  rcases le_or_gt e 971 with he | he
  · rw [unpack_pack_finite hpos h he]
    exact fun hzero => apply_mul_zpow_ne_zero s hpos e (Option.some.inj hzero)
  · rw [unpack_pack_large hpos he]
    exact nofun

theorem value?_normalize (n : Int) (he : -1074 ≤ e) :
    unpackedValue? (pack (UnpackedFloat.normalize Format.binary64 n e .positive)).unpack = some 0 ↔ n = 0 := by
  unfold UnpackedFloat.normalize
  split
  · next h =>
    have hneg : n < 0 := compare_lt_iff_lt.mp h
    obtain ⟨m', e', hpos, heq, hcanonical, -⟩ := rounded_round .negative (m := (-n).toNat) (by omega) he
    rw [heq]
    exact iff_of_false (value?_pack_ne_zero hpos hcanonical) hneg.ne
  · next h =>
    have hzero : n = 0 := compare_eq_iff_eq.mp h
    exact iff_of_true rfl hzero
  · next h =>
    have hgt : 0 < n := compare_gt_iff_gt.mp h
    obtain ⟨m', e', hpos, heq, hcanonical, -⟩ := rounded_round .positive (m := n.toNat) (by omega) he
    rw [heq]
    exact iff_of_false (value?_pack_ne_zero hpos hcanonical) hgt.ne'

/-- The same number with a smaller exponent. -/
theorem apply_shiftLeft (s : Sign) (m : Nat) {k : Int} (h : k ≤ e) :
    (s.apply m : ℚ) * 2 ^ e = s.apply (m <<< (e - k).toNat : Nat) * 2 ^ k := by
  have he : e = (e - k).toNat + k := by omega
  rw [Nat.shiftLeft_eq]
  conv_lhs => rw [he, zpow_add₀ (by norm_num), zpow_natCast, ← mul_assoc]
  cases s <;> simp [Sign.apply]

theorem Valued.value?_sub (hu : Valued u a) (hv : Valued v b) :
    unpackedValue? (pack (UnpackedFloat.sub Format.binary64 u v)).unpack = some 0 ↔ a = b := by
  cases hu with
  | zero s =>
    cases hv with
    | zero s' => cases s <;> cases s' <;> exact iff_of_true rfl rfl
    | @finite s' m e hpos h he => exact iff_of_false (value?_pack_ne_zero hpos h) (apply_mul_zpow_ne_zero s' hpos e).symm
  | @finite s m e hpos h he =>
    cases hv with
    | zero s' => exact iff_of_false (value?_pack_ne_zero hpos h) (apply_mul_zpow_ne_zero s hpos e)
    | @finite s' m' e' hpos' h' he' =>
      have hge := h.ge
      have hge' := h'.ge
      refine (value?_normalize _ (by omega)).trans ?_
      rw [apply_shiftLeft s m (min_le_left e e'), apply_shiftLeft s' m' (min_le_right e e'),
        mul_left_inj' (by positivity), Int.cast_inj, sub_eq_zero]

/-- Floats that are not equal do not have the difference zero. -/
theorem sub_beq_zero_iff (ha : value? x = some a) (hb : value? y = some b) : (x - y == 0) = true ↔ a = b :=
  (beq_zero_iff _).trans ((valued ha).value?_sub (valued hb))

/-! ## Integers -/

theorem Rounded.unpack_pack (h : Rounded s a u) (ha : a ≤ 2 ^ 64) : (pack u).unpack = u := by
  obtain ⟨m, e, hpos, rfl, hcanonical, rfl⟩ := h
  refine unpack_pack_finite hpos hcanonical ?_
  have hone : (1 : ℚ) ≤ m := mod_cast hpos
  have hle : (2 : ℚ) ^ e ≤ 2 ^ (64 : Int) := calc
    (2 : ℚ) ^ e ≤ m * 2 ^ e := le_mul_of_one_le_left (by positivity) hone
    _ ≤ 2 ^ (64 : Int) := mod_cast ha
  have he := (zpow_le_zpow_iff_right₀ (by norm_num : (1 : ℚ) < 2)).mp hle
  omega

theorem Rounded.value?_pack (h : Rounded .positive a u) (ha : a ≤ 2 ^ 64) :
    unpackedValue? (pack u).unpack = some a := by
  rw [h.unpack_pack ha]
  obtain ⟨m, e, hpos, rfl, hcanonical, rfl⟩ := h
  rfl

theorem rounded_ofNat {n : Nat} (h0 : 0 < n) : Rounded .positive (nearest n) (UnpackedFloat.ofNat Format.binary64 n) := by
  have hround := rounded_round .positive (e := 0) h0 (by decide)
  rw [zpow_zero, mul_one] at hround
  have hgt : compare (n : Int) 0 = .gt := compare_gt_iff_gt.mpr (Int.natCast_pos.mpr h0)
  simp only [UnpackedFloat.ofNat, UnpackedFloat.ofInt, UnpackedFloat.normalize, hgt]
  exact hround

theorem Rounded.mul_one (h : Rounded .positive a u) (ha : 1 ≤ a) :
    Rounded .positive a (UnpackedFloat.mul Format.binary64 u (.finite .positive (2 ^ 52) (-52) (by decide))) := by
  obtain ⟨m, e, hpos, rfl, hcanonical, rfl⟩ := h
  have hlt : (2 : ℚ) ^ (0 : Int) < 2 ^ (53 + e) := calc
    (2 : ℚ) ^ (0 : Int) ≤ m * 2 ^ e := by simpa using ha
    _ < 2 ^ 53 * 2 ^ e := by
      have hm : (m : ℚ) < 2 ^ 53 := mod_cast hcanonical.lt
      gcongr
    _ = 2 ^ (53 + e) := by rw [zpow_add₀ (by norm_num)]; rfl
  -- so the product does not underflow
  have he := (zpow_lt_zpow_iff_right₀ (by norm_num : (1 : ℚ) < 2)).mp hlt
  have hlog := log2_mul_pow hpos.ne' 52
  have hround := rounded_roundWithAccuracy .positive (m := m * 2 ^ 52) (e := e + -52) (by positivity) (by omega)
    (.inl (by omega))
  rw [nearest_mul_pow, nearest_of_lt hcanonical.lt] at hround
  have hvalue : ((m * 2 ^ 52 : Nat) : ℚ) * 2 ^ (e + -52) = m * 2 ^ e := by
    rw [zpow_add₀ (by norm_num)]
    push_cast
    norm_num
    ring
  rwa [hvalue] at hround

theorem rounded_ofScientific {n : Nat} (h0 : 0 < n) :
    Rounded .positive (nearest n) (UnpackedFloat.ofScientific Format.binary64 n 0) := by
  have hlow : ¬ (0 : Int) < -((2 ^ 11 : Int) + n.log2) := by omega
  have hlog := log2_mul_pow h0.ne' 53
  have hround := rounded_roundWithAccuracy .positive (m := n * 2 ^ 53) (e := -53) (by positivity) (by omega)
    (.inl (by omega))
  rw [nearest_mul_pow] at hround
  have hvalue : ((nearest n * 2 ^ 53 : Nat) : ℚ) * 2 ^ (-53 : Int) = nearest n := by
    push_cast
    norm_num
    ring
  rw [hvalue] at hround
  simp only [UnpackedFloat.ofScientific, dif_neg h0.ne']
  rw [if_neg (by decide), if_neg hlow, if_pos (by decide)]
  simp only [UnpackedFloat.mul, Nat.shiftLeft_eq, Int.toNat_zero, pow_zero, Nat.mul_one, Int.add_zero]
  exact hround

theorem value?_ofNat {n : Nat} (hn : n < 2 ^ 64) : value? (Float.ofNat n) = some (nearest n : ℚ) := by
  by_cases h0 : n = 0
  · rw [h0]
    rfl
  have hpos := Nat.pos_of_ne_zero h0
  have hle : (nearest n : ℚ) ≤ 2 ^ 64 := mod_cast nearest_le (.two_pow 64) hn.le
  -- small numbers are words that are multiplied by one, all others are rounded at once
  simp only [Float.ofNat, OfScientific.ofScientific, Float.ofScientific]
  split
  · next hsmall =>
    have hword : (Float.Model.ofUInt64 n.toUInt64).unpack = UnpackedFloat.ofNat Format.binary64 n := by
      change (pack (UnpackedFloat.ofNat Format.binary64 n.toUInt64.toNat)).unpack = _
      rw [Nat.toUInt64, UInt64.toNat_ofNat_of_lt' hn, (rounded_ofNat hpos).unpack_pack hle]
    have hone : (Float.Model.ofBits 0x3FF0000000000000).unpack = .finite .positive (2 ^ 52) (-52) (by decide) := rfl
    change unpackedValue? (pack (UnpackedFloat.mul Format.binary64 (Float.Model.ofUInt64 n.toUInt64).unpack
      (Float.Model.ofBits 0x3FF0000000000000).unpack)).unpack = _
    rw [hword, hone]
    refine ((rounded_ofNat hpos).mul_one ?_).value?_pack hle
    rw [nearest_of_lt hsmall.1]
    exact_mod_cast hpos
  · next hlarge => exact (rounded_ofScientific hpos).value?_pack hle

theorem value?_ofInt {n : Int} (hn : n.natAbs < 2 ^ 64) : value? (Float.ofInt n) = some (nearestInt n : ℚ) := by
  cases n with
  | ofNat k =>
    rw [Float.ofInt, value?_ofNat (n := k) hn, Int.ofNat_eq_natCast, nearestInt_natCast, Int.cast_natCast]
  | negSucc k =>
    change value? (-Float.ofNat k.succ) = _
    rw [value?_neg, value?_ofNat (n := k.succ) hn, nearestInt]
    simp

/-! ## Finite floats -/

theorem isFinite_iff (x : Float) : x.isFinite = true ↔ ∃ a, value? x = some a := by
  have hfinite : x.isFinite = x.toModel.unpack.isFinite := rfl
  rw [hfinite, value?]
  cases x.toModel.unpack <;> simp [UnpackedFloat.isFinite, unpackedValue?]

theorem isWord_iff (i : Int) : Number.isWord i = true ↔ -Number.wordBound ≤ i ∧ i < Number.wordBound := by
  rw [Number.isWord, Bool.and_eq_true, decide_eq_true_iff, decide_eq_true_iff]

theorem isAnyWord_iff (i : Int) : Number.isAnyWord i = true ↔ -Number.wordBound ≤ i ∧ i < 2 * Number.wordBound := by
  rw [Number.isAnyWord, Bool.and_eq_true, decide_eq_true_iff, decide_eq_true_iff]

theorem isFinite_ofInt {n : Int} (hn : Number.isAnyWord n = true) : (Float.ofInt n).isFinite = true := by
  have hbounds := (isAnyWord_iff n).mp hn
  unfold Number.wordBound at hbounds
  exact (isFinite_iff _).mpr ⟨_, value?_ofInt (by omega)⟩

/-- Finite floats are ordered, which floats in general are not. -/
theorem lt_of_not_le (hx : x.isFinite = true) (h : ¬ x ≤ 0) : 0 < x := by
  have hzero : value? 0 = some 0 := rfl
  obtain ⟨a, ha⟩ := (isFinite_iff x).mp hx
  rw [le_iff ha hzero] at h
  exact (lt_iff hzero ha).mpr (not_le.mp h)

/-! ## Fractions -/

theorem natAbs_apply (s : Sign) (m : Nat) : (s.apply m).natAbs = m := by
  cases s <;> simp [Sign.apply]

theorem apply_mul_pow (s : Sign) (m k : Nat) : s.apply (m * 2 ^ k : Nat) = s.apply m * 2 ^ k := by
  cases s <;> simp [Sign.apply]

/-- Cutting bits off leaves a number as it is just if it is an integer. -/
theorem exists_int_iff (s : Sign) (m k : Nat) :
    (s.apply m : ℚ) / 2 ^ k = (s.apply (m / 2 ^ k : Nat) : Int) ↔ ∃ i : Int, (s.apply m : ℚ) / 2 ^ k = i := by
  refine ⟨fun h => ⟨_, h⟩, ?_⟩
  rintro ⟨i, hi⟩
  have hmul : s.apply m = i * 2 ^ k := by
    rw [div_eq_iff (by positivity)] at hi
    exact_mod_cast hi
  have habs : m = i.natAbs * 2 ^ k := by
    rw [← natAbs_apply s m, hmul, Int.natAbs_mul, Int.natAbs_pow]
    rfl
  rw [habs, Nat.mul_div_cancel _ (Nat.two_pow_pos k), apply_mul_pow]
  push_cast
  exact mul_div_cancel_right₀ _ (by positivity)

theorem zpow_of_neg (he : e < 0) (a : ℚ) : a * 2 ^ e = a / 2 ^ (-e).toNat := by
  have hneg : e = -((-e).toNat : Int) := by omega
  conv_lhs => rw [hneg, zpow_neg, zpow_natCast]
  rfl

theorem value?_truncate (hx : x.toModel.unpack = .finite s m e hpos) (hm : m < 2 ^ 53) (he : e < 0) :
    value? (truncate x) = some ((s.apply (m / 2 ^ (-e).toNat : Nat) : Int) : ℚ) := by
  have hlt : m / Nat.pow 2 (-e).toNat < 2 ^ 53 := Nat.lt_of_le_of_lt (Nat.div_le_self _ _) hm
  have hwhole := value?_ofNat (Nat.lt_trans hlt (by decide : 2 ^ 53 < 2 ^ 64))
  rw [nearest_of_lt hlt] at hwhole
  cases s with
  | positive =>
    simp only [truncate, Binary64.ofFloat?, hx, if_pos he]
    exact hwhole
  | negative =>
    simp only [truncate, Binary64.ofFloat?, hx, if_pos he, if_true, value?_neg, hwhole, Option.map_some, Sign.apply,
      Int.cast_neg, Int.cast_natCast]
    rfl

theorem truncate_of_nonneg (hx : x.toModel.unpack = .finite s m e hpos) (he : 0 ≤ e) : truncate x = x := by
  cases s <;> simp [truncate, Binary64.ofFloat?, hx, he.not_gt]

/-- A float has no fraction just if its number is an integer. -/
theorem fraction_eq_zero_iff (ha : value? x = some a) : (fraction x == 0) = true ↔ ∃ i : Int, a = i := by
  have hself : (x - x == 0) = true := (sub_beq_zero_iff ha ha).mpr rfl
  have hvalued := valued ha
  generalize hu : x.toModel.unpack = u at hvalued
  unfold fraction
  cases hvalued with
  | zero s =>
    have htruncate : truncate x = x := by cases s <;> simp [truncate, Binary64.ofFloat?, hu]
    rw [htruncate]
    exact iff_of_true hself ⟨0, Int.cast_zero.symm⟩
  | @finite s m e hpos h he =>
    rcases lt_or_ge e 0 with he | he
    · rw [sub_beq_zero_iff ha (value?_truncate hu h.lt he), zpow_of_neg he, exists_int_iff]
    · rw [truncate_of_nonneg hu he]
      refine iff_of_true hself ⟨s.apply m * 2 ^ e.toNat, ?_⟩
      lift e to ℕ using he
      rw [zpow_natCast, Int.toNat_natCast]
      push_cast
      rfl

/-- The infinities and NaN are no integers either. -/
theorem fraction_ne_zero (hx : value? x = none) : (fraction x == 0) = false := by
  have hunpack := infinite_or_nan hx
  have htruncate : truncate x = x := by
    obtain ⟨s, hu⟩ | hu := hunpack <;> simp [truncate, Binary64.ofFloat?, hu]
  have hsub : value? (x - x) = none := by
    change unpackedValue? (pack (UnpackedFloat.sub Format.binary64 x.toModel.unpack x.toModel.unpack)).unpack = none
    obtain ⟨s, hu⟩ | hu := hunpack
    · rw [hu]
      cases s <;> rfl
    · rw [hu]
      rfl
  rw [fraction, htruncate, Bool.eq_false_iff, ne_eq, beq_zero_iff, hsub]
  exact nofun

/-! ## Words -/

theorem mantissa_shiftRight (m k : Nat) : ((ExtendedMantissa.mk m false false) >>> k).mantissa = m / 2 ^ k := by
  cases k with
  | zero => exact (Nat.div_one m).symm
  | succ k => rw [shiftRight_succ]

theorem roundToInt_eq (s : Sign) (m : Nat) (e : Int) :
    roundToInt s m e = s.apply (m * 2 ^ e.toNat / 2 ^ (-e).toNat : Nat) := by
  have hshift : (0 - (e - e.toNat)).toNat = (-e).toNat := by omega
  simp only [roundToInt, decreaseExponent, shiftToExponent, ExtendedMantissa.ofMantissaAndAccuracy, Int.sub_zero,
    hshift, mantissa_shiftRight, Nat.shiftLeft_eq]

theorem toInt_of_integer {i low high : Int} (h : unpackedValue? u = some (i : ℚ)) : u.toInt low high = i := by
  cases u with
  | infinity s => cases h
  | notANumber => cases h
  | zero s => exact_mod_cast Option.some.inj h
  | finite s m e hpos =>
    have h := Option.some.inj h
    rw [UnpackedFloat.toInt, roundToInt_eq]
    rcases lt_or_ge e 0 with he | he
    · have hzero : e.toNat = 0 := by omega
      rw [zpow_of_neg he] at h
      have hwhole := (exists_int_iff s m (-e).toNat).mpr ⟨i, h⟩
      rw [hzero, Nat.pow_zero, Nat.mul_one]
      exact_mod_cast hwhole.symm.trans h
    · lift e to ℕ using he
      have hzero : (-(e : Int)).toNat = 0 := by omega
      rw [hzero, Nat.pow_zero, Nat.div_one, Int.toNat_natCast, apply_mul_pow]
      rw [zpow_natCast] at h
      exact_mod_cast h

/-- A word that is a float's number is what the float is cast to. -/
theorem toInt64_of_integer {i : Int} (h : value? x = some (i : ℚ)) (hi : Number.isWord i = true) :
    x.toModel.toInt64.toInt = i := by
  obtain ⟨hlow, hhigh⟩ := (isWord_iff i).mp hi
  change (Int64.ofIntClamp (x.toModel.unpack.toInt Int64.minValue.toInt Int64.maxValue.toInt)).toInt = i
  rw [toInt_of_integer h]
  exact Int64.toInt_ofIntClamp hlow (Int.le_of_lt_add_one hhigh)

end Blueprint.Decimal
