import Univariate.Proofs.Scalar.Binary64.Factor
import Univariate.Proofs.Scalar.Binary64.Fraction

/-!
# Written decimals in double precision

A decimal with no power of ten to be multiplied by is one division of two whole numbers, both taken
exactly, so that it is read as the value that it rounds to.
-/

open Float.Model Float.Model.UnpackedFloat

namespace Univariate.Binary64

variable {s : Sign} {m : Nat} {e : Int} {hm : 0 < m}

/-! ### Division -/

/-- The quotient, with what the remainder tells about the rest. -/
theorem represents_accuracyOfFraction (n : Nat) {d : Nat} (hd : 0 < d) :
    Represents (.ofMantissaAndAccuracy (n / d) (accuracyOfFraction (n % d) d)) n d := by
  have hn : n = n / d * d + n % d := by
    rw [Nat.mul_comm]
    exact (Nat.div_add_mod n d).symm
  have hlt := Nat.mod_lt n hd
  generalize n / d = q at *
  generalize n % d = r at *
  subst hn
  unfold accuracyOfFraction
  split
  · next hzero =>
      subst hzero
      change 2 * (q * d + 0) = 2 * q * d
      ring
  · next hzero =>
      rcases lt_trichotomy (2 * r) d with hbelow | htie | habove
      · rw [compare_lt_iff_lt.mpr hbelow]
        change 2 * q * d < 2 * (q * d + r) ∧ 2 * (q * d + r) < (2 * q + 1) * d
        constructor <;> linarith [Nat.pos_of_ne_zero hzero]
      · rw [compare_eq_iff_eq.mpr htie]
        change 2 * (q * d + r) = (2 * q + 1) * d
        linarith
      · rw [compare_gt_iff_gt.mpr habove]
        change (2 * q + 1) * d < 2 * (q * d + r) ∧ 2 * (q * d + r) < (2 * q + 2) * d
        constructor <;> linarith

/-- The quotient has bits enough to be rounded. -/
theorem le_targetExponent_div {m₁ m₂ k : Nat} (hm₁ : 0 < m₁) (hm₂ : 0 < m₂) {e₁ e₂ t : Int}
    (ht : t = min (e₁ - e₂)
      (Format.binary64.targetExponent (totalExponent m₁ e₁ - totalExponent m₂ e₂)))
    (hk : e₁ - e₂ = t + k) :
    t ≤ Format.binary64.targetExponent (totalExponent (m₁ * 2 ^ k / m₂) t) := by
  change t = min (e₁ - e₂)
    (max ((m₁.log2 : Int) + 1 + e₁ - ((m₂.log2 : Int) + 1 + e₂) - (53 : Nat)) (-1074)) at ht
  change t ≤ max (((m₁ * 2 ^ k / m₂).log2 : Int) + 1 + t - (53 : Nat)) (-1074)
  by_cases hsmall : t ≤ -1074
  · exact hsmall.trans (le_max_right _ _)
  · have hlog : m₂.log2 + 53 ≤ (m₁ * 2 ^ k).log2 := by
      rw [log2_mul_two_pow hm₁.ne']
      omega
    have hquotient : 2 ^ 52 ≤ m₁ * 2 ^ k / m₂ := by
      rw [Nat.le_div_iff_mul_le hm₂]
      calc 2 ^ 52 * m₂ ≤ 2 ^ 52 * 2 ^ (m₂.log2 + 1) :=
            Nat.mul_le_mul_left _ (Nat.lt_log2_self (n := m₂)).le
        _ = 2 ^ (m₂.log2 + 53) := by ring
        _ ≤ m₁ * 2 ^ k := (Nat.le_log2 (by positivity)).mp hlog
    have hlog' : 52 ≤ (m₁ * 2 ^ k / m₂).log2 := (Nat.le_log2 (by omega)).mpr hquotient
    exact le_max_of_le_left (by omega)

/-- **Quotients are rounded to the nearest value.** -/
theorem div_of_roundsTo (hcanonical : Canonical (.finite .positive m e hm)) {m₁ m₂ : Nat}
    {hm₁ : 0 < m₁} {hm₂ : 0 < m₂} {e₁ e₂ : Int} (hv : RoundsTo m e (m₁ / m₂ * 2 ^ (e₁ - e₂))) :
    SameBits (UnpackedFloat.div Format.binary64 (.finite .positive m₁ e₁ hm₁)
      (.finite .positive m₂ e₂ hm₂)) (.finite .positive m e hm) := by
  generalize ht : min (e₁ - e₂)
    (Format.binary64.targetExponent (totalExponent m₁ e₁ - totalExponent m₂ e₂)) = t
  obtain ⟨k, hk⟩ : ∃ k : Nat, e₁ - e₂ = t + k := ⟨(e₁ - e₂ - t).toNat, by omega⟩
  have hamount : (e₁ - e₂ - t).toNat = k := by omega
  have hdiv : UnpackedFloat.div Format.binary64 (.finite .positive m₁ e₁ hm₁)
      (.finite .positive m₂ e₂ hm₂) = roundWithAccuracy Format.binary64 .positive
        (m₁ * 2 ^ k / m₂) t (accuracyOfFraction (m₁ * 2 ^ k % m₂) m₂) := by
    unfold UnpackedFloat.div divCore
    dsimp only
    rw [ht, hamount, Nat.shiftLeft_eq]
    rfl
  rw [hdiv]
  apply roundWithAccuracy_of_roundsTo .positive hcanonical hm₂
    (represents_accuracyOfFraction _ hm₂) (le_targetExponent_div hm₁ hm₂ ht.symm hk)
  rw [hk, zpow_add₀ two_ne_zero, zpow_natCast] at hv
  have hunits : ((m₁ * 2 ^ k : Nat) / m₂ * 2 ^ t : ℚ) = m₁ / m₂ * (2 ^ t * 2 ^ k) := by
    push_cast
    ring
  rwa [hunits]

/-! ### Whole numbers -/

theorem roundsTo_self (m : Nat) (e : Int) : RoundsTo m e (m * 2 ^ e) where
  lower := by
    gcongr
    split <;> linarith
  upper := by
    gcongr
    linarith
  odd _ := by
    constructor
    · gcongr
      linarith
    · gcongr
      linarith

/-- **Whole numbers are rounded to the nearest value.** -/
theorem round_of_roundsTo (hcanonical : Canonical (.finite .positive m e hm)) {n : Nat} {t : Int}
    (hn : n ≠ 0) (hv : RoundsTo m e (n * 2 ^ t)) :
    SameBits (UnpackedFloat.round Format.binary64 .positive n t) (.finite .positive m e hm) := by
  unfold UnpackedFloat.round decreaseExponent
  dsimp only
  generalize htarget : Format.binary64.targetExponent (totalExponent n t) = target
  generalize hk : (t - target).toNat = k
  have htotal : totalExponent (n <<< k) (t - k) = totalExponent n t := by
    unfold totalExponent
    rw [Nat.shiftLeft_eq, log2_mul_two_pow hn]
    omega
  have hrep : Represents (.ofMantissaAndAccuracy (n <<< k) .exact) (n <<< k) 1 :=
    (Nat.mul_one _).symm
  apply roundWithAccuracy_of_roundsTo .positive hcanonical Nat.one_pos hrep
  · rw [htotal, htarget]
    omega
  · have hunits : ((n <<< k : Nat) / (1 : Nat) * 2 ^ (t - k) : ℚ) = n * 2 ^ t := by
      rw [Nat.shiftLeft_eq, zpow_sub₀ two_ne_zero, zpow_natCast]
      push_cast
      field_simp
    rwa [hunits]

theorem unpack_pack_finite (hcanonical : Canonical (.finite s m e hm)) (he : e ≤ 971) :
    (Float.Model.pack (.finite s m e hm)).unpack = .finite s m e hm := by
  obtain ⟨hsign, hrank⟩ := unpack_pack hcanonical
  obtain ⟨hrank', hlt⟩ := rank_lt_infinityRank hcanonical he
  have hcanonical' : Canonical (Float.Model.pack (.finite s m e hm)).unpack := canonical_unpack _
  have hfits' : Fits (Float.Model.pack (.finite s m e hm)).unpack := fits_unpack _
  rw [hrank'] at hrank
  cases hunpack : (Float.Model.pack (.finite s m e hm)).unpack with
  | notANumber =>
      rw [hunpack] at hrank
      change 2047 * 2 ^ 52 + 2 ^ 51 = _ at hrank
      omega
  | infinity t =>
      rw [hunpack] at hrank
      change 2047 * 2 ^ 52 = _ at hrank
      omega
  | zero t =>
      rw [hunpack] at hrank
      change 0 = _ at hrank
      omega
  | finite t n f hn =>
      rw [hunpack] at hsign hrank hcanonical' hfits'
      obtain ⟨hrank'', -⟩ := rank_lt_infinityRank hcanonical' hfits'
      obtain ⟨he, hm, hfull⟩ := canonical_bounds hcanonical
      obtain ⟨hf, hn, hfull'⟩ := canonical_bounds hcanonical'
      rw [hrank''] at hrank
      obtain rfl : t = s := hsign
      obtain rfl : f = e := by omega
      obtain rfl : n = m := by omega
      rfl

/-- A whole number in the form that it is stored in. -/
theorem canonical_shifted {n : Nat} (hn : 0 < n) (hlt : n < 2 ^ 53) :
    Canonical (.finite s (n * 2 ^ (52 - n.log2)) (n.log2 - 52) (by positivity)) ∧
      ((n * 2 ^ (52 - n.log2) : Nat) * 2 ^ ((n.log2 : Int) - 52) : ℚ) = n := by
  have hlog : n.log2 ≤ 52 := Nat.le_of_lt_succ ((Nat.log2_lt hn.ne').mpr hlt)
  constructor
  · left
    rw [log2_mul_two_pow hn.ne']
    omega
  · have hexponent : ((n.log2 : Int) - 52) = -((52 - n.log2 : Nat) : Int) := by omega
    rw [hexponent, zpow_neg, zpow_natCast]
    push_cast
    field_simp

theorem toFloat_eq_round {n : Nat} (hn : 0 < n) (hlt : n < 2 ^ 53) :
    n.toUInt64.toFloat = .ofModel (.pack (UnpackedFloat.round Format.binary64 .positive n 0)) := by
  have hn64 : n.toUInt64.toNat = n := Nat.mod_eq_of_lt (by omega)
  have hround : UnpackedFloat.ofUInt64 Format.binary64 n.toUInt64 =
      UnpackedFloat.round Format.binary64 .positive n 0 := by
    unfold UnpackedFloat.ofUInt64 UnpackedFloat.ofNat UnpackedFloat.ofInt UnpackedFloat.normalize
    rw [hn64, compare_gt_iff_gt.mpr (by omega : (n : Int) > 0)]
    rfl
  rw [← hround]
  rfl

/-- Whole numbers with few enough bits are taken exactly. -/
theorem exists_unpack_toFloat_eq {n : Nat} (hn : 0 < n) (hlt : n < 2 ^ 53) :
    ∃ (a : Nat) (f : Int) (ha : 0 < a), n.toUInt64.toFloat.toModel.unpack = .finite .positive a f ha ∧
      (a * 2 ^ f : ℚ) = n := by
  obtain ⟨hcanonical, hvalue⟩ := canonical_shifted (s := .positive) hn hlt
  refine ⟨n * 2 ^ (52 - n.log2), n.log2 - 52, by positivity, ?_, hvalue⟩
  have hv : RoundsTo (n * 2 ^ (52 - n.log2)) (n.log2 - 52) (n * 2 ^ (0 : Int)) := by
    have h := roundsTo_self (n * 2 ^ (52 - n.log2)) (n.log2 - 52)
    rwa [hvalue, ← mul_one (n : ℚ), ← zpow_zero (2 : ℚ)] at h
  have hsame := (round_of_roundsTo hcanonical hn.ne' hv).pack_eq hcanonical
  have hlog : n.log2 ≤ 52 := Nat.le_of_lt_succ ((Nat.log2_lt hn.ne').mpr hlt)
  rw [toFloat_eq_round hn hlt, hsame]
  exact unpack_pack_finite hcanonical (by omega)

/-! ### Powers of ten -/

theorem amount_powerOfTen :
    ∀ k : Fin 23, amount Float.exactlyRepresentablePowersOfTen[k] = (10 ^ k.val * 2 ^ 1074 : Nat) := by
  decide +kernel

theorem sign_and_size_of_amount {x : Float} {n : Nat} (hn : 0 < n) (h : amount x = n) :
    sign x.toModel.unpack = .positive ∧ size x.toModel.unpack = n := by
  unfold amount units at h
  cases hsign : sign x.toModel.unpack with
  | positive =>
      rw [hsign, apply_positive] at h
      exact ⟨rfl, Int.ofNat.inj h⟩
  | negative =>
      rw [hsign, apply_negative] at h
      omega

theorem exists_unpack_eq_of_amount {x : Float} {n : Nat} (hn : 0 < n)
    (h : amount x = (n * 2 ^ 1074 : Nat)) :
    ∃ (b : Nat) (g : Int) (hb : 0 < b), x.toModel.unpack = .finite .positive b g hb ∧
      (b * 2 ^ g : ℚ) = n := by
  have hcanonical : Canonical x.toModel.unpack := canonical_unpack _
  have hpos : 0 < n * 2 ^ 1074 := by positivity
  obtain ⟨hsign, hsize⟩ := sign_and_size_of_amount hpos h
  generalize x.toModel.unpack = u at *
  cases u with
  | finite s b g hb =>
      obtain rfl : s = .positive := hsign
      refine ⟨b, g, hb, rfl, ?_⟩
      obtain ⟨hg, -, -⟩ := canonical_bounds hcanonical
      obtain ⟨j, hj⟩ : ∃ j : Nat, g = j - (1074 : Nat) := ⟨(g + 1074).toNat, by omega⟩
      have hexponent : (g + 1074).toNat = j := by omega
      change b * 2 ^ (g + 1074).toNat = _ at hsize
      have hsize' := congrArg (Nat.cast : Nat → ℚ) hsize
      rw [hexponent, Nat.cast_mul, Nat.cast_mul, Nat.cast_pow, Nat.cast_pow, Nat.cast_two] at hsize'
      rw [hj, zpow_sub₀ two_ne_zero, zpow_natCast, zpow_natCast, ← mul_div_assoc, hsize']
      exact mul_div_cancel_right₀ _ (by positivity)
  | _ => exact absurd hsize hpos.ne

/-! ### Decimals -/

variable {n k : Nat}

theorem ofScientific_zero_of_roundsTo (hcanonical : Canonical (.finite .positive m e hm))
    (hn : n ≠ 0) (hv : RoundsTo m e n) :
    Float.ofScientific n false 0 = .ofModel (.pack (.finite .positive m e hm)) := by
  have hpos := Nat.pos_of_ne_zero hn
  unfold Float.ofScientific
  split
  · next hfast =>
      have hone : Float.exactlyRepresentablePowersOfTen[0].toModel.unpack =
          .finite .positive (2 ^ 52) (-52) (by decide) := rfl
      have hround : RoundsTo m e (n * 2 ^ (0 : Int)) := by rwa [zpow_zero, mul_one]
      change Float.ofModel (.pack (.mul _ n.toUInt64.toFloat.toModel.unpack
        Float.exactlyRepresentablePowersOfTen[0].toModel.unpack)) = _
      rw [hone, mul_unit, toFloat_eq_round hpos hfast.1]
      change Float.ofModel (.pack (Float.Model.pack _).unpack) = _
      rw [pack_unpack_model, (round_of_roundsTo hcanonical hn hround).pack_eq hcanonical]
  · have hscientific : UnpackedFloat.ofScientific Format.binary64 n 0 =
        roundWithAccuracy Format.binary64 .positive (n <<< 53 * 1) (-53) .exact := by
      unfold UnpackedFloat.ofScientific
      rw [dif_neg hn, if_neg (by decide), if_neg (by change ¬(0 : Int) < -(2 ^ 11 + _); omega),
        if_pos (Int.le_refl 0)]
      rfl
    have hrep : Represents (.ofMantissaAndAccuracy (n <<< 53 * 1) .exact) (n <<< 53 * 1) 1 :=
      (Nat.mul_one _).symm
    have hunits : ((n <<< 53 * 1 : Nat) / (1 : Nat) * 2 ^ (-53 : Int) : ℚ) = n := by
      rw [Nat.shiftLeft_eq, zpow_neg]
      push_cast
      field_simp
    have hle : (-53 : Int) ≤ Format.binary64.targetExponent (totalExponent (n <<< 53 * 1) (-53)) := by
      change _ ≤ max (((n <<< 53 * 1).log2 : Int) + 1 + -53 - (53 : Nat)) (-1074)
      rw [Nat.shiftLeft_eq, Nat.mul_one, log2_mul_two_pow hn]
      omega
    rw [← hunits] at hv
    change Float.ofModel (.pack (UnpackedFloat.ofScientific Format.binary64 n 0)) = _
    rw [hscientific, (roundWithAccuracy_of_roundsTo .positive hcanonical Nat.one_pos hrep hle
      hv).pack_eq hcanonical]

theorem ofScientific_true_of_roundsTo (hcanonical : Canonical (.finite .positive m e hm))
    (hn : n ≠ 0) (hk : k ≠ 0) (hle : k ≤ n.log2 + 330) (hv : RoundsTo m e (n / 10 ^ k)) :
    Float.ofScientific n true k = .ofModel (.pack (.finite .positive m e hm)) := by
  have hpos := Nat.pos_of_ne_zero hn
  unfold Float.ofScientific
  split
  · next hfast =>
      obtain ⟨a, f, ha, ha', hvalue⟩ := exists_unpack_toFloat_eq hpos hfast.1
      obtain ⟨b, g, hb, hb', hpower⟩ :=
        exists_unpack_eq_of_amount (by positivity) (amount_powerOfTen ⟨k, by omega⟩)
      have hquotient : (a / b * 2 ^ (f - g) : ℚ) = n / 10 ^ k := by
        push_cast at hpower
        rw [zpow_sub₀ two_ne_zero, ← hvalue, ← hpower]
        field_simp
      rw [← hquotient] at hv
      have hdiv : SameBits (UnpackedFloat.div Format.binary64 (.finite .positive a f ha)
          (.finite .positive b g hb)) (.finite .positive m e hm) := div_of_roundsTo hcanonical hv
      rw [← ha', ← hb'] at hdiv
      exact congrArg Float.ofModel (hdiv.pack_eq hcanonical)
  · have hexponent : Int.negOfNat k = -(k : Int) := Int.negOfNat_eq
    have hscientific : UnpackedFloat.ofScientific Format.binary64 n (-(k : Int)) =
        UnpackedFloat.div Format.binary64 (.finite .positive n 0 hpos)
          (.finite .positive (10 ^ (-(-(k : Int))).toNat) 0 (by positivity)) := by
      unfold UnpackedFloat.ofScientific
      rw [dif_neg hn, if_neg (by change ¬-(k : Int) > 2 ^ 11; omega),
        if_neg (by change ¬-(k : Int) < -(2 ^ 11 + _); omega), if_neg (by omega)]
    have hquotient : (n / (10 ^ (-(-(k : Int))).toNat : Nat) * 2 ^ ((0 : Int) - 0) : ℚ) =
        n / 10 ^ k := by
      rw [Int.neg_neg, Int.toNat_natCast, sub_zero, zpow_zero, mul_one]
      push_cast
      rfl
    rw [← hquotient] at hv
    change Float.ofModel (.pack (UnpackedFloat.ofScientific Format.binary64 n (Int.negOfNat k))) = _
    rw [hexponent, hscientific, (div_of_roundsTo hcanonical hv).pack_eq hcanonical]

theorem RoundsTo.half_unit_le {v : ℚ} (h : RoundsTo m e v) (hpos : 0 < m) (he : -1074 ≤ e) :
    (2 ^ (-1075 : Int) : ℚ) ≤ v := by
  have hm : (1 : ℚ) ≤ m := by exact_mod_cast hpos
  have hunit : (2 ^ (-1074 : Int) : ℚ) ≤ 2 ^ e := zpow_le_zpow_right₀ one_le_two he
  have hmiddle : (1 / 2 : ℚ) ≤ m - if m = 2 ^ 52 ∧ e ≠ -1074 then 1 / 4 else 1 / 2 := by
    split <;> linarith
  calc (2 ^ (-1075 : Int) : ℚ) = 2 ^ (-1 : Int) * 2 ^ (-1074 : Int) := by
        rw [← zpow_add₀ two_ne_zero]
        rfl
    _ = 1 / 2 * 2 ^ (-1074 : Int) := by norm_num
    _ ≤ ((m : ℚ) - if m = 2 ^ 52 ∧ e ≠ -1074 then 1 / 4 else 1 / 2) * 2 ^ e :=
        mul_le_mul hmiddle hunit (by positivity) (by linarith)
    _ ≤ v := h.lower

theorem two_pow_le_ten_pow_330 : 2 ^ 1075 ≤ 10 ^ 330 := by decide +kernel

/-- What surely vanishes is smaller than half a unit. -/
theorem vanishing_lt {k : Nat} (h : n.log2 + 330 < k) :
    (n / 10 ^ k : ℚ) < 2 ^ (-1075 : Int) := by
  obtain ⟨j, rfl⟩ : ∃ j, k = j + 330 := ⟨k - 330, by omega⟩
  have hdigits : n < 10 ^ j := by
    calc n < 2 ^ (n.log2 + 1) := Nat.lt_log2_self
      _ ≤ 2 ^ j := Nat.pow_le_pow_right (by decide) (by omega)
      _ ≤ 10 ^ j := Nat.pow_le_pow_left (by decide) j
  have hdigits' : (n : ℚ) < 10 ^ j := by exact_mod_cast hdigits
  have hlimit : (2 : ℚ) ^ 1075 ≤ 10 ^ 330 := by exact_mod_cast two_pow_le_ten_pow_330
  have hexponent : (-1075 : Int) = -(1075 : Nat) := rfl
  calc (n / 10 ^ (j + 330) : ℚ) < 10 ^ j / 10 ^ (j + 330) := by gcongr
    _ = (10 ^ 330)⁻¹ := by
        rw [pow_add]
        field_simp
    _ ≤ (2 ^ 1075)⁻¹ := inv_anti₀ (by positivity) hlimit
    _ = 2 ^ (-1075 : Int) := by rw [hexponent, zpow_neg, zpow_natCast]

def packedSign : Bool → Sign
  | false => .positive
  | true => .negative

/-- **A decimal is read as the value that it rounds to.** -/
theorem ofNumeral_of_roundsTo (hcanonical : Canonical (.finite .positive m e hm)) (negative : Bool)
    {digits : Nat} {exponent : Int} (hexponent : exponent ≤ 0)
    (hv : RoundsTo m e (digits * 10 ^ exponent)) :
    ofNumeral (.decimal negative digits exponent) =
      .ofModel (.pack (.finite (packedSign negative) m e hm)) := by
  obtain ⟨he, -, -⟩ := canonical_bounds hcanonical
  obtain ⟨k, rfl⟩ := Int.exists_eq_neg_ofNat hexponent
  rw [zpow_neg, zpow_natCast, ← div_eq_mul_inv] at hv
  have hsmallest := hv.half_unit_le hm he
  have hdigits : digits ≠ 0 := by
    rintro rfl
    rw [Nat.cast_zero, zero_div] at hsmallest
    exact absurd hsmallest (not_le.mpr (by positivity))
  have hlarge : k ≤ digits.log2 + 330 := by
    by_contra hlt
    exact absurd hsmallest (not_le.mpr (vanishing_lt (not_le.mp hlt)))
  have hsize : (if (digits == 0 || decide (-(k : Int) + digits.log2 < -330)) = true then
      Float.ofBits 0 else if 310 < -(k : Int) then Float.ofBits 0x7ff0000000000000 else
        Float.ofScientific digits (decide (-(k : Int) < 0)) (-(k : Int)).natAbs) =
      .ofModel (.pack (.finite .positive m e hm)) := by
    rw [if_neg (by simp only [Bool.or_eq_true, beq_iff_eq, decide_eq_true_eq]; omega),
      if_neg (by omega), Int.natAbs_neg, Int.natAbs_natCast]
    rcases Nat.eq_zero_or_pos k with rfl | hk
    · rw [pow_zero, div_one] at hv
      exact ofScientific_zero_of_roundsTo hcanonical hdigits hv
    · rw [decide_eq_true (by omega)]
      exact ofScientific_true_of_roundsTo hcanonical hdigits hk.ne' hlarge hv
  unfold ofNumeral
  dsimp only
  rw [hsize]
  cases negative with
  | false => rfl
  | true =>
      change Float.ofModel (.pack (Float.Model.pack (.finite .positive m e hm)).unpack.neg) = _
      rw [← unpack_pack_neg, pack_unpack_model]
      rfl

end Univariate.Binary64
