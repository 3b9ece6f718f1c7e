import Univariate.Proofs.Scalar.Binary64.Rounding

/-!
# Fractions in double precision

Every fraction between the middles to the two neighbours of a value is rounded to this value, be it
given as a quotient with a remainder or as bits that do not fit.
-/

open Float.Model Float.Model.UnpackedFloat

namespace Univariate.Binary64

/-- The fraction lies between the middles to the neighbours of `m * 2 ^ e`, of which the lower one
is half as far away below a power of two. The middles belong to even mantissas. -/
structure RoundsTo (m : Nat) (e : Int) (v : ℚ) : Prop where
  lower : ((m : ℚ) - if m = 2 ^ 52 ∧ e ≠ -1074 then 1 / 4 else 1 / 2) * 2 ^ e ≤ v
  upper : v ≤ ((m : ℚ) + 1 / 2) * 2 ^ e
  odd : m % 2 = 1 → ((m : ℚ) - 1 / 2) * 2 ^ e < v ∧ v < ((m : ℚ) + 1 / 2) * 2 ^ e

theorem Represents.roundedMantissa_eq_of_rat {em : ExtendedMantissa} {num den : Nat}
    (h : Represents em num den) (hpos : 0 < den) {m : Nat}
    (hlower : (m : ℚ) - 1 / 2 ≤ num / den) (hupper : (num / den : ℚ) ≤ m + 1 / 2)
    (hodd : m % 2 = 1 → (m : ℚ) - 1 / 2 < num / den ∧ (num / den : ℚ) < m + 1 / 2) :
    em.roundedMantissa = m := by
  have hden : (0 : ℚ) < den := by exact_mod_cast hpos
  rw [le_div_iff₀ hden] at hlower
  rw [div_le_iff₀ hden] at hupper
  rw [lt_div_iff₀ hden, div_lt_iff₀ hden] at hodd
  apply h.roundedMantissa_eq hpos
  · have h : (2 * m * den : ℚ) ≤ 2 * num + den := by linarith
    exact_mod_cast h
  · have h : (2 * num : ℚ) ≤ 2 * m * den + den := by linarith
    exact_mod_cast h
  · intro hm
    obtain ⟨hlower, hupper⟩ := hodd hm
    have h : (2 * m * den : ℚ) < 2 * num + den ∧ (2 * num : ℚ) < 2 * m * den + den := by
      constructor <;> linarith
    exact_mod_cast h

theorem represents_ofMantissaAndAccuracy {q num den : Nat} {a : Accuracy}
    (h : Represents (.ofMantissaAndAccuracy q a) num den) (hpos : 0 < den) :
    q * den ≤ num ∧ num < (q + 1) * den := by
  have hmantissa : (ExtendedMantissa.ofMantissaAndAccuracy q a).mantissa = q := by
    cases a with
    | exact => rfl
    | inexact side => cases side <;> rfl
  have hfloor := h.floor hpos
  rwa [hmantissa] at hfloor

/-- The size of a fraction against the exponent that it is shifted to. -/
theorem fraction_bounds {q num den : Nat} {a : Accuracy} {t target : Int}
    (htarget : Format.binary64.targetExponent (totalExponent q t) = target) (hle : t ≤ target)
    (h : Represents (.ofMantissaAndAccuracy q a) num den) (hpos : 0 < den) :
    (num / den * 2 ^ t : ℚ) < 2 ^ (target + 53) ∧
      (target ≠ -1074 → (2 ^ (target + 52) : ℚ) ≤ num / den * 2 ^ t) := by
  have hden : (0 : ℚ) < den := by exact_mod_cast hpos
  have htargetEq : max ((q.log2 : Int) + 1 + t - (53 : Nat)) (-1074) = target := htarget
  obtain ⟨hfloor, hceil⟩ := represents_ofMantissaAndAccuracy h hpos
  constructor
  · have hlog : q + 1 ≤ 2 ^ (q.log2 + 1) := Nat.lt_log2_self
    have hnum : (num / den : ℚ) < 2 ^ (q.log2 + 1) := by
      rw [div_lt_iff₀ hden]
      have hlt : num < 2 ^ (q.log2 + 1) * den :=
        hceil.trans_le (Nat.mul_le_mul_right den hlog)
      exact_mod_cast hlt
    calc (num / den * 2 ^ t : ℚ) < 2 ^ (q.log2 + 1) * 2 ^ t := by gcongr
      _ = 2 ^ ((q.log2 : Int) + 1 + t) := by
          rw [← zpow_natCast, ← zpow_add₀ two_ne_zero]
          push_cast
          rfl
      _ ≤ 2 ^ (target + 53) := zpow_le_zpow_right₀ one_le_two (by omega)
  · intro hne
    have hq : q ≠ 0 := by
      rintro rfl
      have hzero : Nat.log2 0 = 0 := by decide
      omega
    have hlog : 2 ^ q.log2 ≤ q := Nat.log2_self_le hq
    have hnum : (2 ^ q.log2 : ℚ) ≤ num / den := by
      rw [le_div_iff₀ hden]
      exact_mod_cast (Nat.mul_le_mul_right den hlog).trans hfloor
    calc (2 ^ (target + 52) : ℚ) = 2 ^ q.log2 * 2 ^ t := by
          rw [← zpow_natCast, ← zpow_add₀ two_ne_zero]
          congr 1
          omega
      _ ≤ num / den * 2 ^ t := by gcongr

theorem two_zpow_add_natCast (e : Int) (n : Nat) : (2 ^ (e + n) : ℚ) = 2 ^ n * 2 ^ e := by
  rw [zpow_add₀ two_ne_zero, zpow_natCast, mul_comm]

namespace RoundsTo

variable {m : Nat} {e : Int} {v : ℚ}

/-- A full mantissa is the smallest one, if the fraction is below it. -/
theorem mantissa_eq (h : RoundsTo m e v) (hfull : 2 ^ 52 ≤ m) (hv : v < 2 ^ 52 * 2 ^ e) :
    m = 2 ^ 52 := by
  by_contra hne
  have hunit : (0 : ℚ) < 2 ^ e := by positivity
  have hle : (2 ^ 52 + 1 : ℚ) ≤ m := by exact_mod_cast (by omega : 2 ^ 52 + 1 ≤ m)
  have hlower := h.lower
  rw [if_neg (fun h => hne h.1)] at hlower
  have hgap : (2 ^ 52 : ℚ) * 2 ^ e ≤ (m - 1 / 2) * 2 ^ e := by
    gcongr
    linarith
  linarith

theorem half_power_le (h : RoundsTo (2 ^ 52) e v) (he : e ≠ -1074) : 2 ^ 51 * 2 ^ e ≤ v := by
  have hlower := h.lower
  rw [if_pos ⟨rfl, he⟩] at hlower
  have hgap : (2 ^ 51 : ℚ) * 2 ^ e ≤ ((2 ^ 52 : Nat) - 1 / 4) * 2 ^ e := by
    gcongr
    norm_num
  exact hgap.trans hlower

theorem lt_next_power (h : RoundsTo m e v) (hm : m < 2 ^ 53) : v < 2 ^ 53 * 2 ^ e := by
  have hle : (m + 1 : ℚ) ≤ 2 ^ 53 := by exact_mod_cast hm
  calc v ≤ ((m : ℚ) + 1 / 2) * 2 ^ e := h.upper
    _ < 2 ^ 53 * 2 ^ e := by
        gcongr
        linarith

/-- The exponent that a fraction is shifted to is that of the value, unless the fraction is below a
power of two. -/
theorem target_eq {s : Sign} {hm : 0 < m} (hcanonical : Canonical (.finite s m e hm))
    (h : RoundsTo m e v) {target : Int} (htarget : -1074 ≤ target) (hupper : v < 2 ^ (target + 53))
    (hlower : target ≠ -1074 → (2 ^ (target + 52) : ℚ) ≤ v) :
    target = e ∨ (target + 1 = e ∧ m = 2 ^ 52) := by
  obtain ⟨he, hlt, hfull⟩ := canonical_bounds hcanonical
  rcases lt_trichotomy target e with hbelow | heq | habove
  · right
    have hpower : v < 2 ^ 52 * 2 ^ e := by
      calc v < 2 ^ (target + 53) := hupper
        _ ≤ 2 ^ (e + (52 : Nat)) := zpow_le_zpow_right₀ one_le_two (by omega)
        _ = 2 ^ 52 * 2 ^ e := two_zpow_add_natCast e 52
    obtain rfl := h.mantissa_eq (hfull (by omega)) hpower
    refine ⟨?_, rfl⟩
    by_contra hne
    have hhalf : v < 2 ^ 51 * 2 ^ e := by
      calc v < 2 ^ (target + 53) := hupper
        _ ≤ 2 ^ (e + (51 : Nat)) := zpow_le_zpow_right₀ one_le_two (by omega)
        _ = 2 ^ 51 * 2 ^ e := two_zpow_add_natCast e 51
    exact absurd (h.half_power_le (by omega)) (not_le.mpr hhalf)
  · exact .inl heq
  · exfalso
    have hlarge : (2 ^ 53 * 2 ^ e : ℚ) ≤ v := by
      calc (2 ^ 53 * 2 ^ e : ℚ) = 2 ^ (e + (53 : Nat)) := (two_zpow_add_natCast e 53).symm
        _ ≤ 2 ^ (target + 52) := zpow_le_zpow_right₀ one_le_two (by omega)
        _ ≤ v := hlower (by omega)
    exact absurd (h.lt_next_power hlt) (not_lt.mpr hlarge)

end RoundsTo

/-- Packed alike. -/
structure SameBits (u v : UnpackedFloat) : Prop where
  canonical : Canonical u
  sign : sign u = sign v
  rank : rank u = rank v

theorem SameBits.pack_eq {u v : UnpackedFloat} (h : SameBits u v) (hv : Canonical v) :
    Float.Model.pack u = .pack v := by
  have hbits : UnpackedFloat.pack Format.binary64 u = UnpackedFloat.pack Format.binary64 v := by
    apply BitVec.eq_of_toNat_eq
    rw [toNat_pack h.canonical, toNat_pack hv, h.sign, h.rank]
  simp only [Float.Model.pack, hbits]

/-- **Rounding gives the value that is nearest.** -/
theorem roundWithAccuracy_of_roundsTo (s : Sign) {m : Nat} {e : Int} {hm : 0 < m}
    (hcanonical : Canonical (.finite s m e hm)) {q num den : Nat} {t : Int} {a : Accuracy}
    (hpos : 0 < den) (hrep : Represents (.ofMantissaAndAccuracy q a) num den)
    (hle : t ≤ Format.binary64.targetExponent (totalExponent q t))
    (hv : RoundsTo m e (num / den * 2 ^ t)) :
    SameBits (roundWithAccuracy Format.binary64 s q t a) (.finite s m e hm) := by
  obtain ⟨he, hlt, hfull⟩ := canonical_bounds hcanonical
  generalize htarget : Format.binary64.targetExponent (totalExponent q t) = target at hle
  have hmin : -1074 ≤ target := by
    rw [← htarget]
    exact le_max_right _ _
  obtain ⟨hupper, hlower⟩ := fraction_bounds htarget hle hrep hpos
  obtain ⟨l, rfl⟩ : ∃ l : Nat, target = l - 1074 := ⟨(target + 1074).toNat, by omega⟩
  obtain ⟨k, hk⟩ : ∃ k : Nat, (l : Int) - 1074 = t + k := ⟨((l : Int) - 1074 - t).toNat, by omega⟩
  have hshift : shiftToTargetExponent Format.binary64 q t a =
      (ExtendedMantissa.ofMantissaAndAccuracy q a >>> k, (l : Int) - 1074) := by
    have hamount : ((l : Int) - 1074 - t).toNat = k := by omega
    unfold shiftToTargetExponent shiftToExponent
    dsimp only
    rw [htarget, hamount, hk]
  -- The fraction in units of the exponent that it is shifted to.
  have hunits : (num / den * 2 ^ t : ℚ) = num / (den * 2 ^ k : Nat) * 2 ^ ((l : Int) - 1074) := by
    rw [hk, zpow_add₀ two_ne_zero, zpow_natCast]
    push_cast
    field_simp
  have hshifted := hrep.shiftRight hpos k
  have hden : 0 < den * 2 ^ k := by positivity
  have hrounds : ∀ {r : Nat}, 0 < r → r ≤ 2 ^ 53 → (0 < l → 2 ^ 52 ≤ r) →
      (ExtendedMantissa.ofMantissaAndAccuracy q a >>> k).roundedMantissa = r →
      l * 2 ^ 52 + r = (e + 1074).toNat * 2 ^ 52 + m →
      SameBits (roundWithAccuracy Format.binary64 s q t a) (.finite s m e hm) := by
    intro r hr hle hge hrounded hrank
    have h := roundWithAccuracy_of_shift s hshift (hrounded ▸ hr) (hrounded ▸ hle) (hrounded ▸ hge)
    rw [hrounded, hrank] at h
    exact ⟨h.1, h.2.1, h.2.2⟩
  have hcases := hv.target_eq hcanonical hmin hupper hlower
  rw [hunits] at hv
  obtain ⟨hfarLower, hfarUpper, hodd⟩ := hv
  have hscale : (0 : ℚ) < 2 ^ ((l : Int) - 1074) := by positivity
  rcases hcases with rfl | ⟨rfl, rfl⟩
  · have hl : ((l : Int) - 1074 + 1074).toNat = l := by omega
    rw [mul_le_mul_iff_left₀ hscale] at hfarLower hfarUpper
    rw [mul_lt_mul_iff_left₀ hscale, mul_lt_mul_iff_left₀ hscale] at hodd
    apply hrounds hm hlt.le (fun hl => hfull (by omega)) ?_ (by rw [hl])
    apply hshifted.roundedMantissa_eq_of_rat hden ?_ hfarUpper hodd
    split at hfarLower <;> linarith
  · have hl : ((l : Int) - 1074 + 1 + 1074).toNat = l + 1 := by omega
    rw [zpow_add_one₀ two_ne_zero, mul_comm _ (2 : ℚ), ← mul_assoc, if_pos ⟨rfl, by omega⟩,
      mul_le_mul_iff_left₀ hscale] at hfarLower
    have hbelow : (num / (den * 2 ^ k : Nat) : ℚ) < 2 ^ 53 := by
      have hpower : (2 ^ ((l : Int) - 1074 + 53) : ℚ) = 2 ^ 53 * 2 ^ ((l : Int) - 1074) := by
        rw [zpow_add₀ two_ne_zero, mul_comm]
        rfl
      rw [hunits, hpower, mul_lt_mul_iff_left₀ hscale] at hupper
      exact hupper
    apply hrounds (r := 2 ^ 53) (by decide) le_rfl (fun _ => by decide) ?_ (by rw [hl]; omega)
    apply hshifted.roundedMantissa_eq_of_rat hden
    · push_cast at hfarLower ⊢
      linarith
    · push_cast at hbelow ⊢
      linarith
    · intro hodd
      exact absurd hodd (by decide)

end Univariate.Binary64
