import Univariate.Proofs.Scalar.Binary64.Rounding

/-!
# Distances in double precision

Sums and differences of finite values are whole numbers of units, rounded once, so that they grow
with their parts. An infinite part decides the sum.
-/

open Float.Model Float.Model.UnpackedFloat

namespace Univariate.Binary64

variable {x y d : Float}

/-- What a finite value is in units. -/
def amount (x : Float) : Int := units x.toModel.unpack

theorem roundedKey_amount (hx : x.isFinite = true) : roundedKey (amount x) = position x :=
  roundedKey_units (canonical_unpack _) hx

theorem natAbs_roundedKey_le (z : Int) : (roundedKey z).natAbs ≤ infinityRank := by
  unfold roundedKey roundedRank
  rw [Int.natAbs_mul, Int.natAbs_natCast]
  have hsign : z.sign.natAbs ≤ 1 := by
    rw [Int.natAbs_sign]
    split <;> omega
  calc z.sign.natAbs * min _ infinityRank ≤ 1 * infinityRank :=
        Nat.mul_le_mul hsign (min_le_right _ _)
    _ = infinityRank := Nat.one_mul _

/-- A result with such a key is a number. -/
theorem isNaN_of_key {u : UnpackedFloat} {z : Int} (hu : Canonical u) (hkey : key u = roundedKey z) :
    (Float.ofModel (.pack u)).isNaN = false ∧ position (.ofModel (.pack u)) = roundedKey z := by
  refine ⟨(isNaN_pack hu).mpr (rank_le_infinityRank.mp ?_), (position_pack hu).trans hkey⟩
  rw [← natAbs_key, hkey]
  exact natAbs_roundedKey_le z

theorem add_finite (hx : x.isFinite = true) (hy : y.isFinite = true) :
    (x + y).isNaN = false ∧ position (x + y) = roundedKey (amount x + amount y) := by
  obtain ⟨hcanonical, hkey⟩ := add_units (canonical_unpack _) (canonical_unpack _) hx hy
  exact isNaN_of_key hcanonical hkey

theorem sub_finite (hx : x.isFinite = true) (hy : y.isFinite = true) :
    (x - y).isNaN = false ∧ position (x - y) = roundedKey (amount x - amount y) := by
  obtain ⟨hcanonical, hkey⟩ := sub_units (canonical_unpack _) (canonical_unpack _) hx hy
  exact isNaN_of_key hcanonical hkey

theorem size_le_size {u v : UnpackedFloat} (hu : Canonical u) (hv : Canonical v) (hu' : Fits u)
    (hv' : Fits v) (hfu : u.isFinite = true) (hfv : v.isFinite = true) (h : rank u ≤ rank v) :
    size u ≤ size v := by
  cases u with
  | notANumber => exact Bool.noConfusion hfu
  | infinity s => exact Bool.noConfusion hfu
  | zero s => exact Nat.zero_le _
  | finite s m e hm =>
      obtain ⟨hrank, -⟩ := rank_lt_infinityRank hu hu'
      rw [hrank] at h
      cases v with
      | notANumber => exact Bool.noConfusion hfv
      | infinity t => exact Bool.noConfusion hfv
      | zero t => exact absurd h (by change ¬_ ≤ 0; omega)
      | finite t n f hn =>
          obtain ⟨hrank', -⟩ := rank_lt_infinityRank hv hv'
          obtain ⟨he, hm, -⟩ := canonical_bounds hu
          obtain ⟨hf, hn, hfull⟩ := canonical_bounds hv
          rw [hrank'] at h
          change m * 2 ^ (e + 1074).toNat ≤ n * 2 ^ (f + 1074).toNat
          rcases lt_trichotomy e f with hlt | rfl | hgt
          · calc m * 2 ^ (e + 1074).toNat ≤ 2 ^ 53 * 2 ^ (e + 1074).toNat :=
                  Nat.mul_le_mul_right _ hm.le
              _ = 2 ^ 52 * 2 ^ ((e + 1074).toNat + 1) := by ring
              _ ≤ n * 2 ^ (f + 1074).toNat :=
                  Nat.mul_le_mul (hfull (by omega)) (Nat.pow_le_pow_right (by decide) (by omega))
          · exact Nat.mul_le_mul_right _ (by omega)
          · obtain ⟨-, -, hfull⟩ := canonical_bounds hu
            have hlower := hfull (by omega)
            omega

/-- Units order like keys. -/
theorem units_le_units {u v : UnpackedFloat} (hu : Canonical u) (hv : Canonical v) (hu' : Fits u)
    (hv' : Fits v) (hfu : u.isFinite = true) (hfv : v.isFinite = true) (h : key u ≤ key v) :
    units u ≤ units v := by
  have huv : rank u ≤ rank v → size u ≤ size v := size_le_size hu hv hu' hv' hfu hfv
  have hvu : rank v ≤ rank u → size v ≤ size u := size_le_size hv hu hv' hu' hfv hfu
  -- opposite signs meet in zero only
  have hzero : rank u ≤ 0 → size u ≤ 0 :=
    size_le_size (v := .zero .positive) hu trivial hu' trivial hfu rfl
  unfold key at h
  unfold units
  generalize sign u = s at h ⊢
  generalize sign v = t at h ⊢
  cases s <;> cases t <;> simp only [apply_positive, apply_negative] at h ⊢ <;> omega

theorem amount_le_amount (hx : x.isFinite = true) (hy : y.isFinite = true) (h : x ≤ y) :
    amount x ≤ amount y :=
  units_le_units (canonical_unpack _) (canonical_unpack _) (fits_unpack _) (fits_unpack _) hx hy
    (le_iff.mp h).2.2

/-! ### Infinite parts -/

theorem eq_infinity_of_not_finite (hd : d.isNaN = false) (hfinite : ¬d.isFinite = true) :
    ∃ s, d = .ofModel (.pack (.infinity s)) := by
  have hpack : d = .ofModel (.pack d.toModel.unpack) :=
    congrArg Float.ofModel (pack_unpack_model d.toModel).symm
  change ¬d.toModel.unpack.isFinite = true at hfinite
  cases hunpack : d.toModel.unpack with
  | notANumber => exact absurd hunpack (unpack_ne_notANumber hd)
  | infinity s => exact ⟨s, hunpack ▸ hpack⟩
  | zero s => exact absurd (hunpack ▸ rfl) hfinite
  | finite s m e hm => exact absurd (hunpack ▸ rfl) hfinite

theorem unpack_infinity (s : Sign) : (Float.Model.pack (.infinity s)).unpack = .infinity s := by
  cases s <;> rfl

theorem add_infinity (hx : x.isFinite = true) (s : Sign) :
    x + .ofModel (.pack (.infinity s)) = .ofModel (.pack (.infinity s)) := by
  change Float.ofModel (.pack (UnpackedFloat.add Format.binary64 x.toModel.unpack
    (Float.Model.pack (.infinity s)).unpack)) = _
  rw [unpack_infinity]
  change x.toModel.unpack.isFinite = true at hx
  cases hunpack : x.toModel.unpack with
  | notANumber => exact Bool.noConfusion (hunpack ▸ hx)
  | infinity t => exact Bool.noConfusion (hunpack ▸ hx)
  | zero t => rfl
  | finite t m e hm => rfl

theorem sub_infinity (hx : x.isFinite = true) (s : Sign) :
    x - .ofModel (.pack (.infinity s)) = .ofModel (.pack (.infinity (-s))) := by
  change Float.ofModel (.pack (UnpackedFloat.sub Format.binary64 x.toModel.unpack
    (Float.Model.pack (.infinity s)).unpack)) = _
  rw [unpack_infinity]
  change x.toModel.unpack.isFinite = true at hx
  cases hunpack : x.toModel.unpack with
  | notANumber => exact Bool.noConfusion (hunpack ▸ hx)
  | infinity t => exact Bool.noConfusion (hunpack ▸ hx)
  | zero t => rfl
  | finite t m e hm => rfl

/-! ### The laws -/

theorem le_of_position (hx : x.isNaN = false) (hy : y.isNaN = false)
    (h : position x ≤ position y) : x ≤ y := le_iff.mpr ⟨hx, hy, h⟩

theorem position_infinity (s : Sign) :
    (Float.ofModel (.pack (.infinity s))).isNaN = false ∧
      position (.ofModel (.pack (.infinity s))) = s.apply infinityRank :=
  ⟨(isNaN_pack (u := .infinity s) trivial).mpr nofun, position_pack (u := .infinity s) trivial⟩

theorem natAbs_position_le (hx : x.isNaN = false) : (position x).natAbs ≤ infinityRank := by
  rw [natAbs_position]
  exact isNaN_eq_false_iff.mp hx

theorem rank_abs (u : UnpackedFloat) : rank u.abs = rank u := by
  cases u <;> rfl

theorem sign_abs (u : UnpackedFloat) : sign u.abs = .positive := by
  cases u <;> rfl

theorem position_abs (x : Float) : position x.abs = rank x.toModel.unpack := by
  have hcanonical : Canonical x.toModel.unpack.abs := (canonical_unpack _).abs
  refine (position_pack hcanonical).trans ?_
  unfold key
  rw [sign_abs, rank_abs, apply_positive]

theorem abs_eq_abs (h : rank x.toModel.unpack = rank y.toModel.unpack) : x.abs = y.abs := by
  have hx : Canonical x.toModel.unpack.abs := (canonical_unpack _).abs
  have hy : Canonical y.toModel.unpack.abs := (canonical_unpack _).abs
  have hbits : UnpackedFloat.pack Format.binary64 x.toModel.unpack.abs =
      UnpackedFloat.pack Format.binary64 y.toModel.unpack.abs := by
    apply BitVec.eq_of_toNat_eq
    rw [toNat_pack hx, toNat_pack hy, sign_abs, sign_abs, rank_abs, rank_abs, h]
  change Float.ofModel (.pack _) = Float.ofModel (.pack _)
  unfold Float.Model.pack
  simp only [hbits]

/-- Which of two values is taken off the other decides nothing but the sign. -/
theorem rank_sub_comm {u v : UnpackedFloat} (hu : Canonical u) (hv : Canonical v) :
    Canonical (UnpackedFloat.sub Format.binary64 u v) ∧
      rank (UnpackedFloat.sub Format.binary64 u v) =
        rank (UnpackedFloat.sub Format.binary64 v u) := by
  by_cases hfinite : u.isFinite = true ∧ v.isFinite = true
  · obtain ⟨hcanonical, hkey⟩ := sub_units hu hv hfinite.1 hfinite.2
    obtain ⟨-, hkey'⟩ := sub_units hv hu hfinite.2 hfinite.1
    refine ⟨hcanonical, ?_⟩
    rw [← natAbs_key, ← natAbs_key, hkey, hkey', ← neg_sub, roundedKey_neg, Int.natAbs_neg]
  · cases u with
    | notANumber => cases v <;> exact ⟨trivial, rfl⟩
    | infinity s =>
        cases v with
        | infinity t => cases s <;> cases t <;> exact ⟨trivial, rfl⟩
        | _ => exact ⟨trivial, rfl⟩
    | zero s =>
        cases v with
        | zero t => exact absurd ⟨rfl, rfl⟩ hfinite
        | finite t n f hn => exact absurd ⟨rfl, rfl⟩ hfinite
        | _ => exact ⟨trivial, rfl⟩
    | finite s m e hm =>
        cases v with
        | zero t => exact absurd ⟨rfl, rfl⟩ hfinite
        | finite t n f hn => exact absurd ⟨rfl, rfl⟩ hfinite
        | _ => exact ⟨trivial, rfl⟩

theorem abs_sub_comm (x y : Float) : (x - y).abs = (y - x).abs := by
  have hx : Canonical x.toModel.unpack := canonical_unpack _
  have hy : Canonical y.toModel.unpack := canonical_unpack _
  obtain ⟨hxy, hrank⟩ := rank_sub_comm hx hy
  obtain ⟨hyx, -⟩ := rank_sub_comm hy hx
  apply abs_eq_abs
  change rank (Float.Model.pack _).unpack = rank (Float.Model.pack _).unpack
  rw [(unpack_pack hxy).2, (unpack_pack hyx).2, hrank]

theorem add_le_add (hx : x.isFinite = true) (hy : y.isFinite = true) (hd : d.isNaN = false)
    (h : x ≤ y) : x + d ≤ y + d := by
  by_cases hfinite : d.isFinite = true
  · obtain ⟨hxd, hx'⟩ := add_finite hx hfinite
    obtain ⟨hyd, hy'⟩ := add_finite hy hfinite
    refine le_of_position hxd hyd ?_
    rw [hx', hy']
    exact roundedKey_le_roundedKey (by linarith [amount_le_amount hx hy h])
  · obtain ⟨s, rfl⟩ := eq_infinity_of_not_finite hd hfinite
    rw [add_infinity hx, add_infinity hy]
    exact le_of_position hd hd le_rfl

theorem sub_le_sub (hx : x.isFinite = true) (hy : y.isFinite = true) (hd : d.isNaN = false)
    (h : x ≤ y) : x - d ≤ y - d := by
  by_cases hfinite : d.isFinite = true
  · obtain ⟨hxd, hx'⟩ := sub_finite hx hfinite
    obtain ⟨hyd, hy'⟩ := sub_finite hy hfinite
    refine le_of_position hxd hyd ?_
    rw [hx', hy']
    exact roundedKey_le_roundedKey (by linarith [amount_le_amount hx hy h])
  · obtain ⟨s, rfl⟩ := eq_infinity_of_not_finite hd hfinite
    rw [sub_infinity hx, sub_infinity hy]
    exact le_of_position (by cases s <;> decide) (by cases s <;> decide) le_rfl

theorem amount_nonneg (hfinite : d.isFinite = true) (hd : 0 ≤ d) : 0 ≤ amount d :=
  amount_le_amount (x := 0) rfl hfinite hd

theorem eq_infinity_of_nonneg (hfinite : ¬d.isFinite = true) (hd : 0 ≤ d) :
    d = .ofModel (.pack (.infinity .positive)) := by
  obtain ⟨-, hnan, hpositive⟩ := le_iff.mp hd
  obtain ⟨s, rfl⟩ := eq_infinity_of_not_finite hnan hfinite
  cases s with
  | positive => rfl
  | negative => exact absurd hpositive (by decide)

theorem le_infinity (hx : x.isNaN = false) : x ≤ .ofModel (.pack (.infinity .positive)) := by
  obtain ⟨hnan, hposition⟩ := position_infinity .positive
  have hle := natAbs_position_le hx
  refine le_of_position hx hnan ?_
  rw [hposition, apply_positive]
  omega

theorem neg_infinity_le (hx : x.isNaN = false) : .ofModel (.pack (.infinity (-.positive))) ≤ x := by
  obtain ⟨hnan, hposition⟩ := position_infinity (-.positive)
  have hle := natAbs_position_le hx
  refine le_of_position hnan hx ?_
  rw [hposition]
  change -(infinityRank : Int) ≤ _
  omega

theorem le_add_of_nonneg (hx : x.isFinite = true) (hd : 0 ≤ d) : x ≤ x + d := by
  have hxn := isNaN_of_isFinite hx
  by_cases hfinite : d.isFinite = true
  · obtain ⟨hxd, hposition⟩ := add_finite hx hfinite
    refine le_of_position hxn hxd ?_
    rw [hposition, ← roundedKey_amount hx]
    exact roundedKey_le_roundedKey (by linarith [amount_nonneg hfinite hd])
  · rw [eq_infinity_of_nonneg hfinite hd, add_infinity hx]
    exact le_infinity hxn

theorem sub_le_of_nonneg (hx : x.isFinite = true) (hd : 0 ≤ d) : x - d ≤ x := by
  have hxn := isNaN_of_isFinite hx
  by_cases hfinite : d.isFinite = true
  · obtain ⟨hxd, hposition⟩ := sub_finite hx hfinite
    refine le_of_position hxd hxn ?_
    rw [hposition, ← roundedKey_amount hx]
    exact roundedKey_le_roundedKey (by linarith [amount_nonneg hfinite hd])
  · rw [eq_infinity_of_nonneg hfinite hd, sub_infinity hx]
    exact neg_infinity_le hxn

theorem infinityRank_le_rank_sub {u v : UnpackedFloat}
    (h : ¬(u.isFinite = true ∧ v.isFinite = true)) :
    infinityRank ≤ rank (UnpackedFloat.sub Format.binary64 u v) := by
  have hnan : infinityRank ≤ infinityRank + 2 ^ 51 := Nat.le_add_right _ _
  cases u with
  | notANumber => cases v <;> exact hnan
  | infinity s =>
      cases v with
      | notANumber => exact hnan
      | infinity t => cases s <;> cases t <;> first | exact hnan | exact Nat.le_refl infinityRank
      | _ => exact Nat.le_refl infinityRank
  | zero s =>
      cases v with
      | notANumber => exact hnan
      | infinity t => exact Nat.le_refl infinityRank
      | _ => exact absurd ⟨rfl, rfl⟩ h
  | finite s m e hm =>
      cases v with
      | notANumber => exact hnan
      | infinity t => exact Nat.le_refl infinityRank
      | _ => exact absurd ⟨rfl, rfl⟩ h

theorem isFinite_of_abs_sub_lt (h : (x - y).abs < d) : x.isFinite = true ∧ y.isFinite = true := by
  by_contra hfinite
  obtain ⟨hcanonical, -⟩ := rank_sub_comm (canonical_unpack x.toModel.toBits.toBitVec)
    (canonical_unpack y.toModel.toBits.toBitVec)
  obtain ⟨-, hnan, hlt⟩ := lt_iff.mp h
  have hle := natAbs_position_le hnan
  have hrank : rank (x - y).toModel.unpack = _ := (unpack_pack hcanonical).2
  have hlarge := infinityRank_le_rank_sub hfinite
  rw [position_abs, hrank] at hlt
  have hlarge' : infinityRank ≤ rank (UnpackedFloat.sub Format.binary64
      (UnpackedFloat.unpack Format.binary64 x.toModel.toBits.toBitVec)
      (UnpackedFloat.unpack Format.binary64 y.toModel.toBits.toBitVec)) := hlarge
  omega

theorem nonneg_of_abs_lt (h : x.abs < d) : 0 ≤ d := by
  obtain ⟨-, hnan, hlt⟩ := lt_iff.mp h
  rw [position_abs] at hlt
  refine le_of_position (x := 0) rfl hnan ?_
  change 0 ≤ position d
  omega

theorem amount_sub_lt (h : (x - y).abs < d) (hd : d.isFinite = true) :
    amount x - amount y < amount d ∧ -amount d < amount x - amount y := by
  obtain ⟨hx, hy⟩ := isFinite_of_abs_sub_lt h
  obtain ⟨-, hposition⟩ := sub_finite hx hy
  have hlt := (lt_iff.mp h).2.2
  rw [position_abs, ← natAbs_position, hposition, ← roundedKey_amount hd] at hlt
  constructor
  · by_contra hle
    have hrounded := roundedKey_le_roundedKey (not_lt.mp hle)
    omega
  · by_contra hle
    have hrounded := roundedKey_le_roundedKey (not_lt.mp hle)
    rw [roundedKey_neg] at hrounded
    omega

theorem le_add_of_abs_sub_lt (h : (x - y).abs < d) : x ≤ y + d := by
  obtain ⟨hx, hy⟩ := isFinite_of_abs_sub_lt h
  have hxn := isNaN_of_isFinite hx
  by_cases hfinite : d.isFinite = true
  · obtain ⟨hyd, hposition⟩ := add_finite hy hfinite
    refine le_of_position hxn hyd ?_
    rw [hposition, ← roundedKey_amount hx]
    exact roundedKey_le_roundedKey (by linarith [(amount_sub_lt h hfinite).1])
  · rw [eq_infinity_of_nonneg hfinite (nonneg_of_abs_lt h), add_infinity hy]
    exact le_infinity hxn

theorem sub_le_of_abs_sub_lt (h : (x - y).abs < d) : y - d ≤ x := by
  obtain ⟨hx, hy⟩ := isFinite_of_abs_sub_lt h
  have hxn := isNaN_of_isFinite hx
  by_cases hfinite : d.isFinite = true
  · obtain ⟨hyd, hposition⟩ := sub_finite hy hfinite
    refine le_of_position hyd hxn ?_
    rw [hposition, ← roundedKey_amount hx]
    exact roundedKey_le_roundedKey (by linarith [(amount_sub_lt h hfinite).2])
  · rw [eq_infinity_of_nonneg hfinite (nonneg_of_abs_lt h), sub_infinity hy]
    exact neg_infinity_le hxn

/-! ### Midpoints -/

theorem isNaN_pack_of_ne {u : UnpackedFloat} (h : u ≠ .notANumber) :
    (Float.ofModel (.pack u)).isNaN = false := by
  by_contra hnan
  have hunpack := unpack_eq_notANumber (Bool.not_eq_false _ ▸ hnan)
  have hpack : UnpackedFloat.pack Format.binary64 u = packedNaN Format.binary64 :=
    (unpack_eq_notANumber_iff_of_valid valid_pack).mp hunpack
  have hbits : (UnpackedFloat.pack Format.binary64 u).toNat = 2047 * 2 ^ 52 + 2 ^ 51 := by
    rw [hpack]
    rfl
  cases u with
  | notANumber => exact h rfl
  | infinity s => exact absurd hbits (by cases s <;> decide)
  | zero s => exact absurd hbits (by cases s <;> decide)
  | finite s m e hm =>
      unfold UnpackedFloat.pack at hbits
      dsimp only at hbits
      split at hbits
      · rw [toNat_packedInfinity] at hbits
        omega
      · next hsmall =>
          change ¬2 ^ 11 ≤ _ at hsmall
          split at hbits
          · rw [toNat_packComponents, BitVec.toNat_ofNat, BitVec.toNat_ofNat] at hbits
            omega
          · rw [toNat_packComponents, BitVec.toNat_ofNat, BitVec.toNat_ofNat] at hbits
            omega

theorem roundWithAccuracy_ne_notANumber (s : Sign) (m : Nat) (e : Int) (a : Accuracy) :
    roundWithAccuracy Format.binary64 s m e a ≠ .notANumber := by
  unfold roundWithAccuracy
  dsimp only
  split <;> nofun

theorem isNaN_half {z : Float} (hz : z.isNaN = false) : (z / 2).isNaN = false := by
  have htwo : (2 : Float).toModel.unpack = .finite .positive (2 ^ 52) (-51) (by decide) := rfl
  have hunpack := unpack_ne_notANumber hz
  change (Float.ofModel (.pack (.div _ z.toModel.unpack (2 : Float).toModel.unpack))).isNaN = false
  rw [htwo]
  apply isNaN_pack_of_ne
  cases h : z.toModel.unpack with
  | notANumber => exact absurd h hunpack
  | infinity s => nofun
  | zero s => nofun
  | finite s m e hm => exact roundWithAccuracy_ne_notANumber _ _ _ _

theorem infinity_add (hx : x.isFinite = true) (s : Sign) :
    .ofModel (.pack (.infinity s)) + x = .ofModel (.pack (.infinity s)) := by
  change Float.ofModel (.pack (UnpackedFloat.add Format.binary64
    (Float.Model.pack (.infinity s)).unpack x.toModel.unpack)) = _
  rw [unpack_infinity]
  change x.toModel.unpack.isFinite = true at hx
  cases hunpack : x.toModel.unpack with
  | notANumber => exact Bool.noConfusion (hunpack ▸ hx)
  | infinity t => exact Bool.noConfusion (hunpack ▸ hx)
  | zero t => rfl
  | finite t m e hm => rfl

theorem infinity_half (s : Sign) :
    Float.ofModel (.pack (.infinity s)) / 2 = .ofModel (.pack (.infinity s)) := by
  cases s <;> rfl

theorem isNaN_add_of_finite (hx : x.isFinite = true) (hy : y.isNaN = false) :
    (x + y).isNaN = false ∧ (y + x).isNaN = false := by
  by_cases hfinite : y.isFinite = true
  · exact ⟨(add_finite hx hfinite).1, (add_finite hfinite hx).1⟩
  · obtain ⟨s, rfl⟩ := eq_infinity_of_not_finite hy hfinite
    rw [add_infinity hx, infinity_add hx]
    exact ⟨hy, hy⟩

theorem isNaN_of_isNaN_add (h : (x + y).isNaN = false) : x.isNaN = false ∧ y.isNaN = false := by
  have hnan : (Float.ofModel (.pack .notANumber)).isNaN = true := rfl
  change (Float.ofModel (.pack (UnpackedFloat.add Format.binary64 x.toModel.unpack
    y.toModel.unpack))).isNaN = false at h
  constructor
  · by_contra hx
    have hunpack : x.toModel.unpack = .notANumber := unpack_eq_notANumber (by simpa using hx)
    have hadd : UnpackedFloat.add Format.binary64 x.toModel.unpack y.toModel.unpack =
        .notANumber := by
      rw [hunpack]
      rfl
    rw [hadd, hnan] at h
    exact Bool.noConfusion h
  · by_contra hy
    have hunpack : y.toModel.unpack = .notANumber := unpack_eq_notANumber (by simpa using hy)
    have hadd : UnpackedFloat.add Format.binary64 x.toModel.unpack y.toModel.unpack =
        .notANumber := by
      rw [hunpack]
      cases x.toModel.unpack <;> rfl
    rw [hadd, hnan] at h
    exact Bool.noConfusion h

theorem isNaN_add_midpoint (h : (x + y).isNaN = false) :
    ((x + y) / 2).isNaN = false ∧ (x + (x + y) / 2).isNaN = false ∧
      ((x + y) / 2 + y).isNaN = false := by
  have hhalf := isNaN_half h
  refine ⟨hhalf, ?_⟩
  obtain ⟨hx, hy⟩ := isNaN_of_isNaN_add h
  by_cases hfx : x.isFinite = true
  · by_cases hfy : y.isFinite = true
    · exact ⟨(isNaN_add_of_finite hfx hhalf).1, (isNaN_add_of_finite hfy hhalf).2⟩
    · obtain ⟨t, rfl⟩ := eq_infinity_of_not_finite hy hfy
      rw [add_infinity hfx, infinity_half, add_infinity hfx]
      exact ⟨hy, by cases t <;> decide⟩
  · obtain ⟨s, rfl⟩ := eq_infinity_of_not_finite hx hfx
    by_cases hfy : y.isFinite = true
    · rw [infinity_add hfy, infinity_half, infinity_add hfy]
      exact ⟨by cases s <;> decide, hx⟩
    · obtain ⟨t, rfl⟩ := eq_infinity_of_not_finite hy hfy
      revert h
      cases s <;> cases t <;> decide

instance : Scalar.LawfulDistance Float where
  isNaN_add hx hy := (add_finite hx hy).1
  isNaN_add_midpoint h := isNaN_add_midpoint h
  add_le_add hx hy hd h := add_le_add hx hy hd h
  sub_le_sub hx hy hd h := sub_le_sub hx hy hd h
  le_add_of_nonneg hx hd := le_add_of_nonneg hx hd
  sub_le_of_nonneg hx hd := sub_le_of_nonneg hx hd
  abs_sub_comm x y := abs_sub_comm x y
  le_add_of_abs_sub_lt h := le_add_of_abs_sub_lt h
  sub_le_of_abs_sub_lt h := sub_le_of_abs_sub_lt h

instance : Scalar.LawfulZero Float where
  isFinite_zero := rfl
  abs_beq_zero {x} h := by
    obtain ⟨hx, hzero, hposition⟩ := beq_iff.mp h
    have hrank : position x.abs = position 0 := by
      rw [position_abs, ← natAbs_position, hposition]
      rfl
    exact beq_iff.mpr ⟨(Scalar.LawfulOrder.isNaN_abs x).trans hx, hzero, hrank⟩

end Univariate.Binary64
