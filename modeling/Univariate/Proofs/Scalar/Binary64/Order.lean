import Univariate.Proofs.Scalar.Binary64
import Univariate.Proofs.Scalar.Order

/-!
# Order in double precision

The bits of a size, read as a number, order like the size. Comparing and sorting are read off these
ranks, and a value that only has been packed and unpacked again keeps its rank.
-/

open Float.Model Float.Model.UnpackedFloat

namespace Univariate.Binary64

/-- The mantissa fills its bits, or the exponent is the smallest one. -/
def Canonical : UnpackedFloat → Prop
  | .finite _ m e _ => (m.log2 = 52 ∧ -1074 ≤ e) ∨ (m.log2 < 52 ∧ e = -1074)
  | _ => True

/-- The exponent has bits enough. -/
def Fits : UnpackedFloat → Prop
  | .finite _ _ e _ => e ≤ 971
  | _ => True

theorem canonical_unpack (b : BitVec Format.binary64.numBits) :
    Canonical (UnpackedFloat.unpack Format.binary64 b) := by
  cases h : UnpackedFloat.unpack Format.binary64 b with
  | finite s m e hm => exact canonical_of_unpack_eq h
  | _ => trivial

theorem Canonical.abs {u : UnpackedFloat} (h : Canonical u) : Canonical u.abs := by
  cases u <;> exact h

theorem fits_unpack (b : BitVec Format.binary64.numBits) :
    Fits (UnpackedFloat.unpack Format.binary64 b) := by
  unfold UnpackedFloat.unpack
  dsimp only
  split
  · split <;> trivial
  · next hexponent =>
      have hlarge : (unpackExponent b).toNat ≠ 2047 :=
        fun h => hexponent (BitVec.eq_of_toNat_eq h)
      have hlt : (unpackExponent b).toNat < 2 ^ 11 := (unpackExponent b).isLt
      split
      · next hzero =>
          split
          · trivial
          · change ((unpackExponent b).toNat : Int) - ((1023 : Nat) + (52 : Nat)) + 1 ≤ 971
            rw [hzero]
            decide
      · change ((unpackExponent b).toNat : Int) - ((1023 : Nat) + (52 : Nat)) ≤ 971
        omega

def sign : UnpackedFloat → Sign
  | .notANumber => .positive
  | .infinity s | .zero s | .finite s _ _ _ => s

def infinityRank : Nat := 2047 * 2 ^ 52

/-- The bits of the size, sign aside. What is too large for its bits is infinite. -/
def rank : UnpackedFloat → Nat
  | .notANumber => infinityRank + 2 ^ 51
  | .infinity _ => infinityRank
  | .zero _ => 0
  | .finite _ m e _ => min ((e + 1074).toNat * 2 ^ 52 + m) infinityRank

@[simp]
theorem sign_finite (s : Sign) (m : Nat) (e : Int) (hm : 0 < m) : sign (.finite s m e hm) = s := rfl

theorem rank_finite (s : Sign) (m : Nat) (e : Int) (hm : 0 < m) :
    rank (.finite s m e hm) = min ((e + 1074).toNat * 2 ^ 52 + m) (2047 * 2 ^ 52) := rfl

theorem toNat_packedInfinity (s : Sign) :
    (packedInfinity Format.binary64 s).toNat = s.toBitVec.toNat * 2 ^ 63 + 2047 * 2 ^ 52 := by
  cases s <;> rfl

theorem toNat_packComponents (s : Sign) (e : BitVec 11) (m : BitVec 52) :
    (packComponents Format.binary64 s e m).toNat =
      s.toBitVec.toNat * 2 ^ 63 + e.toNat * 2 ^ 52 + m.toNat := by
  have happend : ∀ {v w : Nat} (x : BitVec v) (y : BitVec w),
      (x ++ y).toNat = x.toNat * 2 ^ w + y.toNat := by
    intro v w x y
    rw [BitVec.toNat_append, ← Nat.shiftLeft_add_eq_or_of_lt y.isLt, Nat.shiftLeft_eq]
  change ((s.toBitVec ++ e ++ m : BitVec _)).toNat = _
  rw [happend, happend]
  ring

theorem mantissa_bounds {m : Nat} (hm : 0 < m) (h : m.log2 = 52) : 2 ^ 52 ≤ m ∧ m < 2 ^ 53 :=
  (Nat.log2_eq_iff hm.ne').mp h

theorem toNat_pack {u : UnpackedFloat} (h : Canonical u) :
    (UnpackedFloat.pack Format.binary64 u).toNat =
      (sign u).toBitVec.toNat * 2 ^ 63 + rank u := by
  cases u with
  | notANumber => rfl
  | infinity s => cases s <;> rfl
  | zero s => cases s <;> rfl
  | finite s m e hm =>
      have hbiased : (e + Format.binary64.exponentBias + Format.binary64.mantissaBitsWithoutImplicit)
          = e + 1075 := by
        change e + (1023 : Nat) + (52 : Nat) = _
        omega
      unfold UnpackedFloat.pack
      dsimp only
      rw [hbiased]
      change (if 2 ^ 11 ≤ (e + 1075).toNat + 1 then _ else if m.log2 + 1 = 53 then _ else _ :
        BitVec 64).toNat = _
      rw [rank_finite, sign_finite]
      rcases h with ⟨hlog, he⟩ | ⟨hlog, rfl⟩
      · obtain ⟨hlower, hupper⟩ := mantissa_bounds hm hlog
        split
        · rw [toNat_packedInfinity]
          omega
        · rw [if_pos (by omega), toNat_packComponents, BitVec.toNat_ofNat, BitVec.toNat_ofNat]
          omega
      · have hupper : m < 2 ^ 52 := (Nat.log2_lt hm.ne').mp hlog
        rw [if_neg (by decide), if_neg (by omega), toNat_packComponents, BitVec.toNat_ofNat,
          BitVec.toNat_ofNat]
        omega

/-- Ranks with their signs: both zeros are in the middle. -/
def key (u : UnpackedFloat) : Int := (sign u).apply (rank u)

theorem apply_positive (n : Int) : Sign.positive.apply n = n := rfl

theorem apply_negative (n : Int) : Sign.negative.apply n = -n := rfl

theorem key_infinity (s : Sign) : key (.infinity s) = s.apply infinityRank := rfl

theorem key_zero (s : Sign) : key (.zero s) = 0 := by cases s <;> rfl

theorem natAbs_key (u : UnpackedFloat) : (key u).natAbs = rank u := by
  unfold key
  cases sign u with
  | positive => exact Int.natAbs_natCast _
  | negative => exact (Int.natAbs_neg _).trans (Int.natAbs_natCast _)

theorem rank_lt_infinityRank {s : Sign} {m : Nat} {e : Int} {hm : 0 < m}
    (h : Canonical (.finite s m e hm)) (hfits : Fits (.finite s m e hm)) :
    rank (.finite s m e hm) = (e + 1074).toNat * 2 ^ 52 + m ∧
      (e + 1074).toNat * 2 ^ 52 + m < 2047 * 2 ^ 52 := by
  change e ≤ 971 at hfits
  rw [rank_finite]
  rcases h with ⟨hlog, he⟩ | ⟨hlog, rfl⟩
  · obtain ⟨hlower, hupper⟩ := mantissa_bounds hm hlog
    omega
  · have hupper : m < 2 ^ 52 := (Nat.log2_lt hm.ne').mp hlog
    omega

theorem canonical_bounds {s : Sign} {m : Nat} {e : Int} {hm : 0 < m}
    (h : Canonical (.finite s m e hm)) : -1074 ≤ e ∧ m < 2 ^ 53 ∧ (-1074 < e → 2 ^ 52 ≤ m) := by
  rcases h with ⟨hlog, he⟩ | ⟨hlog, rfl⟩
  · obtain ⟨hlower, hupper⟩ := mantissa_bounds hm hlog
    exact ⟨he, hupper, fun _ => hlower⟩
  · have hupper : m < 2 ^ 52 := (Nat.log2_lt hm.ne').mp hlog
    omega

/-- Exponents come before mantissas, as they do in the bits. -/
theorem compare_exponent_then {s t : Sign} {m n : Nat} {e f : Int} {hm : 0 < m} {hn : 0 < n}
    (hu : Canonical (.finite s m e hm)) (hv : Canonical (.finite t n f hn)) :
    (compare e f).then (compare m n) =
      compare (((e + 1074).toNat * 2 ^ 52 + m : Nat) : Int)
        (((f + 1074).toNat * 2 ^ 52 + n : Nat) : Int) := by
  obtain ⟨he, hm, hfull⟩ := canonical_bounds hu
  obtain ⟨hf, hn, hfull'⟩ := canonical_bounds hv
  rcases lt_trichotomy e f with hlt | rfl | hgt
  · rw [compare_lt_iff_lt.mpr hlt]
    exact (compare_lt_iff_lt.mpr (by omega)).symm
  · have hexponent : compare e e = .eq := compare_eq_iff_eq.mpr rfl
    rw [hexponent]
    change compare m n = _
    rcases lt_trichotomy m n with hlt | rfl | hgt
    · rw [compare_lt_iff_lt.mpr hlt]
      exact (compare_lt_iff_lt.mpr (by omega)).symm
    · rw [compare_eq_iff_eq.mpr rfl]
      exact (compare_eq_iff_eq.mpr rfl).symm
    · rw [compare_gt_iff_gt.mpr hgt]
      exact (compare_gt_iff_gt.mpr (by omega)).symm
  · rw [compare_gt_iff_gt.mpr hgt]
    exact (compare_gt_iff_gt.mpr (by omega)).symm

/-- Finite keys lie between those of the infinities, the zeros' between the signs. -/
theorem key_finite {s : Sign} {m : Nat} {e : Int} {hm : 0 < m} (h : Canonical (.finite s m e hm))
    (hfits : Fits (.finite s m e hm)) :
    ∃ r : Nat, 0 < r ∧ r < infinityRank ∧ r = (e + 1074).toNat * 2 ^ 52 + m ∧
      key (.finite s m e hm) = s.apply r := by
  obtain ⟨hrank, hlt⟩ := rank_lt_infinityRank h hfits
  refine ⟨(e + 1074).toNat * 2 ^ 52 + m, by omega, hlt, rfl, ?_⟩
  unfold key
  rw [hrank]
  rfl

theorem compare_eq_compare_key {u v : UnpackedFloat} (hu : Canonical u) (hv : Canonical v)
    (hu' : Fits u) (hv' : Fits v) (hun : u ≠ .notANumber) (hvn : v ≠ .notANumber) :
    u.compare v = some (compare (key u) (key v)) := by
  have hlt : ∀ {a b : Int}, a < b → some Ordering.lt = some (compare a b) :=
    fun h => congrArg some (compare_lt_iff_lt.mpr h).symm
  have hgt : ∀ {a b : Int}, b < a → some Ordering.gt = some (compare a b) :=
    fun h => congrArg some (compare_gt_iff_gt.mpr h).symm
  have hbetween : ∀ {r : Nat} (s : Sign), r < infinityRank →
      -(infinityRank : Int) < s.apply r ∧ s.apply r < infinityRank := by
    rintro r (_ | _) hr <;> simp only [apply_positive, apply_negative] <;> omega
  cases u with
  | notANumber => exact absurd rfl hun
  | infinity s =>
      cases v with
      | notANumber => exact absurd rfl hvn
      | infinity t => cases s <;> cases t <;> rfl
      | zero t => cases s <;> cases t <;> rfl
      | finite t n f hn =>
          obtain ⟨r, -, hr, -, hkey⟩ := key_finite hv hv'
          rw [hkey, key_infinity]
          cases s with
          | positive => exact hgt (hbetween t hr).2
          | negative => exact hlt (hbetween t hr).1
  | zero s =>
      cases v with
      | notANumber => exact absurd rfl hvn
      | infinity t => cases s <;> cases t <;> rfl
      | zero t => cases s <;> cases t <;> rfl
      | finite t n f hn =>
          obtain ⟨r, hpos, -, -, hkey⟩ := key_finite hv hv'
          rw [hkey, key_zero]
          cases t with
          | positive => exact hlt (by rw [apply_positive]; omega)
          | negative => exact hgt (by rw [apply_negative]; omega)
  | finite s m e hm =>
      obtain ⟨r, hpos, hr, hrank, hkey⟩ := key_finite hu hu'
      rw [hkey]
      cases v with
      | notANumber => exact absurd rfl hvn
      | infinity t =>
          rw [key_infinity]
          cases t with
          | positive => cases s <;> exact hlt (hbetween _ hr).2
          | negative => cases s <;> exact hgt (hbetween _ hr).1
      | zero t =>
          rw [key_zero]
          cases s with
          | positive => exact hgt (by rw [apply_positive]; omega)
          | negative => exact hlt (by rw [apply_negative]; omega)
      | finite t n f hn =>
          obtain ⟨q, hpos', -, hrank', hkey'⟩ := key_finite hv hv'
          have hthen := compare_exponent_then hu hv
          rw [← hrank, ← hrank'] at hthen
          rw [hkey']
          cases s with
          | positive =>
              cases t with
              | positive => exact congrArg some hthen
              | negative => exact hgt (by rw [apply_positive, apply_negative]; omega)
          | negative =>
              cases t with
              | positive => exact hlt (by rw [apply_positive, apply_negative]; omega)
              | negative =>
                  have hneg : compare (-(r : Int)) (-q) = compare (q : Int) r := by
                    rw [← cmp_eq_compare, ← cmp_eq_compare]
                    exact StrictAnti.cmp_map_eq (fun _ _ => neg_lt_neg) _ _
                  change some ((compare e f).then (compare m n)).swap = _
                  rw [hthen, apply_negative, apply_negative, hneg, ← Std.OrientedOrd.eq_swap]

/-! ### Values -/

def position (x : Float) : Int := key x.toModel.unpack

theorem unpack_eq_notANumber {x : Float} (h : x.isNaN = true) : x.toModel.unpack = .notANumber := by
  change x.toModel.unpack.isNaN = true at h
  exact isNaN_iff.mp h

theorem unpack_ne_notANumber {x : Float} (h : x.isNaN = false) :
    x.toModel.unpack ≠ .notANumber := by
  intro hunpack
  change x.toModel.unpack.isNaN = false at h
  rw [hunpack] at h
  exact Bool.noConfusion h

theorem compare_eq_none {u v : UnpackedFloat} (h : u = .notANumber ∨ v = .notANumber) :
    u.compare v = none := by
  rcases h with rfl | rfl
  · rfl
  · cases u with
    | finite s m e hm => cases s <;> rfl
    | infinity s => cases s <;> rfl
    | _ => rfl

theorem compare_unpack (x y : Float) :
    (x.isNaN = false ∧ y.isNaN = false ∧
        x.toModel.unpack.compare y.toModel.unpack = some (compare (position x) (position y))) ∨
      (¬(x.isNaN = false ∧ y.isNaN = false) ∧ x.toModel.unpack.compare y.toModel.unpack = none) := by
  by_cases h : x.isNaN = false ∧ y.isNaN = false
  · refine .inl ⟨h.1, h.2, ?_⟩
    exact compare_eq_compare_key (canonical_unpack _) (canonical_unpack _) (fits_unpack _)
      (fits_unpack _) (unpack_ne_notANumber h.1) (unpack_ne_notANumber h.2)
  · refine .inr ⟨h, compare_eq_none ?_⟩
    by_cases hx : x.isNaN = false
    · exact .inr (unpack_eq_notANumber (Bool.not_eq_false _ ▸ fun hy => h ⟨hx, hy⟩))
    · exact .inl (unpack_eq_notANumber (Bool.not_eq_false _ ▸ hx))

theorem any_compare_iff {x y : Float} (p : Ordering → Bool) :
    (x.toModel.unpack.compare y.toModel.unpack).any p = true ↔
      x.isNaN = false ∧ y.isNaN = false ∧ p (compare (position x) (position y)) = true := by
  rcases compare_unpack x y with ⟨hx, hy, hcompare⟩ | ⟨hnan, hcompare⟩
  · rw [hcompare, Option.any_some]
    exact ⟨fun h => ⟨hx, hy, h⟩, fun h => h.2.2⟩
  · rw [hcompare]
    exact ⟨fun h => Bool.noConfusion h, fun h => absurd ⟨h.1, h.2.1⟩ hnan⟩

theorem le_iff {x y : Float} :
    x ≤ y ↔ x.isNaN = false ∧ y.isNaN = false ∧ position x ≤ position y := by
  have hle : x ≤ y ↔ (x.toModel.unpack.compare y.toModel.unpack).any (·.isLE) = true :=
    decide_eq_true_iff
  rw [hle, any_compare_iff, Ordering.isLE_iff_ne_gt, compare_gt_iff_gt, not_lt]

theorem lt_iff {x y : Float} :
    x < y ↔ x.isNaN = false ∧ y.isNaN = false ∧ position x < position y := by
  have hlt : x < y ↔ (x.toModel.unpack.compare y.toModel.unpack).any (· == .lt) = true := by
    refine decide_eq_true_iff.trans ?_
    change (x.toModel.unpack.compare y.toModel.unpack == some .lt) = true ↔ _
    cases x.toModel.unpack.compare y.toModel.unpack <;> rfl
  rw [hlt, any_compare_iff, beq_iff_eq, compare_lt_iff_lt]

theorem beq_iff {x y : Float} :
    (x == y) = true ↔ x.isNaN = false ∧ y.isNaN = false ∧ position x = position y := by
  have hbeq : (x == y) = (x.toModel.unpack.compare y.toModel.unpack).any (· == .eq) := by
    change (x.toModel.unpack.compare y.toModel.unpack == some .eq) = _
    cases x.toModel.unpack.compare y.toModel.unpack <;> rfl
  rw [hbeq, any_compare_iff, beq_iff_eq, compare_eq_iff_eq]

theorem rank_lt (u : UnpackedFloat) : rank u < 2 ^ 63 := by
  cases u with
  | notANumber => exact (by decide : 2047 * 2 ^ 52 + 2 ^ 51 < 2 ^ 63)
  | infinity s => exact (by decide : 2047 * 2 ^ 52 < 2 ^ 63)
  | zero s => exact (by decide : 0 < 2 ^ 63)
  | finite s m e hm =>
      rw [rank_finite]
      omega

theorem toNat_toBits_eq (x : Float) :
    x.toBits.toNat =
      (sign x.toModel.unpack).toBitVec.toNat * 2 ^ 63 + rank x.toModel.unpack := by
  have hpack := toNat_pack (canonical_unpack x.toModel.toBits.toBitVec)
  rw [pack_unpack_of_valid x.toModel.valid] at hpack
  exact hpack

theorem toNat_toBits (x : Float) :
    (x.toBits.toNat = rank x.toModel.unpack ∧ position x = rank x.toModel.unpack) ∨
      (x.toBits.toNat = 2 ^ 63 + rank x.toModel.unpack ∧
        position x = -(rank x.toModel.unpack : Int)) := by
  have hbits := toNat_toBits_eq x
  unfold position key
  cases hsign : sign x.toModel.unpack with
  | positive =>
      rw [hsign, show Sign.positive.toBitVec.toNat = 0 from rfl, Nat.zero_mul, Nat.zero_add] at hbits
      exact .inl ⟨hbits, rfl⟩
  | negative =>
      rw [hsign, show Sign.negative.toBitVec.toNat = 1 from rfl, Nat.one_mul] at hbits
      exact .inr ⟨hbits, rfl⟩

/-- In the order of sorting the negative values come below zero by one step more. -/
theorem sortKey_eq (x : Float) :
    (0 ≤ position x ∧ sortKey x = position x) ∨
      (position x ≤ 0 ∧ sortKey x = position x - 1) := by
  have hlt := rank_lt x.toModel.unpack
  have hpow : Nat.pow 2 63 = 2 ^ 63 := rfl
  have hpow' : Int.pow 2 63 = 2 ^ 63 := rfl
  unfold sortKey
  rw [hpow, hpow']
  rcases toNat_toBits x with ⟨hbits, hposition⟩ | ⟨hbits, hposition⟩
  · left
    rw [hbits, hposition, if_neg (by rw [Nat.div_eq_of_lt hlt]; decide)]
    exact ⟨Int.natCast_nonneg _, rfl⟩
  · have hquotient : (2 ^ 63 + rank x.toModel.unpack) / 2 ^ 63 = 1 := by omega
    right
    rw [hbits, hposition, if_pos (by rw [hquotient]; decide)]
    omega

theorem eq_of_pack_eq {u v : UnpackedFloat} (hu : Canonical u) (hv : Canonical v)
    (h : UnpackedFloat.pack Format.binary64 u = UnpackedFloat.pack Format.binary64 v) :
    sign u = sign v ∧ rank u = rank v := by
  have hbits := congrArg BitVec.toNat h
  rw [toNat_pack hu, toNat_pack hv] at hbits
  have hlt := rank_lt u
  have hlt' := rank_lt v
  have hsign : (sign u).toBitVec.toNat = (sign v).toBitVec.toNat := by omega
  refine ⟨?_, by omega⟩
  rw [← Sign.ofBitVec_toBitVec (sign u), BitVec.eq_of_toNat_eq hsign, Sign.ofBitVec_toBitVec]

/-- Packing keeps the sign and the rank. -/
theorem unpack_pack {u : UnpackedFloat} (hu : Canonical u) :
    sign (Float.Model.pack u).unpack = sign u ∧ rank (Float.Model.pack u).unpack = rank u :=
  eq_of_pack_eq (canonical_unpack _) hu (pack_unpack_of_valid valid_pack)

theorem position_pack {u : UnpackedFloat} (hu : Canonical u) :
    position (.ofModel (.pack u)) = key u := by
  obtain ⟨hsign, hrank⟩ := unpack_pack hu
  change key (Float.Model.pack u).unpack = key u
  unfold key
  rw [hsign, hrank]

theorem rank_le_infinityRank {u : UnpackedFloat} : rank u ≤ infinityRank ↔ u ≠ .notANumber := by
  cases u with
  | notANumber =>
      have hnot : ¬infinityRank + 2 ^ 51 ≤ infinityRank := by omega
      exact iff_of_false hnot fun h => h rfl
  | infinity s => exact iff_of_true (Nat.le_refl infinityRank) nofun
  | zero s => exact iff_of_true (Nat.zero_le infinityRank) nofun
  | finite s m e hm => exact iff_of_true (Nat.min_le_right _ infinityRank) nofun

theorem isNaN_eq_false_iff {x : Float} : x.isNaN = false ↔ rank x.toModel.unpack ≤ infinityRank := by
  rw [rank_le_infinityRank]
  constructor
  · exact unpack_ne_notANumber
  · intro h
    by_contra hnan
    exact h (unpack_eq_notANumber (Bool.not_eq_false _ ▸ hnan))

theorem isNaN_pack {u : UnpackedFloat} (hu : Canonical u) :
    (Float.ofModel (.pack u)).isNaN = false ↔ u ≠ .notANumber := by
  rw [isNaN_eq_false_iff, ← rank_le_infinityRank]
  change rank (Float.Model.pack u).unpack ≤ _ ↔ _
  rw [(unpack_pack hu).2]

theorem isNaN_of_isFinite {x : Float} (h : x.isFinite = true) : x.isNaN = false := by
  change x.toModel.unpack.isFinite = true at h
  change x.toModel.unpack.isNaN = false
  cases hunpack : x.toModel.unpack with
  | notANumber =>
      rw [hunpack] at h
      exact Bool.noConfusion h
  | _ => rfl

theorem isFinite_iff {x : Float} :
    x.isFinite = true ↔ rank x.toModel.unpack < infinityRank := by
  change x.toModel.unpack.isFinite = true ↔ _
  have hcanonical : Canonical x.toModel.unpack := canonical_unpack _
  have hfits : Fits x.toModel.unpack := fits_unpack _
  cases hunpack : x.toModel.unpack with
  | notANumber =>
      have hnot : ¬infinityRank + 2 ^ 51 < infinityRank := by omega
      exact iff_of_false nofun hnot
  | infinity s => exact iff_of_false nofun (Nat.lt_irrefl infinityRank)
  | zero s => exact iff_of_true rfl (by decide : 0 < infinityRank)
  | finite s m e hm =>
      rw [hunpack] at hcanonical hfits
      obtain ⟨hrank, hlt⟩ := rank_lt_infinityRank hcanonical hfits
      exact iff_of_true rfl (hrank.trans_lt hlt)

theorem natAbs_position (x : Float) : (position x).natAbs = rank x.toModel.unpack := natAbs_key _

instance : Scalar.LawfulOrder Float where
  isNaN_of_le h := ⟨(le_iff.mp h).1, (le_iff.mp h).2.1⟩
  le_total {x y} hx hy := by
    rcases le_total (position x) (position y) with hle | hge
    · exact .inl (le_iff.mpr ⟨hx, hy, hle⟩)
    · exact .inr (le_iff.mpr ⟨hy, hx, hge⟩)
  le_trans hxy hyz := by
    obtain ⟨hx, -, hxy⟩ := le_iff.mp hxy
    obtain ⟨-, hz, hyz⟩ := le_iff.mp hyz
    exact le_iff.mpr ⟨hx, hz, hxy.trans hyz⟩
  lt_iff_le_not_ge {x y} := by
    change x < y ↔ x ≤ y ∧ ¬y ≤ x
    rw [lt_iff, le_iff, le_iff]
    constructor
    · rintro ⟨hx, hy, hlt⟩
      exact ⟨⟨hx, hy, hlt.le⟩, fun h => absurd h.2.2 (not_le.mpr hlt)⟩
    · rintro ⟨⟨hx, hy, -⟩, hnot⟩
      exact ⟨hx, hy, not_le.mp fun hge => hnot ⟨hy, hx, hge⟩⟩
  beq_iff_le_and_ge {x y} := by
    change (x == y) = true ↔ x ≤ y ∧ y ≤ x
    rw [beq_iff, le_iff, le_iff]
    constructor
    · rintro ⟨hx, hy, heq⟩
      exact ⟨⟨hx, hy, heq.le⟩, hy, hx, heq.ge⟩
    · rintro ⟨⟨hx, hy, hle⟩, -, -, hge⟩
      exact ⟨hx, hy, le_antisymm hle hge⟩
  isNaN_of_isFinite h := isNaN_of_isFinite h
  isFinite_of_le_of_le {x y z} hx hz hxy hyz := by
    have hx' := isFinite_iff.mp hx
    have hz' := isFinite_iff.mp hz
    obtain ⟨-, -, hxy⟩ := le_iff.mp hxy
    obtain ⟨-, -, hyz⟩ := le_iff.mp hyz
    refine isFinite_iff.mpr ?_
    rw [← natAbs_position] at hx' hz' ⊢
    omega
  isNaN_abs x := by
    have hcanonical : Canonical x.toModel.unpack.abs := (canonical_unpack _).abs
    have habs : x.toModel.unpack.abs ≠ .notANumber ↔ x.toModel.unpack ≠ .notANumber := by
      cases x.toModel.unpack <;> simp [UnpackedFloat.abs]
    change (Float.ofModel (.pack x.toModel.unpack.abs)).isNaN = x.isNaN
    rw [Bool.eq_iff_iff, ← not_iff_not, Bool.not_eq_true, Bool.not_eq_true, isNaN_pack hcanonical,
      habs, isNaN_eq_false_iff, rank_le_infinityRank]
  sortsBefore_trans hxy hyz := by
    exact decide_eq_true ((of_decide_eq_true hxy).trans (of_decide_eq_true hyz))
  sortsBefore_total x y := by
    rcases le_total (sortKey x) (sortKey y) with hle | hge
    · exact .inl (decide_eq_true hle)
    · exact .inr (decide_eq_true hge)
  le_of_sortsBefore {x y} hx hy h := by
    have hkey : sortKey x ≤ sortKey y := of_decide_eq_true h
    refine le_iff.mpr ⟨hx, hy, ?_⟩
    rcases sortKey_eq x with ⟨hx, hx'⟩ | ⟨hx, hx'⟩ <;>
      rcases sortKey_eq y with ⟨hy, hy'⟩ | ⟨hy, hy'⟩ <;> omega

end Univariate.Binary64
