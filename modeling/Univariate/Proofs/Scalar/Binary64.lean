import Mathlib
import Univariate.Proofs.Scalar.Sign
import Univariate.Scalar.Binary64

/-!
# Signs in double precision

A double is taken apart into sign, mantissa and exponent, multiplied by one or minus one without
rounding, and put together again.
-/

open Float.Model Float.Model.UnpackedFloat

namespace Univariate.Binary64

theorem toNat_implicit (m : BitVec 52) : (1#1 ++ m).toNat = 2 ^ 52 + m.toNat := by
  rw [BitVec.toNat_append, ← Nat.shiftLeft_add_eq_or_of_lt m.isLt]
  simp [Nat.shiftLeft_eq]

theorem log2_implicit {m : Nat} (h : m < 2 ^ 52) : (2 ^ 52 + m).log2 = 52 := by
  rw [Nat.log2_eq_iff (by omega)]
  omega

/-- The mantissa fills its bits, or the exponent is the smallest one. -/
theorem canonical_of_unpack_eq {b : BitVec Format.binary64.numBits} {s : Sign} {m : Nat} {e : Int}
    {hm : 0 < m} (h : UnpackedFloat.unpack Format.binary64 b = .finite s m e hm) :
    (m.log2 = 52 ∧ -1074 ≤ e) ∨ (m.log2 < 52 ∧ e = -1074) := by
  unfold UnpackedFloat.unpack at h
  dsimp only at h
  split at h
  · split at h <;> simp at h
  · split at h
    · next hexponent =>
        split at h
        · simp at h
        · obtain ⟨-, rfl, rfl⟩ := UnpackedFloat.finite.inj h
          refine Or.inr ⟨(Nat.log2_lt hm.ne').mpr (unpackMantissa b).isLt, ?_⟩
          rw [hexponent]
          rfl
    · next hexponent =>
        obtain ⟨-, rfl, rfl⟩ := UnpackedFloat.finite.inj h
        refine Or.inl ⟨?_, ?_⟩
        · rw [toNat_implicit]
          exact log2_implicit (unpackMantissa b).isLt
        · have hpos : (unpackExponent b).toNat ≠ 0 :=
            fun hzero => hexponent (BitVec.eq_of_toNat_eq hzero)
          change (-1074 : Int) ≤ (unpackExponent b).toNat - ((1023 : Nat) + (52 : Nat))
          omega

theorem log2_mul_two_pow {m : Nat} (hm : m ≠ 0) (k : Nat) : (m * 2 ^ k).log2 = m.log2 + k := by
  have hlower : 2 ^ m.log2 ≤ m := Nat.log2_self_le hm
  have hupper : m < 2 ^ (m.log2 + 1) := Nat.lt_log2_self
  rw [Nat.log2_eq_iff (Nat.mul_ne_zero hm (Nat.two_pow_pos k).ne'), Nat.add_right_comm,
    Nat.pow_add, Nat.pow_add _ _ k]
  constructor
  · exact Nat.mul_le_mul_right _ hlower
  · exact Nat.mul_lt_mul_of_pos_right hupper (Nat.two_pow_pos k)

theorem shiftRight_exact (m k : Nat) :
    ExtendedMantissa.mk (m * 2 ^ k) false false >>> k = ⟨m, false, false⟩ := by
  change Nat.repeat ExtendedMantissa.shiftRightOne k _ = _
  induction k generalizing m with
  | zero => simp [Nat.repeat]
  | succ k ih =>
      have hpow : m * 2 ^ (k + 1) = 2 * m * 2 ^ k := by ring
      rw [Nat.repeat, hpow, ih]
      simp [ExtendedMantissa.shiftRightOne]

/-- Bits that were only shifted in are dropped without rounding. -/
theorem roundWithAccuracy_shifted (s : Sign) {m : Nat} {e : Int} (hm : 0 < m)
    (hcanonical : (m.log2 = 52 ∧ -1074 ≤ e) ∨ (m.log2 < 52 ∧ e = -1074)) :
    roundWithAccuracy Format.binary64 s (m * 2 ^ 52) (e + -52) .exact = .finite s m e hm := by
  have htarget : Format.binary64.targetExponent (totalExponent m e) = e := by
    change max ((m.log2 : Int) + 1 + e - (53 : Nat)) (-1074) = e
    omega
  have htotal : totalExponent (m * 2 ^ 52) (e + -52) = totalExponent m e := by
    unfold totalExponent
    rw [log2_mul_two_pow hm.ne']
    omega
  have hfirst : shiftToTargetExponent Format.binary64 (m * 2 ^ 52) (e + -52) .exact =
      (⟨m, false, false⟩, e) := by
    have hamount : (e - (e + -52)).toNat = 52 := by omega
    unfold shiftToTargetExponent shiftToExponent
    dsimp only
    rw [htotal, htarget, hamount, ExtendedMantissa.ofMantissaAndAccuracy, shiftRight_exact]
    exact congrArg _ (by omega)
  have hsecond : shiftToTargetExponent Format.binary64 m e .exact = (⟨m, false, false⟩, e) := by
    have hamount : (e - e).toNat = 0 := by omega
    unfold shiftToTargetExponent shiftToExponent
    dsimp only
    rw [htarget, hamount, ExtendedMantissa.ofMantissaAndAccuracy]
    exact congrArg _ (by omega)
  have hrounded : (ExtendedMantissa.mk m false false).roundedMantissa = m := rfl
  unfold roundWithAccuracy
  rw [hfirst]
  dsimp only
  rw [hrounded, hsecond]
  exact dif_neg hm.ne'

theorem pack_unpack_model (a : Float.Model) : pack a.unpack = a := by
  obtain ⟨bits, valid⟩ := a
  have hbits := pack_unpack_of_valid valid
  simp only [Float.Model.pack, Float.Model.unpack, hbits]

theorem mul_unit (a : Float.Model) (t : Sign) :
    UnpackedFloat.mul Format.binary64 a.unpack (.finite t (2 ^ 52) (-52) (by decide)) =
      match t with
      | .positive => a.unpack
      | .negative => a.unpack.neg := by
  cases ha : a.unpack with
  | notANumber => cases t <;> rfl
  | infinity s => cases s <;> cases t <;> rfl
  | zero s => cases s <;> cases t <;> rfl
  | finite s m e hm =>
      rw [UnpackedFloat.mul, roundWithAccuracy_shifted _ hm (canonical_of_unpack_eq ha)]
      cases s <;> cases t <;> rfl

theorem ne_nan_of_isFinite {x : Float} (h : x.isFinite = true) : x ≠ Float.nan := by
  rintro rfl
  revert h
  decide

instance : Scalar.LawfulSign Float where
  mul_one x := by
    have hone : (1 : Float).toModel.unpack = .finite .positive (2 ^ 52) (-52) (by decide) := rfl
    change Float.ofModel (pack (.mul _ x.toModel.unpack (1 : Float).toModel.unpack)) = x
    rw [hone, mul_unit]
    exact congrArg Float.ofModel (pack_unpack_model x.toModel)
  mul_neg_one x := by
    have hone : (-1 : Float).toModel.unpack = .finite .negative (2 ^ 52) (-52) (by decide) := rfl
    change Float.ofModel (pack (.mul _ x.toModel.unpack (-1 : Float).toModel.unpack)) = -x
    rw [hone, mul_unit]
    rfl
  ofNumeral_decimal_true digits exponent := rfl
  isFinite_zero := rfl
  beq_comm x y := by
    rw [Bool.eq_iff_iff]
    change (x == y) = true ↔ (y == x) = true
    rw [Float.beq_iff_ne_nan_and_eq, Float.beq_iff_ne_nan_and_eq]
    tauto
  beq_self {x} h := Float.beq_self_iff.mpr (ne_nan_of_isFinite h)
  exists_toNumeral_eq {x} h := by
    have hnumber : x.isNaN = false := by
      rw [Float.isNaN_eq_decide_eq_nan]
      exact decide_eq_false (ne_nan_of_isFinite h)
    have hfinite : x.isFinite = true := h
    change ∃ negative digits exponent, toNumeral x = _
    rw [toNumeral, hnumber, hfinite]
    exact ⟨_, _, _, rfl⟩

end Univariate.Binary64
