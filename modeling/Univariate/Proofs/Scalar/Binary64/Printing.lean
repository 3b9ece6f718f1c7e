import Univariate.Proofs.Numeral.Positional
import Univariate.Proofs.Numeral.Shortest
import Univariate.Proofs.Scalar.Binary64.Decimal
import Univariate.Proofs.Term.Printing

/-!
# Every double is read back

The bits tell sign, mantissa and exponent, these the neighbourhood of a value, and the shortest
decimal in it is rounded to the value again.
-/

open Float.Model Float.Model.UnpackedFloat

namespace Univariate.Binary64

variable {x : Float} {s : UnpackedFloat.Sign} {m : Nat} {e : Int} {hm : 0 < m}

/-! ### Bits -/

/-- The parts, as the bits without the sign bit tell them. -/
theorem parts_eq (x : Float) {r : Nat} (hr : rank x.toModel.unpack = r) :
    packedSign (parts x).negative = sign x.toModel.unpack ∧
      (parts x).mantissa = (if r < 2 ^ 52 then r else 2 ^ 52 + r % 2 ^ 52) ∧
      (parts x).exponent = ((if r < 2 ^ 52 then 1 else r / 2 ^ 52 : Nat) : Int) - 1075 := by
  have hbits := toNat_toBits_eq x
  have hlt := rank_lt x.toModel.unpack
  rw [hr] at hbits hlt
  have hpow : ∀ n : Nat, Nat.pow 2 n = 2 ^ n := fun _ => rfl
  unfold parts
  simp only [hpow, beq_iff_eq]
  generalize x.toBits.toNat = bits at hbits ⊢
  have hbit : (sign x.toModel.unpack).toBitVec.toNat < 2 := (sign x.toModel.unpack).toBitVec.isLt
  have hfield : bits / 2 ^ 52 % 2 ^ 11 = r / 2 ^ 52 := by omega
  have hfraction : bits % 2 ^ 52 = r % 2 ^ 52 := by omega
  have hsmall : r / 2 ^ 52 = 0 ↔ r < 2 ^ 52 := by omega
  have hsign : bits / 2 ^ 63 = (sign x.toModel.unpack).toBitVec.toNat := by omega
  rw [hfield, hfraction, hsign]
  simp only [hsmall]
  refine ⟨?_, ?_, trivial⟩
  · cases sign x.toModel.unpack <;> rfl
  · split
    · next hlt => exact Nat.mod_eq_of_lt hlt
    · rfl

theorem parts_of_unpack_eq (hunpack : x.toModel.unpack = .finite s m e hm) :
    packedSign (parts x).negative = s ∧ (parts x).mantissa = m ∧ (parts x).exponent = e := by
  have hcanonical : Canonical x.toModel.unpack := canonical_unpack _
  have hfits : Fits x.toModel.unpack := fits_unpack _
  rw [hunpack] at hcanonical hfits
  obtain ⟨hrank, -⟩ := rank_lt_infinityRank hcanonical hfits
  obtain ⟨he, hlt, hfull⟩ := canonical_bounds hcanonical
  obtain ⟨hnegative, hmantissa, hexponent⟩ := parts_eq x ((congrArg rank hunpack).trans hrank)
  rw [hnegative, hmantissa, hexponent, hunpack]
  refine ⟨rfl, ?_, ?_⟩
  · split <;> omega
  · split <;> omega

theorem parts_of_unpack_eq_zero (hunpack : x.toModel.unpack = .zero s) :
    packedSign (parts x).negative = s ∧ (parts x).mantissa = 0 := by
  obtain ⟨hnegative, hmantissa, -⟩ := parts_eq x (congrArg rank hunpack)
  rw [hnegative, hmantissa, hunpack]
  exact ⟨rfl, rfl⟩

/-! ### Neighbourhoods -/

/-- A place in the neighbourhood, in quarters of the last bit. -/
theorem quarters_div_den (p : Parts) (n : Nat) :
    ((n * Nat.pow 2 (p.exponent - 2).toNat : Nat) / p.neighbourhood.den : ℚ) =
      n / 4 * 2 ^ p.exponent := by
  have hexponent : (-(p.exponent - 2)).toNat = (2 - p.exponent).toNat := by omega
  have hscale : (2 ^ p.exponent : ℚ) =
      4 * (2 ^ (p.exponent - 2).toNat / 2 ^ (2 - p.exponent).toNat) := by
    rw [← hexponent, ← Numeral.Neighbourhood.zpow_eq_div two_ne_zero, zpow_sub₀ two_ne_zero]
    ring
  have hden : (p.neighbourhood.den : ℚ) = 2 ^ (2 - p.exponent).toNat :=
    Nat.cast_pow 2 (2 - p.exponent).toNat
  rw [hscale, hden, Nat.pow_eq]
  push_cast
  ring

theorem neighbourhood_low (p : Parts) (hpos : 0 < p.mantissa) :
    (p.neighbourhood.low / p.neighbourhood.den : ℚ) =
      ((p.mantissa : ℚ) - if p.mantissa = 2 ^ 52 ∧ p.exponent ≠ -1074 then 1 / 4 else 1 / 2) *
        2 ^ p.exponent := by
  have hhalf : (p.mantissa == Nat.pow 2 52 && p.exponent != -1074) = true ↔
      p.mantissa = 2 ^ 52 ∧ p.exponent ≠ -1074 := by
    rw [Bool.and_eq_true, beq_iff_eq, bne_iff_ne]
    rfl
  refine (quarters_div_den p _).trans ?_
  congr 1
  split
  · next h =>
      rw [if_pos (hhalf.mp h), Nat.cast_sub (by omega)]
      push_cast
      ring
  · next h =>
      rw [if_neg (fun hpower => h (hhalf.mpr hpower)), Nat.cast_sub (by omega)]
      push_cast
      ring

theorem neighbourhood_high (p : Parts) :
    (p.neighbourhood.high / p.neighbourhood.den : ℚ) =
      ((p.mantissa : ℚ) + 1 / 2) * 2 ^ p.exponent := by
  refine (quarters_div_den p _).trans ?_
  push_cast
  ring

/-- What lies in the neighbourhood is rounded to the value. -/
theorem roundsTo_of_contains (p : Parts) (hpos : 0 < p.mantissa) {grid : Int} {n : Nat}
    (h : (p.neighbourhood.inUnits grid).contains n = true) :
    RoundsTo p.mantissa p.exponent (n * 10 ^ grid) := by
  have hden : 0 < p.neighbourhood.den := Nat.two_pow_pos _
  have hclosed : p.neighbourhood.closed = true ↔ p.mantissa % 2 = 0 := beq_iff_eq
  rw [Numeral.Neighbourhood.contains_inUnits_iff hden, neighbourhood_low p hpos,
    neighbourhood_high] at h
  split at h
  · next heven =>
      refine ⟨h.1, h.2, ?_⟩
      intro hodd
      rw [hclosed] at heven
      omega
  · refine ⟨h.1.le, h.2.le, ?_⟩
    intro hodd
    refine ⟨?_, h.2⟩
    rw [if_neg (by omega)] at h
    exact h.1

theorem contains_shortest_neighbourhood (p : Parts) (hpos : 0 < p.mantissa)
    (hlt : p.mantissa < 2 ^ 53) :
    (p.neighbourhood.inUnits (Numeral.shortest p.neighbourhood).2).contains
      (Numeral.shortest p.neighbourhood).1 = true := by
  have hscale : 0 < Nat.pow 2 (p.exponent - 2).toNat := Nat.two_pow_pos _
  apply Numeral.contains_shortest (Nat.two_pow_pos _)
  · apply Nat.mul_lt_mul_of_pos_right ?_ hscale
    split <;> omega
  · apply Nat.mul_lt_mul_of_pos_right ?_ hscale
    omega
  · change 4 * p.mantissa * _ < 10 ^ 16 * ((4 * p.mantissa + 2) * _ - (4 * p.mantissa - _) * _)
    rw [← Nat.sub_mul, ← Nat.mul_assoc]
    apply Nat.mul_lt_mul_of_pos_right ?_ hscale
    split
    · next h =>
        have hpower : p.mantissa = 2 ^ 52 := by
          rw [Bool.and_eq_true, beq_iff_eq] at h
          exact h.1
        omega
    · omega

/-! ### Texts -/

theorem filled_value (digits : Nat) (exponent : Int) :
    ((Numeral.filled digits exponent).1 * 10 ^ (Numeral.filled digits exponent).2 : ℚ) =
      digits * 10 ^ exponent := by
  cases exponent with
  | ofNat n =>
      change ((digits * 10 ^ n : Nat) * 10 ^ (0 : Int) : ℚ) = digits * 10 ^ (n : Int)
      rw [zpow_zero, mul_one, zpow_natCast]
      push_cast
      rfl
  | negSucc n => rfl

/-- The digits that stand for a size, with their power of ten. -/
def Parts.decimal (p : Parts) : Nat × Int :=
  if p.mantissa == 0 then (0, 0) else Numeral.shortest p.neighbourhood

theorem toNumeral_eq (h : x.isFinite = true) :
    toNumeral x = .decimal (parts x).negative (parts x).decimal.1 (parts x).decimal.2 := by
  unfold toNumeral
  rw [isNaN_of_isFinite h, h]
  rfl

theorem ofNumeral_zero (negative : Bool) :
    ofNumeral (.decimal negative 0 0) = .ofModel (.pack (.zero (packedSign negative))) := by
  cases negative <;> rfl

theorem ofNumeral_decimal (h : x.isFinite = true) :
    ofNumeral (.decimal (parts x).negative
      (Numeral.filled (parts x).decimal.1 (parts x).decimal.2).1
      (Numeral.filled (parts x).decimal.1 (parts x).decimal.2).2) =
        .ofModel (.pack x.toModel.unpack) := by
  have hcanonical : Canonical x.toModel.unpack := canonical_unpack _
  have hfinite : x.toModel.unpack.isFinite = true := h
  cases hunpack : x.toModel.unpack with
  | finite s m e hm =>
      rw [hunpack] at hcanonical
      obtain ⟨-, hlt, -⟩ := canonical_bounds hcanonical
      obtain ⟨rfl, rfl, rfl⟩ := parts_of_unpack_eq hunpack
      have hdecimal : (parts x).decimal = Numeral.shortest (parts x).neighbourhood :=
        if_neg (by rw [beq_iff_eq]; exact hm.ne')
      have hrounds := roundsTo_of_contains _ hm (contains_shortest_neighbourhood _ hm hlt)
      rw [← hdecimal, ← filled_value] at hrounds
      exact ofNumeral_of_roundsTo hcanonical _ (Numeral.filled_nonpos _ _) hrounds
  | zero s =>
      obtain ⟨rfl, hmantissa⟩ := parts_of_unpack_eq_zero hunpack
      unfold Parts.decimal
      rw [hmantissa]
      exact ofNumeral_zero _
  | _ =>
      rw [hunpack] at hfinite
      exact Bool.noConfusion hfinite

/-- **The text of a finite double reads as that double.** -/
theorem readsBack (h : x.isFinite = true) : Scalar.ReadsBack x := by
  change (Numeral.ofText? (toNumeral x).plain).map ofNumeral = some x
  rw [toNumeral_eq h, Numeral.ofText?_plain, Option.map_some, ofNumeral_decimal h,
    pack_unpack_model]

end Univariate.Binary64
