import Mathlib.Algebra.Order.Field.Power
import Mathlib.Tactic.Linarith
import Mathlib.Tactic.Positivity
import Mathlib.Tactic.Ring
import Univariate.Numeral.Shortest

/-!
# Shortest decimals lie where they should

If a neighbourhood is wide enough for seventeen digits, the search ends inside it.
-/

namespace Univariate.Numeral

namespace Neighbourhood

variable {i : Neighbourhood}

/-! ### Units -/

theorem inUnits_eq (i : Neighbourhood) (grid : Int) :
    i.inUnits grid =
      ⟨i.low * 10 ^ (-grid).toNat, i.value * 10 ^ (-grid).toNat, i.high * 10 ^ (-grid).toNat,
        i.den * 10 ^ grid.toNat, i.closed⟩ := by
  cases grid with
  | ofNat n =>
      have hneg : (-Int.ofNat n).toNat = 0 := Int.toNat_neg_natCast n
      rw [hneg, Nat.pow_zero, Nat.mul_one, Nat.mul_one, Nat.mul_one]
      rfl
  | negSucc n =>
      have hpos : (Int.negSucc n).toNat = 0 := rfl
      rw [hpos, Nat.pow_zero, Nat.mul_one]
      rfl

theorem zpow_eq_div {base : ℚ} (hbase : base ≠ 0) (n : Int) :
    base ^ n = base ^ n.toNat / base ^ (-n).toNat := by
  have hn : (n.toNat : Int) - (-n).toNat = n := by omega
  rw [← zpow_natCast, ← zpow_natCast, ← zpow_sub₀ hbase, hn]

/-- What is contained, as a fraction of the denominator. -/
theorem contains_inUnits_iff (hden : 0 < i.den) {grid : Int} {n : Nat} :
    (i.inUnits grid).contains n = true ↔
      if i.closed then (i.low / i.den : ℚ) ≤ n * 10 ^ grid ∧ (n * 10 ^ grid : ℚ) ≤ i.high / i.den
      else (i.low / i.den : ℚ) < n * 10 ^ grid ∧ (n * 10 ^ grid : ℚ) < i.high / i.den := by
  have hpos : (0 : ℚ) < 10 ^ (-grid).toNat := by positivity
  have hden' : (0 : ℚ) < i.den := by exact_mod_cast hden
  have hdigits : (n * 10 ^ grid.toNat * i.den : ℚ) = (n * (i.den * 10 ^ grid.toNat) : Nat) := by
    push_cast
    ring
  have hends : ∀ m : Nat, (m * 10 ^ (-grid).toNat : ℚ) = (m * 10 ^ (-grid).toNat : Nat) := by
    intro m
    push_cast
    rfl
  rw [inUnits_eq, zpow_eq_div (by norm_num), ← mul_div_assoc, div_le_div_iff₀ hden' hpos,
    div_le_div_iff₀ hpos hden', div_lt_div_iff₀ hden' hpos, div_lt_div_iff₀ hpos hden', hdigits,
    hends, hends]
  unfold contains
  dsimp only
  cases i.closed with
  | true => simp only [if_true, Bool.and_eq_true, decide_eq_true_eq, Nat.cast_le]
  | false =>
      simp only [Bool.false_eq_true, if_false, Bool.and_eq_true, decide_eq_true_eq, Nat.cast_lt]

/-- A unit ten times as large holds a tenth of the digits. -/
theorem contains_inUnits_add_one (hden : 0 < i.den) (grid : Int) (n : Nat) :
    (i.inUnits (grid + 1)).contains n = (i.inUnits grid).contains (10 * n) := by
  have hdigits : (n * 10 ^ (grid + 1) : ℚ) = (10 * n : Nat) * 10 ^ grid := by
    rw [zpow_add_one₀ (by norm_num)]
    push_cast
    ring
  rw [Bool.eq_iff_iff, contains_inUnits_iff hden, contains_inUnits_iff hden, hdigits]

/-! ### The search -/

theorem contains_of_nearest? {n : Nat} (h : i.nearest? = some n) : i.contains n = true := by
  unfold nearest? at h
  dsimp only at h
  split at h
  · next hbelow habove =>
      split at h
      · exact Option.some.inj h ▸ hbelow
      · exact Option.some.inj h ▸ habove
  · next hbelow _ => exact Option.some.inj h ▸ hbelow
  · next _ habove => exact Option.some.inj h ▸ habove
  · cases h

/-- The value lies between two whole numbers, and both cannot lie outside. -/
theorem isSome_nearest? (hden : 0 < i.den) (hlow : i.low < i.value) (hhigh : i.value < i.high)
    (hwidth : i.low + i.den < i.high) : i.nearest?.isSome = true := by
  unfold nearest?
  dsimp only
  cases hbelow : i.contains (i.value / i.den) with
  | true => cases i.contains (i.value / i.den + 1) <;> rfl
  | false =>
      have habove : i.contains (i.value / i.den + 1) = true := by
        have hle : i.value / i.den * i.den ≤ i.value := Nat.div_mul_le_self _ _
        have hlt : i.value < (i.value / i.den + 1) * i.den :=
          (Nat.div_lt_iff_lt_mul hden).mp (Nat.lt_succ_self _)
        rw [Nat.add_mul, Nat.one_mul] at hlt
        unfold contains at hbelow ⊢
        rw [Nat.add_mul, Nat.one_mul]
        split at hbelow
        · next hclosed =>
            simp only [Bool.and_eq_false_iff, decide_eq_false_iff_not] at hbelow
            rw [if_pos hclosed]
            simp only [Bool.and_eq_true, decide_eq_true_eq]
            omega
        · next hopen =>
            simp only [Bool.and_eq_false_iff, decide_eq_false_iff_not] at hbelow
            rw [if_neg hopen]
            simp only [Bool.and_eq_true, decide_eq_true_eq]
            omega
      rw [habove]
      rfl

theorem contains_search {grid : Int} {finer : Nat}
    (h : (i.inUnits (grid - finer)).nearest?.isSome = true) :
    (i.inUnits (i.search grid (finer + 1)).2).contains (i.search grid (finer + 1)).1 = true := by
  induction finer generalizing grid with
  | zero =>
      rw [Int.natCast_zero, sub_zero] at h
      obtain ⟨n, hn⟩ := Option.isSome_iff_exists.mp h
      unfold search
      rw [hn]
      exact contains_of_nearest? hn
  | succ finer ih =>
      unfold search
      cases hnearest : (i.inUnits grid).nearest? with
      | some n => exact contains_of_nearest? hnearest
      | none =>
          apply ih
          have hgrid : grid - 1 - (finer : Int) = grid - ((finer + 1 : Nat) : Int) := by
            push_cast
            ring
          rwa [hgrid]

/-! ### The first digit -/

theorem ten_pow_le_two_pow : 10 ^ 30102 ≤ 2 ^ 100000 := by decide +kernel

theorem two_pow_le_ten_pow : 2 ^ 100000 ≤ 10 ^ 30103 := by decide +kernel

/-- A bound on powers, of which the steps between `10 ^ p` and `2 ^ q` are taken `n` times. -/
theorem ten_zpow_le_two_zpow_of_le {p p' q : Nat} (hlow : 10 ^ p ≤ 2 ^ q) (hhigh : 2 ^ q ≤ 10 ^ p')
    (twos : Int) :
    (10 : ℚ) ^ (twos * (if twos < 0 then (p' : Int) else p) - p') ≤ (2 ^ (twos - 1)) ^ q := by
  have hlow' : (10 : ℚ) ^ p ≤ 2 ^ q := by exact_mod_cast hlow
  have hhigh' : (2 : ℚ) ^ q ≤ 10 ^ p' := by exact_mod_cast hhigh
  have htwos : ((2 : ℚ) ^ (twos - 1)) ^ q = (2 ^ q) ^ twos / 2 ^ q := by
    rw [← zpow_natCast, ← zpow_mul, sub_mul, one_mul, zpow_sub₀ two_ne_zero, mul_comm, zpow_mul,
      zpow_natCast]
  have hpow : (10 : ℚ) ^ (twos * (if twos < 0 then (p' : Int) else p)) ≤ (2 ^ q) ^ twos := by
    split
    · next hneg =>
        obtain ⟨n, hn⟩ := Int.exists_eq_neg_ofNat hneg.le
        rw [mul_comm, zpow_mul, zpow_natCast, hn, zpow_neg, zpow_neg, zpow_natCast, zpow_natCast]
        exact inv_anti₀ (by positivity) (pow_le_pow_left₀ (by positivity) hhigh' n)
    · next hpos =>
        obtain ⟨n, rfl⟩ := Int.eq_ofNat_of_zero_le (not_lt.mp hpos)
        rw [mul_comm, zpow_mul, zpow_natCast, zpow_natCast, zpow_natCast]
        exact pow_le_pow_left₀ (by positivity) hlow' n
  calc (10 : ℚ) ^ (twos * (if twos < 0 then (p' : Int) else p) - p')
      = 10 ^ (twos * (if twos < 0 then (p' : Int) else p)) / 10 ^ p' := by
        rw [zpow_sub₀ (by norm_num), zpow_natCast]
    _ ≤ (2 ^ q) ^ twos / 10 ^ p' := by gcongr
    _ ≤ (2 ^ q) ^ twos / 2 ^ q := by gcongr
    _ = (2 ^ (twos - 1)) ^ q := htwos.symm

/-- The estimate of the power of ten in a power of two is never too high. -/
theorem ten_zpow_le_two_zpow (twos : Int) :
    (10 : ℚ) ^ ((twos * (if twos < 0 then 30104 else 30102) - 30103) / 100000) ≤
      2 ^ (twos - 1) := by
  generalize hestimate : (twos * (if twos < 0 then 30104 else 30102) - 30103) / 100000 = estimate
  have hle : estimate * (100000 : Nat) ≤
      twos * (if twos < 0 then ((30103 : Nat) : Int) else (30102 : Nat)) - (30103 : Nat) := by
    split at hestimate <;> split <;> omega
  apply (pow_le_pow_iff_left₀ (by positivity) (by positivity) (n := 100000) (by decide)).mp
  calc ((10 : ℚ) ^ estimate) ^ 100000 = 10 ^ (estimate * (100000 : Nat)) := by
        rw [zpow_mul, zpow_natCast]
    _ ≤ 10 ^ (twos * (if twos < 0 then ((30103 : Nat) : Int) else (30102 : Nat)) - (30103 : Nat)) :=
        zpow_le_zpow_right₀ (by norm_num) hle
    _ ≤ (2 ^ (twos - 1)) ^ 100000 :=
        ten_zpow_le_two_zpow_of_le ten_pow_le_two_pow two_pow_le_ten_pow twos

theorem den_le_value_iff {grid : Int} :
    (i.inUnits grid).den ≤ (i.inUnits grid).value ↔ (i.den : ℚ) * 10 ^ grid ≤ i.value := by
  have hpos : (0 : ℚ) < 10 ^ (-grid).toNat := by positivity
  rw [inUnits_eq, zpow_eq_div (by norm_num), ← mul_div_assoc, div_le_iff₀ hpos]
  dsimp only
  norm_cast

theorem den_le_value_decade (hvalue : 0 < i.value) :
    (i.inUnits i.decade).den ≤ (i.inUnits i.decade).value := by
  have htwos := ten_zpow_le_two_zpow ((i.value.log2 : Int) - i.den.log2)
  unfold decade
  dsimp only
  generalize (_ : Int) / 100000 = estimate at htwos ⊢
  split
  · next hreaches => exact of_decide_eq_true hreaches
  · split
    · next hreaches => exact of_decide_eq_true hreaches
    · have hvalueLog : (2 : ℚ) ^ i.value.log2 ≤ i.value := by
        exact_mod_cast Nat.log2_self_le hvalue.ne'
      have hdenLog : (i.den : ℚ) ≤ 2 ^ (i.den.log2 + 1) := by
        exact_mod_cast (Nat.lt_log2_self (n := i.den)).le
      rw [den_le_value_iff]
      calc (i.den : ℚ) * 10 ^ estimate
          ≤ 2 ^ (i.den.log2 + 1) * 2 ^ ((i.value.log2 : Int) - i.den.log2 - 1) :=
            mul_le_mul hdenLog htwos (by positivity) (by positivity)
        _ = 2 ^ i.value.log2 := by
            rw [← zpow_natCast, ← zpow_natCast, ← zpow_add₀ two_ne_zero]
            congr 1
            push_cast
            ring
        _ ≤ i.value := hvalueLog

/-- Sixteen places behind the first digit the units are small enough. -/
theorem low_add_den_lt_high {grid : Int} (hden : (i.inUnits grid).den ≤ (i.inUnits grid).value)
    (hwidth : i.value < 10 ^ 16 * (i.high - i.low)) :
    (i.inUnits (grid - 16)).low + (i.inUnits (grid - 16)).den < (i.inUnits (grid - 16)).high := by
  have hscale : 10 ^ (-(grid - 16)).toNat * 10 ^ grid.toNat =
      10 ^ (-grid).toNat * 10 ^ (grid - 16).toNat * 10 ^ 16 := by
    rw [← Nat.pow_add, ← Nat.pow_add, ← Nat.pow_add]
    congr 1
    omega
  have hle : i.low ≤ i.high := by omega
  obtain ⟨width, hwidthEq⟩ := Nat.exists_eq_add_of_le hle
  rw [hwidthEq, Nat.add_sub_cancel_left] at hwidth
  simp only [inUnits_eq] at hden ⊢
  generalize 10 ^ (-(grid - 16)).toNat = down' at *
  generalize hdown : 10 ^ (-grid).toNat = down at *
  generalize hup : 10 ^ grid.toNat = up at *
  generalize hup' : 10 ^ (grid - 16).toNat = up' at *
  have hpos : 0 < down * up' := by
    subst hdown hup'
    positivity
  have hunit : i.den * up' < width * down' := by
    apply Nat.lt_of_mul_lt_mul_right (a := up)
    calc i.den * up' * up = i.den * up * up' := by ring
      _ ≤ i.value * down * up' := Nat.mul_le_mul_right up' hden
      _ = i.value * (down * up') := Nat.mul_assoc _ _ _
      _ < 10 ^ 16 * width * (down * up') := Nat.mul_lt_mul_of_pos_right hwidth hpos
      _ = width * (down' * up) := by rw [hscale]; ring
      _ = width * down' * up := (Nat.mul_assoc _ _ _).symm
  rw [hwidthEq, Nat.add_mul]
  exact Nat.add_lt_add_left hunit _

end Neighbourhood

open Neighbourhood

theorem contains_dropZeros {i : Neighbourhood} (hden : 0 < i.den) (exponent : Int)
    (steps digits : Nat) :
    (i.inUnits (dropZeros exponent steps digits).2).contains (dropZeros exponent steps digits).1 =
      (i.inUnits exponent).contains digits := by
  induction steps generalizing exponent digits with
  | zero => rfl
  | succ steps ih =>
      unfold dropZeros
      split
      · next hzero =>
          have hmod : digits % 10 = 0 := by
            rw [Bool.and_eq_true, beq_iff_eq] at hzero
            exact hzero.1
          rw [ih, contains_inUnits_add_one hden, Nat.mul_div_cancel' (Nat.dvd_of_mod_eq_zero hmod)]
      · rfl

/-- **The shortest decimal lies in the neighbourhood**, if that is wide enough for its digits. -/
theorem contains_shortest {i : Neighbourhood} (hden : 0 < i.den) (hlow : i.low < i.value)
    (hhigh : i.value < i.high) (hwidth : i.value < 10 ^ 16 * (i.high - i.low)) :
    (i.inUnits (shortest i).2).contains (shortest i).1 = true := by
  have hdecade := den_le_value_decade (Nat.zero_lt_of_lt hlow)
  have hnearest : (i.inUnits (i.decade - (16 : Nat))).nearest?.isSome = true := by
    have hwide := low_add_den_lt_high hdecade hwidth
    have hdown : 0 < 10 ^ (-(i.decade - 16)).toNat := by positivity
    have hup : 0 < 10 ^ (i.decade - 16).toNat := by positivity
    simp only [inUnits_eq] at hwide
    rw [inUnits_eq]
    exact isSome_nearest? (Nat.mul_pos hden hup) (Nat.mul_lt_mul_of_pos_right hlow hdown)
      (Nat.mul_lt_mul_of_pos_right hhigh hdown) hwide
  unfold shortest
  dsimp only
  rw [contains_dropZeros hden]
  exact contains_search hnearest

end Univariate.Numeral
