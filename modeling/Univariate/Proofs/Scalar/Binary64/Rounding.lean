import Univariate.Proofs.Scalar.Binary64.Order

/-!
# Rounding in double precision

Every finite value is a whole number of units, the smallest positive value being one. Sums and
differences are exact in units and then rounded, and rounding is monotone and keeps what needs no
rounding.
-/

open Float.Model Float.Model.UnpackedFloat

namespace Univariate.Binary64

/-! ### Bits shifted out -/

/-- Where a fraction is, as the round bit and the sticky bit tell: on the mantissa, below, on or above
the middle to the next one. -/
def Represents (em : ExtendedMantissa) (num den : Nat) : Prop :=
  match em.roundBit, em.stickyBit with
  | false, false => 2 * num = 2 * em.mantissa * den
  | false, true => 2 * em.mantissa * den < 2 * num ∧ 2 * num < (2 * em.mantissa + 1) * den
  | true, false => 2 * num = (2 * em.mantissa + 1) * den
  | true, true => (2 * em.mantissa + 1) * den < 2 * num ∧ 2 * num < (2 * em.mantissa + 2) * den

namespace Represents

variable {em : ExtendedMantissa} {num den : Nat}

theorem shiftRightOne (h : Represents em num den) (hpos : 0 < den) :
    Represents em.shiftRightOne num (den * 2) := by
  obtain ⟨q, r, s⟩ := em
  obtain ⟨half, bit, hbit, rfl⟩ : ∃ half bit, bit < 2 ∧ q = 2 * half + bit :=
    ⟨q / 2, q % 2, Nat.mod_lt q (by decide), (Nat.div_add_mod q 2).symm⟩
  have hdiv : (2 * half + bit) / 2 = half := by omega
  have hmod : (2 * half + bit) % 2 = bit := by omega
  unfold Represents ExtendedMantissa.shiftRightOne at *
  simp only [hdiv, hmod]
  interval_cases bit <;> cases r <;> cases s <;> simp at h ⊢ <;>
    first | linarith | (constructor <;> linarith)

theorem shiftRight (h : Represents em num den) (hpos : 0 < den) (n : Nat) :
    Represents (em >>> n) num (den * 2 ^ n) := by
  change Represents (Nat.repeat ExtendedMantissa.shiftRightOne n _) num _
  induction n with
  | zero => rwa [Nat.pow_zero, Nat.mul_one]
  | succ n ih =>
      rw [Nat.pow_succ, ← Nat.mul_assoc]
      exact ih.shiftRightOne (Nat.mul_pos hpos (Nat.two_pow_pos n))

/-- The four places between two mantissas, and what is rounded to from there. -/
theorem cases (h : Represents em num den) :
    (2 * num = 2 * em.mantissa * den ∧ em.roundedMantissa = em.mantissa) ∨
      (2 * em.mantissa * den < 2 * num ∧ 2 * num < 2 * em.mantissa * den + den ∧
        em.roundedMantissa = em.mantissa) ∨
      (2 * num = 2 * em.mantissa * den + den ∧
        em.roundedMantissa = em.mantissa + em.mantissa % 2) ∨
      (2 * em.mantissa * den + den < 2 * num ∧ 2 * num < 2 * em.mantissa * den + 2 * den ∧
        em.roundedMantissa = em.mantissa + 1) := by
  obtain ⟨q, r, s⟩ := em
  cases r with
  | false =>
      cases s with
      | false => exact .inl ⟨h, rfl⟩
      | true =>
          change 2 * q * den < 2 * num ∧ 2 * num < (2 * q + 1) * den at h
          rw [Nat.add_mul, Nat.one_mul] at h
          exact .inr (.inl ⟨h.1, h.2, rfl⟩)
  | true =>
      cases s with
      | false =>
          change 2 * num = (2 * q + 1) * den at h
          rw [Nat.add_mul, Nat.one_mul] at h
          exact .inr (.inr (.inl ⟨h, rfl⟩))
      | true =>
          change (2 * q + 1) * den < 2 * num ∧ 2 * num < (2 * q + 2) * den at h
          rw [Nat.add_mul, Nat.add_mul, Nat.one_mul] at h
          exact .inr (.inr (.inr ⟨h.1, h.2, rfl⟩))

/-- The rounded mantissa is at most a half away. -/
theorem rounded (h : Represents em num den) :
    2 * em.roundedMantissa * den ≤ 2 * num + den ∧
      2 * num ≤ 2 * em.roundedMantissa * den + den := by
  rcases h.cases with ⟨h, hr⟩ | ⟨hlt, hgt, hr⟩ | ⟨h, hr⟩ | ⟨hlt, hgt, hr⟩
  · rw [hr]
    omega
  · rw [hr]
    omega
  · have hparity := Nat.mod_two_eq_zero_or_one em.mantissa
    rw [hr]
    rcases hparity with hparity | hparity <;> rw [hparity, Nat.mul_add, Nat.add_mul] <;> omega
  · rw [hr, Nat.mul_add, Nat.add_mul]
    omega

theorem even_of_tie (h : Represents em num den) (hpos : 0 < den)
    (htie : 2 * num = 2 * em.roundedMantissa * den + den ∨
      2 * em.roundedMantissa * den = 2 * num + den) : em.roundedMantissa % 2 = 0 := by
  rcases h.cases with ⟨h, hr⟩ | ⟨hlt, hgt, hr⟩ | ⟨h, hr⟩ | ⟨hlt, hgt, hr⟩
  · rw [hr] at htie
    omega
  · rw [hr] at htie
    omega
  · omega
  · rw [hr, Nat.mul_add, Nat.add_mul] at htie
    omega

/-- A mantissa that is nearest is the rounded one, unless it is odd and there is another. -/
theorem roundedMantissa_eq (h : Represents em num den) (hpos : 0 < den) {m : Nat}
    (hlower : 2 * m * den ≤ 2 * num + den) (hupper : 2 * num ≤ 2 * m * den + den)
    (hodd : m % 2 = 1 → 2 * m * den < 2 * num + den ∧ 2 * num < 2 * m * den + den) :
    em.roundedMantissa = m := by
  obtain ⟨hlower', hupper'⟩ := h.rounded
  have heven := h.even_of_tie hpos
  generalize em.roundedMantissa = r at *
  have hstep : ∀ a b : Nat, a < b → 2 * a * den + 2 * den ≤ 2 * b * den := by
    intro a b hab
    calc 2 * a * den + 2 * den = 2 * (a + 1) * den := by ring
      _ ≤ 2 * b * den := Nat.mul_le_mul_right den (by omega)
  have hnext : ∀ a b : Nat, 2 * b * den ≤ 2 * a * den + 2 * den → b ≤ a + 1 := by
    intro a b hab
    have hle : 2 * b * den ≤ 2 * (a + 1) * den := hab.trans_eq (by ring)
    have hfactor := Nat.le_of_mul_le_mul_right hle hpos
    omega
  rcases Nat.lt_trichotomy r m with hlt | heq | hgt
  · have hm := hnext r m (by omega)
    have htie := hstep r m hlt
    have hr := heven (.inl (by omega))
    have hstrict := hodd (by omega)
    omega
  · exact heq
  · have hr := hnext m r (by omega)
    have htie := hstep m r hgt
    have hr := heven (.inr (by omega))
    have hstrict := hodd (by omega)
    omega

/-- The mantissa is the whole part of the fraction. -/
theorem floor (h : Represents em num den) (hpos : 0 < den) :
    em.mantissa * den ≤ num ∧ num < (em.mantissa + 1) * den := by
  have hcases := h.cases
  rw [Nat.mul_assoc] at hcases
  rw [Nat.add_mul]
  omega

end Represents

theorem represents_shiftRight (m n : Nat) :
    Represents (ExtendedMantissa.mk m false false >>> n) m (2 ^ n) := by
  have h : Represents (ExtendedMantissa.mk m false false) m 1 := (Nat.mul_one (2 * m)).symm
  have hshift := h.shiftRight Nat.one_pos n
  rwa [Nat.one_mul] at hshift

/-- The nearest multiple of a power of two, as its quotient. -/
def nearest (m n : Nat) : Nat := (ExtendedMantissa.mk m false false >>> n).roundedMantissa

theorem nearest_bounds (m n : Nat) :
    2 * nearest m n * 2 ^ n ≤ 2 * m + 2 ^ n ∧ 2 * m ≤ 2 * nearest m n * 2 ^ n + 2 ^ n :=
  (represents_shiftRight m n).rounded

theorem nearest_le_nearest {m m' : Nat} (n : Nat) (h : m ≤ m') : nearest m n ≤ nearest m' n := by
  rcases h.lt_or_eq with hlt | rfl
  · by_contra hgt
    have hlower := (nearest_bounds m n).1
    have hupper := (nearest_bounds m' n).2
    have hstep : 2 * (nearest m' n + 1) * 2 ^ n ≤ 2 * nearest m n * 2 ^ n :=
      Nat.mul_le_mul_right _ (by omega)
    rw [Nat.mul_add, Nat.add_mul] at hstep
    omega
  · exact Nat.le_refl _

theorem nearest_zero (m : Nat) : nearest m 0 = m := rfl

theorem shiftRight_add (em : ExtendedMantissa) (j n : Nat) : em >>> (j + n) = (em >>> j) >>> n := by
  change Nat.repeat _ _ _ = Nat.repeat _ _ (Nat.repeat _ _ _)
  induction n with
  | zero => rfl
  | succ n ih => exact congrArg ExtendedMantissa.shiftRightOne ih

theorem nearest_mul_two_pow (m j n : Nat) : nearest (m * 2 ^ j) (j + n) = nearest m n := by
  unfold nearest
  rw [shiftRight_add, shiftRight_exact]

theorem nearest_exact (m n : Nat) : nearest (m * 2 ^ n) n = m := by
  have h := nearest_mul_two_pow m n 0
  rwa [Nat.add_zero, nearest_zero] at h

/-! ### Units -/

/-- How many low bits of a size do not fit the mantissa. -/
def excess (units : Nat) : Nat := units.log2 - 52

/-- The rank of the value nearest to a size. -/
def roundedRank (units : Nat) : Nat :=
  min (excess units * 2 ^ 52 + nearest units (excess units)) infinityRank

theorem nearest_excess_le (units : Nat) : nearest units (excess units) ≤ 2 ^ 53 := by
  have hupper : units < 2 ^ (units.log2 + 1) := Nat.lt_log2_self
  have hle : units.log2 + 1 ≤ 53 + excess units := by
    unfold excess
    omega
  have hunits : units < 2 ^ 53 * 2 ^ excess units := by
    rw [← Nat.pow_add]
    exact hupper.trans_le (Nat.pow_le_pow_right (by decide) hle)
  have hnearest := (nearest_bounds units (excess units)).1
  by_contra hgt
  have hstep : 2 * (2 ^ 53 + 1) * 2 ^ excess units ≤
      2 * nearest units (excess units) * 2 ^ excess units := Nat.mul_le_mul_right _ (by omega)
  rw [Nat.mul_add, Nat.add_mul] at hstep
  omega

theorem le_nearest_excess {units : Nat} (h : 0 < excess units) :
    2 ^ 52 ≤ nearest units (excess units) := by
  have hlog : units.log2 = 52 + excess units := by
    unfold excess at h ⊢
    omega
  have hne : units ≠ 0 := by
    rintro rfl
    exact absurd h (by decide)
  have hlower : 2 ^ units.log2 ≤ units := Nat.log2_self_le hne
  rw [hlog, Nat.pow_add] at hlower
  have hpos : 0 < 2 ^ excess units := Nat.two_pow_pos _
  have hnearest := (nearest_bounds units (excess units)).2
  by_contra hlt
  have hstep : 2 * (nearest units (excess units) + 1) * 2 ^ excess units ≤
      2 * 2 ^ 52 * 2 ^ excess units := Nat.mul_le_mul_right _ (by omega)
  rw [Nat.mul_add, Nat.add_mul] at hstep
  omega

theorem excess_le_excess {m n : Nat} (h : m ≤ n) : excess m ≤ excess n := by
  have hlog : m.log2 ≤ n.log2 := by
    rcases Nat.eq_zero_or_pos m with rfl | hm
    · exact Nat.zero_le _
    · exact (Nat.le_log2 (by omega)).mpr ((Nat.log2_self_le hm.ne').trans h)
  exact Nat.sub_le_sub_right hlog 52

/-- **Rounding is monotone.** Sizes with different exponents are apart by a power of two that both
are rounded to their side of. -/
theorem roundedRank_le_roundedRank {m n : Nat} (h : m ≤ n) : roundedRank m ≤ roundedRank n := by
  have hrank : excess m * 2 ^ 52 + nearest m (excess m) ≤
      excess n * 2 ^ 52 + nearest n (excess n) := by
    rcases (excess_le_excess h).lt_or_eq with hlt | heq
    · have hupper := nearest_excess_le m
      have hlower : 2 ^ 52 ≤ nearest n (excess n) := le_nearest_excess (by omega)
      omega
    · have hnearest := nearest_le_nearest (excess n) h
      rw [heq]
      omega
  exact min_le_min_right _ hrank

theorem excess_mul_two_pow {m : Nat} (hm : m ≠ 0) (j : Nat) :
    excess (m * 2 ^ j) = m.log2 + j - 52 := by
  unfold excess
  rw [log2_mul_two_pow hm]

theorem targetExponent_eq {m : Nat} (hm : m ≠ 0) (j : Nat) :
    Format.binary64.targetExponent (totalExponent m (j - 1074)) = excess (m * 2 ^ j) - 1074 := by
  rw [excess_mul_two_pow hm]
  change max ((m.log2 : Int) + 1 + (j - 1074) - (53 : Nat)) (-1074) = _
  omega

theorem shiftToTargetExponent_eq {m j : Nat} (hm : m ≠ 0) (hj : j ≤ excess (m * 2 ^ j)) :
    shiftToTargetExponent Format.binary64 m (j - 1074) .exact =
      (ExtendedMantissa.mk m false false >>> (excess (m * 2 ^ j) - j),
        (excess (m * 2 ^ j) : Int) - 1074) := by
  have hamount : ((excess (m * 2 ^ j) : Int) - 1074 - (j - 1074)).toNat =
      excess (m * 2 ^ j) - j := by omega
  unfold shiftToTargetExponent shiftToExponent
  dsimp only
  rw [targetExponent_eq hm, hamount]
  exact congrArg _ (by omega)

/-- A mantissa that was rounded up to a power of two loses a bit, and keeps its rank. -/
theorem shiftToTargetExponent_carry {r k : Nat} (hpos : 0 < r) (hle : r ≤ 2 ^ 53)
    (hge : 0 < k → 2 ^ 52 ≤ r) :
    ∃ m l : Nat, shiftToTargetExponent Format.binary64 r (k - 1074) .exact =
        (⟨m, false, false⟩, (l : Int) - 1074) ∧
      0 < m ∧ (m.log2 = 52 ∨ m.log2 < 52 ∧ l = 0) ∧ l * 2 ^ 52 + m = k * 2 ^ 52 + r := by
  have hexcess := excess_mul_two_pow hpos.ne' k
  rcases hle.lt_or_eq with hlt | rfl
  · have hlog : r.log2 ≤ 52 := Nat.le_of_lt_succ ((Nat.log2_lt hpos.ne').mpr hlt)
    have hlog' : 0 < k → r.log2 = 52 := by
      intro hk
      exact hlog.antisymm ((Nat.le_log2 hpos.ne').mpr (hge hk))
    have hk : excess (r * 2 ^ k) = k := by omega
    refine ⟨r, k, ?_, hpos, by omega, rfl⟩
    rw [shiftToTargetExponent_eq hpos.ne' (by omega), hk, Nat.sub_self]
    rfl
  · have hk : excess (2 ^ 53 * 2 ^ k) = k + 1 := by
      rw [hexcess, Nat.log2_two_pow]
      omega
    refine ⟨2 ^ 52, k + 1, ?_, by decide, .inl Nat.log2_two_pow, by omega⟩
    rw [shiftToTargetExponent_eq hpos.ne' (by omega), hk, Nat.add_sub_cancel_left]
    rfl

/-- The rank after rounding, if the first shift leads to a mantissa that fits. -/
theorem roundWithAccuracy_of_shift (s : Sign) {m l : Nat} {e : Int} {a : Accuracy}
    {em : ExtendedMantissa}
    (hshift : shiftToTargetExponent Format.binary64 m e a = (em, (l : Int) - 1074))
    (hpos : 0 < em.roundedMantissa) (hle : em.roundedMantissa ≤ 2 ^ 53)
    (hge : 0 < l → 2 ^ 52 ≤ em.roundedMantissa) :
    Canonical (roundWithAccuracy Format.binary64 s m e a) ∧
      sign (roundWithAccuracy Format.binary64 s m e a) = s ∧
      rank (roundWithAccuracy Format.binary64 s m e a) =
        min (l * 2 ^ 52 + em.roundedMantissa) infinityRank := by
  obtain ⟨m', l', hcarry, hm', hcanonical, hrank⟩ := shiftToTargetExponent_carry hpos hle hge
  have hresult : roundWithAccuracy Format.binary64 s m e a = .finite s m' (l' - 1074) hm' := by
    unfold roundWithAccuracy
    rw [hshift]
    dsimp only
    rw [hcarry]
    exact dif_neg hm'.ne'
  have hexponent : ((l' : Int) - 1074 + 1074).toNat = l' := by omega
  rw [hresult]
  refine ⟨?_, rfl, ?_⟩
  · change (m'.log2 = 52 ∧ -1074 ≤ (l' : Int) - 1074) ∨ (m'.log2 < 52 ∧ (l' : Int) - 1074 = -1074)
    omega
  · rw [rank_finite, hexponent, hrank]
    rfl

/-- **Rounding, as it is done.** The bits that do not fit are shifted out. -/
theorem roundWithAccuracy_units (s : Sign) {m j : Nat} (hm : 0 < m) (hj : j ≤ excess (m * 2 ^ j)) :
    Canonical (roundWithAccuracy Format.binary64 s m (j - 1074) .exact) ∧
      sign (roundWithAccuracy Format.binary64 s m (j - 1074) .exact) = s ∧
      rank (roundWithAccuracy Format.binary64 s m (j - 1074) .exact) = roundedRank (m * 2 ^ j) := by
  have hnearest : (ExtendedMantissa.mk m false false >>> (excess (m * 2 ^ j) - j)).roundedMantissa =
      nearest (m * 2 ^ j) (excess (m * 2 ^ j)) := by
    have h := nearest_mul_two_pow m j (excess (m * 2 ^ j) - j)
    rw [Nat.add_sub_cancel' hj] at h
    exact h.symm
  have hpositive : 0 < nearest (m * 2 ^ j) (excess (m * 2 ^ j)) := by
    rcases Nat.eq_zero_or_pos (excess (m * 2 ^ j)) with hzero | hpos
    · rw [hzero, nearest_zero]
      positivity
    · exact lt_of_lt_of_le (by decide) (le_nearest_excess hpos)
  have h := roundWithAccuracy_of_shift s (shiftToTargetExponent_eq hm.ne' hj)
  rw [hnearest] at h
  exact h hpositive (nearest_excess_le _) le_nearest_excess

theorem round_units (s : Sign) {m j : Nat} (hm : 0 < m) :
    Canonical (UnpackedFloat.round Format.binary64 s m (j - 1074)) ∧
      sign (UnpackedFloat.round Format.binary64 s m (j - 1074)) = s ∧
      rank (UnpackedFloat.round Format.binary64 s m (j - 1074)) = roundedRank (m * 2 ^ j) := by
  unfold UnpackedFloat.round decreaseExponent
  dsimp only
  rw [targetExponent_eq hm.ne']
  rcases Nat.lt_or_ge (excess (m * 2 ^ j)) j with hlt | hge
  · have hamount : ((j : Int) - 1074 - (excess (m * 2 ^ j) - 1074)).toNat =
        j - excess (m * 2 ^ j) := by omega
    have hexponent : (j : Int) - 1074 - ((j - excess (m * 2 ^ j) : Nat) : Int) =
        excess (m * 2 ^ j) - 1074 := by omega
    have hunits : m * 2 ^ (j - excess (m * 2 ^ j)) * 2 ^ excess (m * 2 ^ j) = m * 2 ^ j := by
      rw [Nat.mul_assoc, ← Nat.pow_add, Nat.sub_add_cancel hlt.le]
    rw [hamount, hexponent, Nat.shiftLeft_eq, ← hunits]
    have h := roundWithAccuracy_units s (m := m * 2 ^ (j - excess (m * 2 ^ j)))
      (j := excess (m * 2 ^ j)) (by positivity) (by rw [hunits])
    rwa [hunits] at h ⊢
  · have hamount : ((j : Int) - 1074 - (excess (m * 2 ^ j) - 1074)).toNat = 0 := by omega
    rw [hamount, Nat.shiftLeft_zero, Int.natCast_zero, Int.sub_zero]
    exact roundWithAccuracy_units s hm hge

/-! ### Sums -/

/-- The size of a finite value in units. -/
def size : UnpackedFloat → Nat
  | .finite _ m e _ => m * 2 ^ (e + 1074).toNat
  | _ => 0

/-- A finite value in units. -/
def units (u : UnpackedFloat) : Int := (sign u).apply (size u)

theorem units_zero (s : Sign) : units (.zero s) = 0 := by cases s <;> rfl

/-- The key of the value nearest to so many units. -/
def roundedKey (z : Int) : Int := z.sign * roundedRank z.natAbs

theorem roundedKey_natCast (n : Nat) : roundedKey n = roundedRank n := by
  unfold roundedKey
  rw [Int.natAbs_natCast]
  rcases Nat.eq_zero_or_pos n with rfl | hn
  · rfl
  · rw [Int.sign_eq_one_of_pos (by omega), one_mul]

@[simp]
theorem roundedKey_neg (z : Int) : roundedKey (-z) = -roundedKey z := by
  unfold roundedKey
  rw [Int.sign_neg, Int.natAbs_neg, neg_mul]

theorem roundedKey_le_roundedKey {y z : Int} (h : y ≤ z) : roundedKey y ≤ roundedKey z := by
  have hnonneg : ∀ n : Nat, 0 ≤ roundedKey n := fun n => by
    rw [roundedKey_natCast]
    exact Int.natCast_nonneg _
  obtain ⟨m, rfl | rfl⟩ := Int.eq_nat_or_neg y
  · obtain ⟨n, rfl⟩ := Int.eq_ofNat_of_zero_le ((Int.natCast_nonneg m).trans h)
    rw [roundedKey_natCast, roundedKey_natCast]
    exact_mod_cast roundedRank_le_roundedRank (by exact_mod_cast h)
  · obtain ⟨n, rfl | rfl⟩ := Int.eq_nat_or_neg z
    · rw [roundedKey_neg]
      exact (neg_nonpos.mpr (hnonneg m)).trans (hnonneg n)
    · rw [roundedKey_neg, roundedKey_neg, roundedKey_natCast, roundedKey_natCast]
      exact neg_le_neg (by exact_mod_cast roundedRank_le_roundedRank (by omega))

/-- What needs no rounding is kept. -/
theorem roundedRank_size {u : UnpackedFloat} (h : Canonical u) (hfinite : u.isFinite = true) :
    roundedRank (size u) = rank u := by
  cases u with
  | notANumber => exact Bool.noConfusion hfinite
  | infinity s => exact Bool.noConfusion hfinite
  | zero s =>
      have hexcess : excess 0 = 0 := rfl
      change roundedRank 0 = 0
      unfold roundedRank
      rw [hexcess, nearest_zero]
      exact Nat.zero_min infinityRank
  | finite s m e hm =>
      have hexcess : excess (m * 2 ^ (e + 1074).toNat) = (e + 1074).toNat := by
        rw [excess_mul_two_pow hm.ne']
        rcases h with ⟨hlog, he⟩ | ⟨hlog, rfl⟩
        · omega
        · change m.log2 + 0 - 52 = 0
          omega
      change roundedRank (m * 2 ^ (e + 1074).toNat) = _
      unfold roundedRank
      rw [hexcess, nearest_exact]
      rfl

theorem roundedKey_units {u : UnpackedFloat} (h : Canonical u) (hfinite : u.isFinite = true) :
    roundedKey (units u) = key u := by
  unfold units key
  rw [← roundedRank_size h hfinite]
  cases sign u with
  | positive => exact roundedKey_natCast _
  | negative =>
      rw [apply_negative, apply_negative, roundedKey_neg, roundedKey_natCast]

theorem normalize_units (z : Int) (j : Nat) (t : Sign) :
    Canonical (UnpackedFloat.normalize Format.binary64 z (j - 1074) t) ∧
      key (UnpackedFloat.normalize Format.binary64 z (j - 1074) t) = roundedKey (z * 2 ^ j) := by
  unfold UnpackedFloat.normalize key
  rcases lt_trichotomy z 0 with hneg | rfl | hpos
  · obtain ⟨m, rfl⟩ : ∃ m : Nat, z = -(m : Int) := ⟨z.natAbs, by omega⟩
    obtain ⟨hcanonical, hsign, hrank⟩ := round_units .negative (m := m) (j := j) (by omega)
    rw [compare_lt_iff_lt.mpr hneg]
    simp only [neg_neg, Int.toNat_natCast]
    refine ⟨hcanonical, ?_⟩
    rw [hsign, hrank, apply_negative, neg_mul, roundedKey_neg]
    exact congrArg _ (roundedKey_natCast _).symm
  · rw [compare_eq_iff_eq.mpr rfl, zero_mul]
    exact ⟨trivial, key_zero t⟩
  · obtain ⟨m, rfl⟩ := Int.eq_ofNat_of_zero_le hpos.le
    obtain ⟨hcanonical, hsign, hrank⟩ := round_units .positive (m := m) (j := j) (by omega)
    rw [compare_gt_iff_gt.mpr hpos]
    simp only [Int.toNat_natCast]
    refine ⟨hcanonical, ?_⟩
    rw [hsign, hrank, apply_positive]
    exact (roundedKey_natCast _).symm

theorem apply_shiftLeft_mul (s : Sign) (m : Nat) {a j k : Nat} (h : k = a + j) :
    s.apply (m <<< a : Nat) * 2 ^ j = s.apply (m * 2 ^ k : Nat) := by
  subst h
  rw [Nat.shiftLeft_eq]
  push_cast
  cases s with
  | positive =>
      rw [apply_positive, apply_positive]
      ring
  | negative =>
      rw [apply_negative, apply_negative]
      ring

/-- **Sums are rounded once.** -/
theorem add_units {u v : UnpackedFloat} (hu : Canonical u) (hv : Canonical v)
    (hu' : u.isFinite = true) (hv' : v.isFinite = true) :
    Canonical (UnpackedFloat.add Format.binary64 u v) ∧
      key (UnpackedFloat.add Format.binary64 u v) = roundedKey (units u + units v) := by
  cases u with
  | notANumber => exact Bool.noConfusion hu'
  | infinity s => exact Bool.noConfusion hu'
  | zero s =>
      cases v with
      | notANumber => exact Bool.noConfusion hv'
      | infinity t => exact Bool.noConfusion hv'
      | zero t => cases s <;> cases t <;> exact ⟨trivial, rfl⟩
      | finite t n f hn =>
          refine ⟨hv, ?_⟩
          rw [units_zero, zero_add, roundedKey_units hv rfl]
          rfl
  | finite s m e hm =>
      cases v with
      | notANumber => exact Bool.noConfusion hv'
      | infinity t => exact Bool.noConfusion hv'
      | zero t =>
          refine ⟨hu, ?_⟩
          rw [units_zero, add_zero, roundedKey_units hu rfl]
          rfl
      | finite t n f hn =>
          have he := (canonical_bounds hu).1
          have hf := (canonical_bounds hv).1
          obtain ⟨j, hj⟩ : ∃ j : Nat, min e f = j - 1074 := ⟨(min e f + 1074).toNat, by omega⟩
          have hadd : UnpackedFloat.add Format.binary64 (.finite s m e hm) (.finite t n f hn) =
              UnpackedFloat.normalize Format.binary64
                (s.apply (m <<< (e - min e f).toNat : Nat) + t.apply (n <<< (f - min e f).toNat : Nat))
                (min e f) .positive := rfl
          rw [hadd, hj]
          obtain ⟨hcanonical, hkey⟩ := normalize_units
            (s.apply (m <<< (e - (j - 1074)).toNat : Nat) +
              t.apply (n <<< (f - (j - 1074)).toNat : Nat)) j .positive
          refine ⟨hcanonical, ?_⟩
          rw [hkey, add_mul, apply_shiftLeft_mul s m (k := (e + 1074).toNat) (by omega),
            apply_shiftLeft_mul t n (k := (f + 1074).toNat) (by omega)]
          rfl

/-- Differences are sums. -/
theorem sub_eq_add (u v : UnpackedFloat) :
    UnpackedFloat.sub Format.binary64 u v = UnpackedFloat.add Format.binary64 u v.neg := by
  have hneg : ∀ (t : Sign) (n : Int), (-t).apply n = -t.apply n := by
    rintro (_ | _) n
    · exact (neg_neg n).symm
    · rfl
  cases u with
  | notANumber => cases v <;> rfl
  | infinity s => cases v <;> rfl
  | zero s => cases v <;> rfl
  | finite s m e hm =>
      cases v with
      | finite t n f hn =>
          unfold UnpackedFloat.sub UnpackedFloat.add UnpackedFloat.neg
          simp only [hneg, sub_eq_add_neg]
      | _ => rfl

theorem Canonical.neg {u : UnpackedFloat} (h : Canonical u) : Canonical u.neg := by
  cases u <;> exact h

theorem units_neg (u : UnpackedFloat) : units u.neg = -units u := by
  cases u with
  | finite s m e hm =>
      cases s with
      | positive => rfl
      | negative => exact (neg_neg _).symm
  | infinity s => cases s <;> rfl
  | zero s => cases s <;> rfl
  | notANumber => rfl

theorem sub_units {u v : UnpackedFloat} (hu : Canonical u) (hv : Canonical v)
    (hu' : u.isFinite = true) (hv' : v.isFinite = true) :
    Canonical (UnpackedFloat.sub Format.binary64 u v) ∧
      key (UnpackedFloat.sub Format.binary64 u v) = roundedKey (units u - units v) := by
  have hneg : v.neg.isFinite = true := by cases v <;> exact hv'
  rw [sub_eq_add, sub_eq_add_neg, ← units_neg]
  exact add_units hu hv.neg hu' hneg

end Univariate.Binary64
