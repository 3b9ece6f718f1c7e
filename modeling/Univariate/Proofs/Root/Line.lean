import Mathlib.Tactic.NormNum
import Univariate.Proofs.Root.Bisection
import Univariate.Proofs.Root.Sweep

/-!
# Bisection of a line

On a line the stopping rule can be followed exactly: a bracket keeps the zero at least so far inside
that both samples are as large as the tolerance, and the search ends with a small value or with the
middle of a bracket that is no wider than the tolerance.
-/

namespace Univariate.Root

variable {E : Elementary} {f : Exact E → Exact E} {k v tolerance lo hi c : ℚ}

/-- The line of slope `k` through zero at `v`. -/
def IsLine (f : Exact E → Exact E) (k v : ℚ) : Prop :=
  ∀ x, f (.rational x) = .rational (k * (x - v))

/-- The zero lies inside, and both samples are large. -/
structure Straddles (k v tolerance lo hi : ℚ) : Prop where
  below : tolerance ≤ |k| * (v - lo)
  above : tolerance ≤ |k| * (hi - v)

/-- How close to zero the line is where bisection ends: within the tolerance, or as close as the
middle of a narrow bracket that straddles the zero. -/
def StopsAt (k v tolerance c : ℚ) : Prop :=
  |k| * |c - v| < tolerance ∨ |k| * |c - v| ≤ |k| * (tolerance / 2) - tolerance

theorem StopsAt.abs_sub_lt (h : StopsAt k v tolerance c) (htolerance : 0 < tolerance)
    (hk : k ≠ 0) : |c - v| < max tolerance (tolerance / |k|) := by
  have hslope : 0 < |k| := abs_pos.mpr hk
  rcases h with hsmall | hmiddle
  · exact lt_max_of_lt_right ((lt_div_iff₀' hslope).mpr hsmall)
  · have hhalf : |k| * |c - v| < |k| * tolerance := by
      calc |k| * |c - v| ≤ |k| * (tolerance / 2) - tolerance := hmiddle
        _ < |k| * (tolerance / 2) := sub_lt_self _ htolerance
        _ ≤ |k| * tolerance := mul_le_mul_of_nonneg_left (by linarith) hslope.le
    exact lt_max_of_lt_left (lt_of_mul_lt_mul_left hhalf hslope.le)

/-- Where bisection of a line ends: at an end with a small sample, or in the middle of a bracket. A
zero at an end is found there; at the upper one only when the sample at the lower one is large. -/
structure Lands (k v tolerance lo hi c : ℚ) : Prop where
  lower : lo ≤ c
  upper : c ≤ hi
  stops : StopsAt k v tolerance c
  place : (c = lo ∧ |k| * (v - lo) < tolerance) ∨ (c = hi ∧ |k| * (hi - v) < tolerance) ∨
    |c - v| ≤ (hi - lo) / 2
  atLo : v = lo → c = lo
  atHi : v = hi → tolerance ≤ |k| * (hi - lo) → c = hi

namespace Straddles

theorem slope_pos (h : Straddles k v tolerance lo hi) (htolerance : 0 < tolerance) : 0 < |k| := by
  rw [abs_pos]
  rintro rfl
  have hbelow := h.below
  rw [abs_zero, zero_mul] at hbelow
  exact absurd htolerance (not_lt.mpr hbelow)

theorem lt_zero (h : Straddles k v tolerance lo hi) (htolerance : 0 < tolerance) : lo < v :=
  sub_pos.mp (pos_of_mul_pos_right (htolerance.trans_le h.below) (abs_nonneg k))

theorem zero_lt (h : Straddles k v tolerance lo hi) (htolerance : 0 < tolerance) : v < hi :=
  sub_pos.mp (pos_of_mul_pos_right (htolerance.trans_le h.above) (abs_nonneg k))

theorem stopsAt_midpoint (h : Straddles k v tolerance lo hi) (hwidth : hi - lo ≤ tolerance) :
    StopsAt k v tolerance ((lo + hi) / 2) := by
  have hhalf : |k| * ((hi - lo) / 2) ≤ |k| * (tolerance / 2) :=
    mul_le_mul_of_nonneg_left (by linarith) (abs_nonneg k)
  refine .inr ?_
  rcases abs_cases ((lo + hi) / 2 - v) with ⟨hsize, -⟩ | ⟨hsize, -⟩ <;> rw [hsize]
  · calc |k| * ((lo + hi) / 2 - v) = |k| * ((hi - lo) / 2) - |k| * (v - lo) := by ring
      _ ≤ |k| * (tolerance / 2) - tolerance := sub_le_sub hhalf h.below
  · calc |k| * -((lo + hi) / 2 - v) = |k| * ((hi - lo) / 2) - |k| * (hi - v) := by ring
      _ ≤ |k| * (tolerance / 2) - tolerance := sub_le_sub hhalf h.above

theorem abs_midpoint_sub_le (h : Straddles k v tolerance lo hi) (htolerance : 0 < tolerance) :
    |(lo + hi) / 2 - v| ≤ (hi - lo) / 2 := by
  have hlt := h.lt_zero htolerance
  have hgt := h.zero_lt htolerance
  exact abs_le.mpr ⟨by linarith, by linarith⟩

theorem lands_midpoint (h : Straddles k v tolerance lo hi) (htolerance : 0 < tolerance)
    (hstops : StopsAt k v tolerance ((lo + hi) / 2)) :
    Lands k v tolerance lo hi ((lo + hi) / 2) := by
  have hlt := h.lt_zero htolerance
  have hgt := h.zero_lt htolerance
  exact
    { lower := by linarith
      upper := by linarith
      stops := hstops
      place := .inr (.inr (h.abs_midpoint_sub_le htolerance))
      atLo := fun hv => absurd hv hlt.ne'
      atHi := fun hv => absurd hv hgt.ne }

/-- Inside a half that straddles the zero no end is a root. -/
theorem lands_of_half {lo' hi' : ℚ} (h : Straddles k v tolerance lo hi) (htolerance : 0 < tolerance)
    (hhalf : Straddles k v tolerance lo' hi') (hlower : lo ≤ lo') (hupper : hi' ≤ hi)
    (hc : Lands k v tolerance lo' hi' c) : Lands k v tolerance lo hi c where
  lower := hlower.trans hc.lower
  upper := hc.upper.trans hupper
  stops := hc.stops
  place := by
    rcases hc.place with ⟨-, hsmall⟩ | ⟨-, hsmall⟩ | hmiddle
    · exact absurd hsmall (not_lt.mpr hhalf.below)
    · exact absurd hsmall (not_lt.mpr hhalf.above)
    · exact .inr (.inr (by linarith))
  atLo hv := absurd hv (h.lt_zero htolerance).ne'
  atHi hv := absurd hv (h.zero_lt htolerance).ne

end Straddles

namespace Bracket

/-- **One step.** The half that is kept straddles the zero, unless the middle one is a small
sample. -/
theorem half_line (h : Straddles k v tolerance lo hi) (htolerance : 0 < tolerance)
    (hlarge : tolerance ≤ |k| * |(lo + hi) / 2 - v|) :
    ∃ lo' hi', half ⟨.rational lo, .rational hi, .rational (k * (lo - v))⟩
          (.rational (k * ((lo + hi) / 2 - v)) : Exact E) =
        ⟨.rational lo', .rational hi', .rational (k * (lo' - v))⟩ ∧
      Straddles k v tolerance lo' hi' ∧ lo ≤ lo' ∧ hi' ≤ hi ∧ hi' - lo' = (hi - lo) / 2 := by
  have hlt := h.lt_zero htolerance
  have hgt := h.zero_lt htolerance
  have hslope : 0 < k ^ 2 := by
    rw [← sq_abs]
    exact pow_pos (h.slope_pos htolerance) 2
  have hproduct : k * (lo - v) * (k * ((lo + hi) / 2 - v)) =
      k ^ 2 * ((lo - v) * ((lo + hi) / 2 - v)) := by ring
  have hiff : (.rational (k * (lo - v)) * .rational (k * ((lo + hi) / 2 - v)) : Exact E) < 0 ↔
      k ^ 2 * ((lo - v) * ((lo + hi) / 2 - v)) < 0 := by
    rw [Exact.rational_mul, Exact.ofNat_eq, Nat.cast_zero, Exact.rational_lt_rational, hproduct]
  unfold half
  rw [midpoint_rational]
  dsimp only
  rcases abs_cases ((lo + hi) / 2 - v) with ⟨hsize, -⟩ | ⟨hsize, hside⟩ <;> rw [hsize] at hlarge
  · have hpositive : 0 < (lo + hi) / 2 - v :=
      pos_of_mul_pos_right (htolerance.trans_le hlarge) (abs_nonneg k)
    have hneg : k ^ 2 * ((lo - v) * ((lo + hi) / 2 - v)) < 0 :=
      mul_neg_of_pos_of_neg hslope (mul_neg_of_neg_of_pos (sub_neg.mpr hlt) hpositive)
    rw [if_pos (hiff.mpr hneg)]
    exact ⟨lo, (lo + hi) / 2, rfl, ⟨h.below, hlarge⟩, le_refl lo, by linarith, by ring⟩
  · have hpos : 0 < k ^ 2 * ((lo - v) * ((lo + hi) / 2 - v)) :=
      mul_pos hslope (mul_pos_of_neg_of_neg (sub_neg.mpr hlt) hside)
    rw [if_neg fun hless => hpos.not_gt (hiff.mp hless)]
    rw [neg_sub] at hlarge
    exact ⟨(lo + hi) / 2, hi, rfl, ⟨hlarge, h.above⟩, by linarith, le_refl hi, by ring⟩

end Bracket

namespace Bisection

variable {s : Bisection (Exact E)}

theorem divergenceGuard_eq : (divergenceGuard : Exact E) = .rational (10 ^ 10) := by
  unfold divergenceGuard
  rw [Exact.ofScientific_eq]
  norm_num

/-- **The whole search.** The steps that are left suffice for a bracket of the tolerance. -/
theorem exists_refine_line (hs : s.tolerance = .rational tolerance) (htolerance : 0 < tolerance)
    (hf : IsLine f k v) (h : Straddles k v tolerance lo hi) {done remaining : ℕ}
    (hwidth : hi - lo ≤ tolerance * 2 ^ remaining) (hguard : |k| * (hi - lo) ≤ 10 ^ 10) :
    ∃ outcome c, s.refine f done ⟨.rational lo, .rational hi, .rational (k * (lo - v))⟩ remaining =
        .ok outcome ∧ outcome.root = .rational c ∧ Lands k v tolerance lo hi c := by
  induction remaining generalizing done lo hi with
  | zero =>
      have hstops := h.stopsAt_midpoint (by simpa using hwidth)
      exact ⟨_, _, rfl, Bracket.midpoint_rational _, h.lands_midpoint htolerance hstops⟩
  | succ remaining ih =>
      unfold refine
      rw [Bracket.width_rational, Bracket.midpoint_rational, hs]
      by_cases hwide : tolerance < hi - lo
      · have hvalue : |k * ((lo + hi) / 2 - v)| = |k| * |(lo + hi) / 2 - v| := abs_mul _ _
        have hdistance : |(lo + hi) / 2 - v| ≤ hi - lo :=
          (h.abs_midpoint_sub_le htolerance).trans (by linarith)
        have hfinite : |k| * |(lo + hi) / 2 - v| ≤ 10 ^ 10 :=
          (mul_le_mul_of_nonneg_left hdistance (abs_nonneg k)).trans hguard
        rw [if_pos (by simpa using hwide)]
        dsimp only
        rw [hf, if_neg (by simpa [divergenceGuard_eq, hvalue] using hfinite)]
        by_cases hsmall : |k| * |(lo + hi) / 2 - v| < tolerance
        · rw [if_pos (by simpa [hvalue] using hsmall)]
          exact ⟨_, _, rfl, rfl, h.lands_midpoint htolerance (.inl hsmall)⟩
        · rw [if_neg (by simpa [hvalue] using hsmall)]
          obtain ⟨lo', hi', hhalf, hnext, hlower, hupper, hwidth'⟩ :=
            Bracket.half_line h htolerance (not_lt.mp hsmall)
          have hshrunk : |k| * (hi' - lo') ≤ 10 ^ 10 :=
            (mul_le_mul_of_nonneg_left (by linarith) (abs_nonneg k)).trans hguard
          rw [pow_succ] at hwidth
          obtain ⟨outcome, c, hrun, hroot, hlands⟩ :=
            @ih lo' hi' hnext (done + 1) (by linarith) hshrunk
          rw [hhalf]
          exact ⟨outcome, c, hrun, hroot, h.lands_of_half htolerance hnext hlower hupper hlands⟩
      · rw [if_neg (by simpa using hwide)]
        have hstops := h.stopsAt_midpoint (not_lt.mp hwide)
        exact ⟨_, _, rfl, Bracket.midpoint_rational _, h.lands_midpoint htolerance hstops⟩

theorem exists_run_line (hs : s.tolerance = .rational tolerance) (htolerance : 0 < tolerance)
    (hf : IsLine f k v) (hlt : lo < hi) (hlo : lo ≤ v) (hhi : v ≤ hi)
    (hwidth : hi - lo ≤ tolerance * 2 ^ s.maxIterations) (hguard : |k| * (hi - lo) ≤ 10 ^ 10) :
    ∃ outcome c, s.run f (.rational lo) (.rational hi) = .ok outcome ∧
      outcome.root = .rational c ∧ Lands k v tolerance lo hi c := by
  have hatLo : |k * (lo - v)| = |k| * (v - lo) := by
    rw [abs_mul, abs_sub_comm, abs_of_nonneg (sub_nonneg.mpr hlo)]
  have hatHi : |k * (hi - v)| = |k| * (hi - v) := by
    rw [abs_mul, abs_of_nonneg (sub_nonneg.mpr hhi)]
  have hsign : k * (lo - v) * (k * (hi - v)) ≤ 0 := by
    calc k * (lo - v) * (k * (hi - v)) = k ^ 2 * ((lo - v) * (hi - v)) := by ring
      _ ≤ 0 := mul_nonpos_of_nonneg_of_nonpos (sq_nonneg k)
        (mul_nonpos_of_nonpos_of_nonneg (sub_nonpos.mpr hlo) (sub_nonneg.mpr hhi))
  rw [run_eq_runOrdered rfl rfl (by simpa using hlt)]
  unfold runOrdered
  rw [hf, hf, hs]
  dsimp only
  rw [if_neg (by simp), if_neg (by simpa using hsign)]
  by_cases hsmallLo : |k| * (v - lo) < tolerance
  · rw [if_pos (by simpa [hatLo] using hsmallLo)]
    refine ⟨_, lo, rfl, rfl, le_refl lo, hlt.le, .inl ?_, .inl ⟨rfl, hsmallLo⟩, fun _ => rfl, ?_⟩
    · rwa [abs_sub_comm, abs_of_nonneg (sub_nonneg.mpr hlo)]
    · rintro rfl hlarge
      exact absurd hsmallLo (not_lt.mpr hlarge)
  · rw [if_neg (by simpa [hatLo] using hsmallLo)]
    have hne : v ≠ lo := by
      rintro rfl
      rw [sub_self, mul_zero] at hsmallLo
      exact hsmallLo htolerance
    by_cases hsmallHi : |k| * (hi - v) < tolerance
    · rw [if_pos (by simpa [hatHi] using hsmallHi)]
      refine ⟨_, hi, rfl, rfl, hlt.le, le_refl hi, .inl ?_, .inr (.inl ⟨rfl, hsmallHi⟩),
        fun hv => absurd hv hne, fun _ _ => rfl⟩
      rwa [abs_of_nonneg (sub_nonneg.mpr hhi)]
    · rw [if_neg (by simpa [hatHi] using hsmallHi)]
      exact exists_refine_line hs htolerance hf ⟨not_lt.mp hsmallLo, not_lt.mp hsmallHi⟩ hwidth hguard

/-- An answer means that the zero lies between the ends. -/
theorem mem_of_run_line (hf : IsLine f k v) (hk : k ≠ 0) (hle : lo ≤ hi)
    {outcome : Outcome (Exact E)} (hrun : s.run f (.rational lo) (.rational hi) = .ok outcome) :
    lo < hi ∧ lo ≤ v ∧ v ≤ hi := by
  have hlt : lo < hi := by
    refine lt_of_le_of_ne hle ?_
    rintro rfl
    simp [run] at hrun
  have hsign : ¬0 < k * (lo - v) * (k * (hi - v)) := by
    intro hpos
    have herror : s.run f (.rational lo) (.rational hi) = .error .noSignChange := by
      refine run_eq_noSignChange rfl rfl (by simpa using hlt) ?_ ?_
      · rw [hf, hf]
        exact ⟨rfl, rfl⟩
      · rw [hf, hf]
        simpa using hpos
    rw [herror] at hrun
    cases hrun
  have hproduct : k * (lo - v) * (k * (hi - v)) = k ^ 2 * ((lo - v) * (hi - v)) := by ring
  have hslope : 0 < k ^ 2 := by positivity
  rw [hproduct] at hsign
  refine ⟨hlt, ?_, ?_⟩
  · by_contra hlo
    rw [not_le] at hlo
    exact hsign (mul_pos hslope (mul_pos (by linarith) (by linarith)))
  · by_contra hhi
    rw [not_le] at hhi
    exact hsign (mul_pos hslope (mul_pos_of_neg_of_neg (by linarith) (by linarith)))

end Bisection

end Univariate.Root
