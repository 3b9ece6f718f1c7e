import Univariate.Proofs.Root.Line
import Univariate.Proofs.Root.Samples

/-!
# The sweep of a line

A line has its zero in one piece of a range, or in two that meet there. The sweep of an analysis
finds it once when the line is neither too steep nor, at a sample, too flat.
-/

namespace Univariate.Root.Sweep

variable {E : Elementary} {f : Exact E → Exact E} {k v start stop c : ℚ} {i j : ℕ}

/-- The zero `v` of a line of slope `k` is clear of what the sweep of an analysis does at the ends of
its pieces. -/
structure Clear (k v start stop : ℚ) : Prop where
  /-- The value in the middle of a narrow bracket is small enough for a root. -/
  moderate : |k| < 202
  /-- A start that is moved off zero does not pass over `v`, and no root is found left of it. -/
  lower : 1 / 10 ^ 10 ≤ |start| ∨ (0 ≤ start ∧ 1 / 10 ^ 10 ≤ v) ∨
    start + max (1 / 10 ^ 6) (1 / 10 ^ 6 / |k|) ≤ v
  upper : 1 / 10 ^ 10 ≤ |stop| ∨ (stop < 0 ∧ v ≤ -(1 / 10 ^ 10)) ∨
    v + max (1 / 10 ^ 6) (1 / 10 ^ 6 / |k|) ≤ stop
  /-- A sample at `v` has a large sample before it. -/
  samples : ∀ j, j + 1 < sampleCount start stop → v = bound start stop (j + 1) →
    1 / 10 ^ 6 ≤ |k| * (bound start stop (j + 1) - bound start stop j)
  /-- A sample at an end of the piece of `v` is large when it is as far away as a tenth. -/
  ends : ∀ j < sampleCount start stop, bound start stop j ≤ v → v ≤ bound start stop (j + 1) →
    (v - bound start stop j < 1 / 10 ∨ 1 / 10 ^ 6 ≤ |k| * (v - bound start stop j)) ∧
      (bound start stop (j + 1) - v < 1 / 10 ∨ 1 / 10 ^ 6 ≤ |k| * (bound start stop (j + 1) - v))

/-- Unless the line is flat only its ends matter. -/
theorem clear_of_steep (hsteep : 1 / 10 ^ 6 ≤ |k| * (1 / 10 - 1 / 10 ^ 10)) (hmoderate : |k| < 202)
    (hlower : 1 / 10 ^ 10 ≤ |start| ∨ (0 ≤ start ∧ 1 / 10 ^ 10 ≤ v) ∨
      start + max (1 / 10 ^ 6) (1 / 10 ^ 6 / |k|) ≤ v)
    (hupper : 1 / 10 ^ 10 ≤ |stop| ∨ (stop < 0 ∧ v ≤ -(1 / 10 ^ 10)) ∨
      v + max (1 / 10 ^ 6) (1 / 10 ^ 6 / |k|) ≤ stop) : Clear k v start stop where
  moderate := hmoderate
  lower := hlower
  upper := hupper
  samples j hj _ := by
    have hsample : sample start stop (j + 1) = start + j / 10 + 1 / 10 := by
      rw [sample_of_lt hj]
      push_cast
      ring
    refine hsteep.trans (mul_le_mul_of_nonneg_left ?_ (abs_nonneg k))
    rw [bound, bound, hsample, sample_of_lt ((Nat.lt_succ_self j).trans hj)]
    exact le_offZero_add_sub _
  ends j hj _ _ := by
    have hfar : ∀ d, d < 1 / 10 ∨ 1 / 10 ^ 6 ≤ |k| * d := by
      intro d
      by_cases hd : d < 1 / 10
      · exact .inl hd
      · exact .inr (hsteep.trans (mul_le_mul_of_nonneg_left (by linarith) (abs_nonneg k)))
    exact ⟨hfar _, hfar _⟩

structure Meets (k v start stop : ℚ) : Prop extends Clear k v start stop where
  slope_ne_zero : k ≠ 0
  inside : start < v ∧ v < stop
  range : stop - start ≤ 10

namespace Meets

theorem lt (h : Meets k v start stop) : start < stop := h.inside.1.trans h.inside.2

theorem offZero_start_le (h : Meets k v start stop) : offZero start ≤ v := by
  have hinside := h.inside.1
  rcases h.lower with hfar | ⟨hpos, hv⟩ | hmargin
  · exact (offZero_of_le hfar).le.trans hinside.le
  · rcases offZero_cases start with ⟨-, heq⟩ | ⟨-, hneg, heq⟩ | ⟨-, -, heq⟩ <;> rw [heq]
    · exact hinside.le
    · exact absurd hpos (not_le.mpr hneg)
    · exact hv
  · have hmoved := abs_le.mp (abs_offZero_sub_le start)
    have hmax := le_max_left (1 / 10 ^ 6 : ℚ) (1 / 10 ^ 6 / |k|)
    linarith [hmoved.2]

theorem le_offZero_stop (h : Meets k v start stop) : v ≤ offZero stop := by
  have hinside := h.inside.2
  rcases h.upper with hfar | ⟨hneg, hv⟩ | hmargin
  · exact hinside.le.trans (offZero_of_le hfar).ge
  · rcases offZero_cases stop with ⟨-, heq⟩ | ⟨-, -, heq⟩ | ⟨hpos, -, heq⟩ <;> rw [heq]
    · exact hinside.le
    · exact hv
    · exact absurd hneg (not_lt.mpr hpos)
  · have hmoved := abs_le.mp (abs_offZero_sub_le stop)
    have hmax := le_max_left (1 / 10 ^ 6 : ℚ) (1 / 10 ^ 6 / |k|)
    linarith [hmoved.1]

theorem offZero_lt (h : Meets k v start stop) : offZero start < offZero stop := by
  by_cases hstart : 1 / 10 ^ 10 ≤ |start|
  · rw [offZero_of_le hstart]
    exact h.inside.1.trans_le h.le_offZero_stop
  · by_cases hstop : 1 / 10 ^ 10 ≤ |stop|
    · rw [offZero_of_le hstop]
      exact h.offZero_start_le.trans_lt h.inside.2
    · -- No value that is far enough from the start fits in between.
      obtain ⟨hlower, -⟩ := abs_lt.mp (not_le.mp hstart)
      obtain ⟨-, hupper⟩ := abs_lt.mp (not_le.mp hstop)
      have hinside := h.inside.2
      rcases h.lower with hfar | ⟨-, hv⟩ | hmargin
      · exact absurd hfar hstart
      · linarith
      · have hmax := le_max_left (1 / 10 ^ 6 : ℚ) (1 / 10 ^ 6 / |k|)
        linarith

theorem margin (h : Meets k v start stop) (hc : StopsAt k v (1 / 10 ^ 6) c) :
    v - max (1 / 10 ^ 6) (1 / 10 ^ 6 / |k|) < c ∧ c < v + max (1 / 10 ^ 6) (1 / 10 ^ 6 / |k|) := by
  have hdistance := abs_lt.mp (hc.abs_sub_lt (by norm_num) h.slope_ne_zero)
  constructor <;> linarith [hdistance.1, hdistance.2]

/-- A root is not left of the range, although a piece may reach there. -/
theorem start_le (h : Meets k v start stop) (hlower : offZero start ≤ c)
    (hc : StopsAt k v (1 / 10 ^ 6) c) : start ≤ c := by
  rcases h.lower with hfar | ⟨hpos, -⟩ | hmargin
  · rwa [offZero_of_le hfar] at hlower
  · refine le_trans ?_ hlower
    rcases offZero_cases start with ⟨-, heq⟩ | ⟨-, hneg, -⟩ | ⟨-, hnear, heq⟩
    · exact heq.ge
    · exact absurd hpos (not_le.mpr hneg)
    · exact hnear.le.trans heq.ge
  · linarith [(h.margin hc).1]

theorem le_stop (h : Meets k v start stop) (hupper : c ≤ offZero stop)
    (hc : StopsAt k v (1 / 10 ^ 6) c) : c ≤ stop := by
  rcases h.upper with hfar | ⟨hneg, -⟩ | hmargin
  · rwa [offZero_of_le hfar] at hupper
  · refine hupper.trans ?_
    rcases offZero_cases stop with ⟨-, heq⟩ | ⟨hnear, -, heq⟩ | ⟨hpos, -, -⟩
    · exact heq.le
    · exact heq.le.trans hnear.le
    · exact absurd hneg (not_lt.mpr hpos)
  · linarith [(h.margin hc).2]

theorem size_lt (h : Meets k v start stop) (hc : StopsAt k v (1 / 10 ^ 6) c) :
    |k| * |c - v| < 1 / 10 ^ 4 := by
  have hmoderate := h.moderate
  rcases hc with hsmall | hmiddle
  · linarith
  · linarith

theorem abs_sample_le (h : Meets k v start stop) (j : ℕ) :
    |k * (bound start stop j - v)| ≤ 202 * 11 := by
  obtain ⟨hlower, hupper⟩ := bound_mem h.lt j
  have hrange := h.range
  have hinside := h.inside
  rw [abs_mul]
  refine mul_le_mul h.moderate.le (abs_le.mpr ⟨?_, ?_⟩) (abs_nonneg _) (by norm_num)
  · linarith
  · linarith

end Meets

structure LandsIn (k v start stop : ℚ) (j : ℕ) (c : ℚ) : Prop where
  lower : bound start stop j ≤ v
  upper : v ≤ bound start stop (j + 1)
  lands : Lands k v (1 / 10 ^ 6) (bound start stop j) (bound start stop (j + 1)) c

theorem exists_run_bound (h : Meets k v start stop) (hf : IsLine f k v)
    (hlt : bound start stop j < bound start stop (j + 1)) (hlower : bound start stop j ≤ v)
    (hupper : v ≤ bound start stop (j + 1)) :
    ∃ outcome c, nudging.bisection.run f (.rational (bound start stop j))
        (.rational (bound start stop (j + 1))) = .ok outcome ∧
      outcome.root = .rational c ∧ LandsIn k v start stop j c := by
  have hrange := h.range
  have hwidth : bound start stop (j + 1) - bound start stop j ≤ 11 := by
    linarith [(bound_mem h.lt j).1, (bound_mem h.lt (j + 1)).2]
  have hsteps : (11 : ℚ) ≤ 1 / 10 ^ 6 * 2 ^ 100 := by norm_num
  have hguard : |k| * (bound start stop (j + 1) - bound start stop j) ≤ 10 ^ 10 := by
    calc |k| * (bound start stop (j + 1) - bound start stop j) ≤ 202 * 11 :=
          mul_le_mul h.moderate.le hwidth (sub_nonneg.mpr hlt.le) (by norm_num)
      _ ≤ 10 ^ 10 := by norm_num
  obtain ⟨outcome, c, hrun, hroot, hlands⟩ :=
    Bisection.exists_run_line (s := nudging.bisection) rfl (by norm_num) hf hlt hlower hupper
      (hwidth.trans hsteps) hguard
  exact ⟨outcome, c, hrun, hroot, hlower, hupper, hlands⟩

theorem candidate?_line (h : Meets k v start stop) (hf : IsLine f k v) {x : Exact E}
    (hx : nudging.candidate? f (.rational start) (.rational stop)
      (.rational (sample start stop j), .rational (sample start stop (j + 1))) = some x) :
    ∃ c, x = .rational c ∧ LandsIn k v start stop j c := by
  obtain ⟨lo, hi, outcome, hlo, hhi, -, -, -, hrun, -, rfl⟩ := candidate?_eq_some_iff.mp hx
  rw [guardEnd?_nudging] at hlo hhi
  obtain rfl := Option.some.inj hlo
  obtain rfl := Option.some.inj hhi
  obtain ⟨hlt, hlower, hupper⟩ := Bisection.mem_of_run_line hf h.slope_ne_zero
    (bound_mono (Nat.le_succ j) : bound start stop j ≤ bound start stop (j + 1)) hrun
  obtain ⟨outcome', c, hrun', hroot, hlands⟩ := exists_run_bound h hf hlt hlower hupper
  obtain rfl : outcome = outcome' := Except.ok.inj (hrun.symm.trans hrun')
  exact ⟨c, hroot, hlands⟩

theorem isTame_bound (h : Meets k v start stop) (hf : IsLine f k v) (j : ℕ) :
    (nudging : Sweep (Exact E)).isTame (f (.rational (bound start stop j))) = true := by
  have hsize : |k * (bound start stop j - v)| ≤ 10 ^ 8 := (h.abs_sample_le j).trans (by norm_num)
  rw [hf]
  exact isTame_eq_true (Exact.isFinite_rational _) (by simpa [nudging] using hsize)

theorem candidate?_eq_of_landsIn (h : Meets k v start stop) (hf : IsLine f k v)
    (hc : LandsIn k v start stop j c) (hstart : start ≤ c) (hstop : c ≤ stop)
    {outcome : Outcome (Exact E)}
    (hrun : nudging.bisection.run f (.rational (bound start stop j))
      (.rational (bound start stop (j + 1))) = .ok outcome) (hroot : outcome.root = .rational c) :
    nudging.candidate? f (.rational start) (.rational stop)
      (.rational (sample start stop j), .rational (sample start stop (j + 1))) =
        some (.rational c) := by
  have hsign : ¬0 < f (.rational (bound start stop j)) *
      f (.rational (bound start stop (j + 1))) := by
    have hproduct : k * (bound start stop j - v) * (k * (bound start stop (j + 1) - v)) ≤ 0 := by
      calc k * (bound start stop j - v) * (k * (bound start stop (j + 1) - v)) =
          k ^ 2 * ((bound start stop j - v) * (bound start stop (j + 1) - v)) := by ring
        _ ≤ 0 := mul_nonpos_of_nonneg_of_nonpos (sq_nonneg k)
          (mul_nonpos_of_nonpos_of_nonneg (sub_nonpos.mpr hc.lower) (sub_nonneg.mpr hc.upper))
    rw [hf, hf]
    simpa using hproduct
  have haccepts : nudging.accepts f (.rational start) (.rational stop) outcome.root = true := by
    have hsize : |k * (c - v)| < 1 / 10 ^ 4 := by
      rw [abs_mul]
      exact h.size_lt hc.lands.stops
    rw [hroot, accepts_eq_true_iff, hf]
    exact ⟨by simpa using hstart, by simpa using hstop, rfl, by simpa [nudging] using hsize⟩
  exact candidate?_eq_some_iff.mpr ⟨_, _, outcome, guardEnd?_nudging _, guardEnd?_nudging _,
    isTame_bound h hf j, isTame_bound h hf (j + 1), excludesRoot_eq_false fun hpos => hsign hpos.1,
    hrun, haccepts, hroot⟩

/-- Two pieces that meet at the zero land there both. -/
theorem LandsIn.eq {c' : ℚ} (h : Meets k v start stop) (hij : i < j)
    (hj : j < sampleCount start stop) (hi : LandsIn k v start stop i c)
    (hj' : LandsIn k v start stop j c') : c = c' := by
  have hnext : i + 1 < sampleCount start stop := (Nat.succ_le_of_lt hij).trans_lt hj
  have hmono : bound start stop (i + 1) ≤ bound start stop j := bound_mono hij
  have hend : v = bound start stop (i + 1) :=
    le_antisymm hi.upper (hmono.trans hj'.lower)
  have hbegin : v = bound start stop j := le_antisymm (hi.upper.trans hmono) hj'.lower
  have hwide := h.samples i hnext hend
  rw [hi.lands.atHi hend hwide, hj'.lands.atLo hbegin, ← hend, ← hbegin]

theorem LandsIn.abs_sub_lt (h : Meets k v start stop) (hj : j < sampleCount start stop)
    (hc : LandsIn k v start stop j c) : |c - v| < 1 / 10 := by
  obtain ⟨hbefore, hafter⟩ := h.ends j hj hc.lower hc.upper
  have hwidth := bound_succ_sub_le hj
  rcases hc.lands.place with ⟨rfl, hsmall⟩ | ⟨rfl, hsmall⟩ | hmiddle
  · rw [abs_sub_comm, abs_of_nonneg (sub_nonneg.mpr hc.lower)]
    exact hbefore.resolve_right (not_le.mpr hsmall)
  · rw [abs_of_nonneg (sub_nonneg.mpr hc.upper)]
    exact hafter.resolve_right (not_le.mpr hsmall)
  · linarith

/-- **The sweep of a line.** It meets the zero once. -/
theorem exists_run_line (h : Meets k v start stop) (hf : IsLine f k v) :
    ∃ c, nudging.run f (.rational start) (.rational stop) = .ok [.rational c] ∧
      start ≤ c ∧ c ≤ stop ∧ |c - v| < 1 / 10 := by
  have hfirst := bound_zero h.lt
  have hlast : bound start stop (sampleCount start stop) = offZero stop := bound_sampleCount
  obtain ⟨j, hj, hlt, hlower, hupper⟩ := exists_between_bounds (bound start stop)
    (sampleCount start stop) (hfirst.trans_le h.offZero_start_le)
    (h.le_offZero_stop.trans_eq hlast.symm) (by rw [hfirst, hlast]; exact h.offZero_lt)
  obtain ⟨outcome, c, hrun, hroot, hc⟩ := exists_run_bound h hf hlt hlower hupper
  have hstart : start ≤ c := by
    refine h.start_le ?_ hc.lands.stops
    rw [← hfirst]
    exact (bound_mono (Nat.zero_le j)).trans hc.lands.lower
  have hstop : c ≤ stop := by
    refine h.le_stop ?_ hc.lands.stops
    rw [← hlast]
    exact hc.lands.upper.trans (bound_mono (Nat.succ_le_of_lt hj))
  have hcandidate := candidate?_eq_of_landsIn h hf hc hstart hstop hrun hroot
  have hkept : ((nudging.pieces (.rational start) (.rational stop)).filterMap
      (nudging.candidate? f (.rational start) (.rational stop))).foldl
        (insert nudging.duplicateDistance) [] = [.rational c] := by
    apply foldl_insert_eq_singleton
    case hne =>
      intro hnil
      rw [List.filterMap_eq_nil_iff] at hnil
      have hnone := hnil _ ((mem_pieces_nudging h.lt h.range).mpr ⟨j, hj, rfl⟩)
      rw [hcandidate] at hnone
      cases hnone
    case hall =>
      intro x hx
      obtain ⟨piece, hpiece, hx⟩ := List.mem_filterMap.mp hx
      obtain ⟨i, hi, rfl⟩ := (mem_pieces_nudging h.lt h.range).mp hpiece
      obtain ⟨c', rfl, hc'⟩ := candidate?_line h hf hx
      rcases Nat.lt_trichotomy i j with hij | rfl | hij
      · rw [LandsIn.eq h hij hj hc' hc]
      · rw [hcandidate] at hx
        exact (Option.some.inj hx).symm
      · rw [LandsIn.eq h hij hi hc hc']
    case hself => norm_num [duplicateDistance, nudging]
  refine ⟨c, run_eq_ok_iff.mpr ⟨fault?_nudging h.lt h.range, ?_⟩, hstart, hstop,
    hc.abs_sub_lt h hj⟩
  rw [hkept, List.mergeSort_singleton]

end Univariate.Root.Sweep
