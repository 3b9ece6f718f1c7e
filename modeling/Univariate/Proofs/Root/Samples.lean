import Mathlib.Tactic.Linarith
import Mathlib.Tactic.NormNum
import Univariate.Proofs.Root.Pieces
import Univariate.Proofs.Scalar.Exact

/-!
# The samples of an analysis

With the settings of an analysis a range no wider than ten is cut into tenths, and samples next to
zero are moved off it.
-/

namespace Univariate.Root.Sweep

variable {E : Elementary} {v start stop x y : ℚ} {i j : ℕ}

/-- The sweep of an analysis, with its settings as rational numbers. -/
def nudging : Sweep (Exact E) where
  granularity := .rational (1 / 10)
  tolerance := .rational (1 / 10 ^ 6)
  maxIterations := 100
  widenAbove := .rational 10
  targetPieces := 100
  maxPieces := 1000000
  zeroGuard := .rational (1 / 10 ^ 10)
  zeroPolicy := .nudge
  magnitudeGuard := .rational (10 ^ 8)
  acceptance := .rational (1 / 10 ^ 4)
  duplicateFactor := .rational 100

theorem nudging_eq : (nudging : Sweep (Exact E)) = { zeroPolicy := .nudge } := by
  simp only [nudging, Exact.ofScientific_eq, Exact.ofNat_eq]
  norm_num

/-! ### Samples -/

/-- Where the samples of a range lie, up to one behind the last tenth. -/
def sample (start stop : ℚ) (j : ℕ) : ℚ := min (start + j / 10) stop

def sampleCount (start stop : ℚ) : ℕ := ⌈(stop - start) * 10⌉₊

def offZero (x : ℚ) : ℚ :=
  if 1 / 10 ^ 10 ≤ |x| then x else if x < 0 then -(1 / 10 ^ 10) else 1 / 10 ^ 10

theorem offZero_of_le (h : 1 / 10 ^ 10 ≤ |x|) : offZero x = x := if_pos h

theorem offZero_cases (x : ℚ) :
    (1 / 10 ^ 10 ≤ |x| ∧ offZero x = x) ∨
      (-(1 / 10 ^ 10) < x ∧ x < 0 ∧ offZero x = -(1 / 10 ^ 10)) ∨
      (0 ≤ x ∧ x < 1 / 10 ^ 10 ∧ offZero x = 1 / 10 ^ 10) := by
  unfold offZero
  by_cases hlarge : 1 / 10 ^ 10 ≤ |x|
  · rw [if_pos hlarge]
    exact .inl ⟨hlarge, rfl⟩
  · obtain ⟨hlower, hupper⟩ := abs_lt.mp (not_le.mp hlarge)
    rw [if_neg hlarge]
    by_cases hneg : x < 0
    · rw [if_pos hneg]
      exact .inr (.inl ⟨hlower, hneg, rfl⟩)
    · rw [if_neg hneg]
      exact .inr (.inr ⟨not_lt.mp hneg, hupper, rfl⟩)

theorem offZero_mono (h : x ≤ y) : offZero x ≤ offZero y := by
  rcases offZero_cases x with ⟨hx, hxEq⟩ | ⟨hx, hx', hxEq⟩ | ⟨hx, hx', hxEq⟩ <;>
    rcases offZero_cases y with ⟨hy, hyEq⟩ | ⟨hy, hy', hyEq⟩ | ⟨hy, hy', hyEq⟩ <;>
    rw [hxEq, hyEq]
  · exact h
  · rcases le_abs.mp hx with hx | hx <;> linarith
  · rcases le_abs.mp hx with hx | hx <;> linarith
  · rcases le_abs.mp hy with hy | hy <;> linarith
  · linarith
  · rcases le_abs.mp hy with hy | hy <;> linarith
  · linarith

theorem abs_offZero_sub_le (x : ℚ) : |offZero x - x| ≤ 1 / 10 ^ 10 := by
  rcases offZero_cases x with ⟨-, hx⟩ | ⟨hlower, hupper, hx⟩ | ⟨hlower, hupper, hx⟩ <;>
    rw [hx, abs_le]
  · norm_num
  · constructor <;> linarith
  · constructor <;> linarith

/-- Only one of two neighbours can be moved. -/
theorem le_offZero_add_sub (x : ℚ) : 1 / 10 - 1 / 10 ^ 10 ≤ offZero (x + 1 / 10) - offZero x := by
  have hright := abs_le.mp (abs_offZero_sub_le (x + 1 / 10))
  have hleft := abs_le.mp (abs_offZero_sub_le x)
  by_cases hlarge : 1 / 10 ^ 10 ≤ |x|
  · rw [offZero_of_le hlarge]
    linarith [hright.1]
  · obtain ⟨hlower, hupper⟩ := abs_lt.mp (not_le.mp hlarge)
    have hfar : 1 / 10 ^ 10 ≤ |x + 1 / 10| := le_abs.mpr (.inl (by linarith))
    rw [offZero_of_le hfar]
    linarith [hleft.2]

/-- The sample that bounds a piece as it is searched. -/
def bound (start stop : ℚ) (j : ℕ) : ℚ := offZero (sample start stop j)

theorem sample_mono (hij : i ≤ j) : sample start stop i ≤ sample start stop j := by
  have hcast : (i : ℚ) ≤ j := Nat.cast_le.mpr hij
  exact min_le_min_right stop (by linarith)

theorem bound_mono (hij : i ≤ j) : bound start stop i ≤ bound start stop j :=
  offZero_mono (sample_mono hij)

theorem lt_sampleCount : j < sampleCount start stop ↔ start + j / 10 < stop := by
  unfold sampleCount
  rw [Nat.lt_ceil]
  constructor <;> intro h <;> linarith

theorem sample_zero (hlt : start < stop) : sample start stop 0 = start := by
  rw [sample, Nat.cast_zero, zero_div, add_zero, min_eq_left hlt.le]

theorem sample_of_lt (hj : j < sampleCount start stop) : sample start stop j = start + j / 10 :=
  min_eq_left (lt_sampleCount.mp hj).le

theorem sample_of_le (hj : sampleCount start stop ≤ j) : sample start stop j = stop :=
  min_eq_right (not_lt.mp fun h => (lt_sampleCount.mpr h).not_ge hj)

theorem sample_succ_sub_le (hj : j < sampleCount start stop) :
    sample start stop (j + 1) - sample start stop j ≤ 1 / 10 := by
  have hle : sample start stop (j + 1) ≤ start + ((j + 1 : ℕ) : ℚ) / 10 := min_le_left _ _
  rw [sample_of_lt hj]
  push_cast at hle
  linarith

theorem bound_zero (hlt : start < stop) : bound start stop 0 = offZero start :=
  congrArg offZero (sample_zero hlt)

theorem bound_sampleCount : bound start stop (sampleCount start stop) = offZero stop :=
  congrArg offZero (sample_of_le le_rfl)

theorem bound_mem (hlt : start < stop) (j : ℕ) :
    start - 1 / 10 ^ 10 ≤ bound start stop j ∧ bound start stop j ≤ stop + 1 / 10 ^ 10 := by
  have hmoved := abs_le.mp (abs_offZero_sub_le (sample start stop j))
  have hlower : start ≤ sample start stop j :=
    (sample_zero hlt).symm.le.trans (sample_mono (Nat.zero_le j))
  have hupper : sample start stop j ≤ stop := min_le_right _ _
  unfold bound
  constructor
  · linarith [hmoved.1]
  · linarith [hmoved.2]

theorem bound_succ_sub_le (hj : j < sampleCount start stop) :
    bound start stop (j + 1) - bound start stop j ≤ 1 / 10 + 2 / 10 ^ 10 := by
  have hwidth := sample_succ_sub_le hj
  have hleft := abs_le.mp (abs_offZero_sub_le (sample start stop j))
  have hright := abs_le.mp (abs_offZero_sub_le (sample start stop (j + 1)))
  unfold bound
  linarith [hleft.1, hright.2]

/-- **Some piece reaches every value between the first sample and the last.** -/
theorem exists_between_bounds (b : ℕ → ℚ) (n : ℕ) (hlower : b 0 ≤ v) (hupper : v ≤ b n)
    (hlt : b 0 < b n) : ∃ j < n, b j < b (j + 1) ∧ b j ≤ v ∧ v ≤ b (j + 1) := by
  induction n with
  | zero => exact absurd hlt (lt_irrefl _)
  | succ n ih =>
      by_cases hearlier : b 0 < b n ∧ v ≤ b n
      · obtain ⟨j, hj, hpiece⟩ := ih hearlier.2 hearlier.1
        exact ⟨j, Nat.lt_succ_of_lt hj, hpiece⟩
      · refine ⟨n, Nat.lt_succ_self n, ?_⟩
        by_cases hbefore : v ≤ b n
        · have hle : b n ≤ b 0 := not_lt.mp fun h => hearlier ⟨h, hbefore⟩
          exact ⟨hle.trans_lt hlt, hle.trans hlower, hupper⟩
        · have hafter := not_le.mp hbefore
          exact ⟨hafter.trans_le hupper, hafter.le, hupper⟩

/-! ### Pieces -/

theorem pieceWidth_nudging (hrange : stop - start ≤ 10) :
    (nudging : Sweep (Exact E)).pieceWidth (.rational start) (.rational stop) =
      .rational (1 / 10) := by
  unfold pieceWidth
  exact if_neg (by simpa [nudging] using hrange)

theorem stepsAcross_tenth : stepsAcross start stop (1 / 10) = sampleCount start stop := by
  rw [stepsAcross, sampleCount, div_div_eq_mul_div, div_one]

theorem pieceCount_nudging (hlt : start < stop) (hrange : stop - start ≤ 10) :
    (nudging : Sweep (Exact E)).pieceCount (.rational start) (.rational stop) =
      .rational (sampleCount start stop) := by
  rw [pieceCount_rational hlt (by norm_num) (pieceWidth_nudging hrange), stepsAcross_tenth]

theorem sampleCount_le (hrange : stop - start ≤ 10) : sampleCount start stop ≤ 100 := by
  apply Nat.ceil_le.mpr
  push_cast
  linarith

theorem sampleCount_le_maxPieces (hrange : stop - start ≤ 10) :
    sampleCount start stop ≤ (nudging : Sweep (Exact E)).maxPieces :=
  (sampleCount_le hrange).trans (by simp [nudging])

theorem stepCount_nudging (hlt : start < stop) (hrange : stop - start ≤ 10) :
    (nudging : Sweep (Exact E)).stepCount (.rational start) (.rational stop) =
      sampleCount start stop :=
  stepCount_rational (pieceCount_nudging hlt hrange) (sampleCount_le_maxPieces hrange)
    (by simp [nudging])

theorem fault?_nudging (hlt : start < stop) (hrange : stop - start ≤ 10) :
    (nudging : Sweep (Exact E)).fault? (.rational start) (.rational stop) = none := by
  rw [fault?_eq_none_iff]
  constructor
  case finite => exact ⟨rfl, rfl⟩
  case ordered => simpa using hlt
  case granularity => simp [nudging]
  case tolerance => simp [nudging]
  case target => simp [nudging]
  case count =>
    rw [pieceCount_nudging hlt hrange, Exact.scalarOfNat_eq, Exact.rational_le_rational,
      Nat.cast_le]
    exact sampleCount_le_maxPieces hrange

theorem mem_pieces_nudging (hlt : start < stop) (hrange : stop - start ≤ 10)
    {piece : Exact E × Exact E} :
    piece ∈ nudging.pieces (.rational start) (.rational stop) ↔
      ∃ j < sampleCount start stop,
        piece = (.rational (sample start stop j), .rational (sample start stop (j + 1))) := by
  have hpieces := pieces_eq_map_step hlt (by norm_num) (pieceWidth_nudging (E := E) hrange)
    (stepsAcross_tenth ▸ stepCount_nudging hlt hrange)
  have hstep : ∀ j < sampleCount start stop,
      step (.rational start) (.rational stop) (.rational (1 / 10) : Exact E) j =
        (.rational (sample start stop j), .rational (sample start stop (j + 1))) := by
    intro j hj
    rw [step_rational, mul_one_div, mul_one_div, sample_of_lt hj, sample]
  rw [hpieces, stepsAcross_tenth, List.mem_map]
  constructor
  · rintro ⟨j, hj, rfl⟩
    rw [List.mem_range] at hj
    exact ⟨j, hj, hstep j hj⟩
  · rintro ⟨j, hj, rfl⟩
    exact ⟨j, List.mem_range.mpr hj, hstep j hj⟩

theorem guardEnd?_nudging (x : ℚ) :
    (nudging : Sweep (Exact E)).guardEnd? (.rational x) = some (.rational (offZero x)) := by
  unfold guardEnd? offZero
  by_cases hlarge : 1 / 10 ^ 10 ≤ |x|
  · rw [if_pos (by simpa [nudging] using hlarge), if_pos hlarge]
  · rw [if_neg (by simpa [nudging] using hlarge), if_neg hlarge]
    by_cases hneg : x < 0
    · rw [if_pos hneg]
      exact congrArg some (if_pos (by simpa using hneg))
    · rw [if_neg hneg]
      exact congrArg some (if_neg (by simpa using hneg))

end Univariate.Root.Sweep
