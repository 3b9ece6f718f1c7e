import Mathlib.Algebra.Order.Floor.Ring
import Mathlib.Algebra.Order.Floor.Semiring
import Mathlib.Tactic.Linarith
import Mathlib.Tactic.NormNum
import Mathlib.Tactic.Ring
import Univariate.Proofs.Scalar.Exact
import Univariate.Root.Sweep

/-!
# The pieces of a range

Over exact arithmetic the pieces of a range that is not refused fill it from end to end. All of them
have one width, except that the last may be narrower.
-/

namespace Univariate.Root.Sweep

open Scalar

section Lawful

variable {α : Type} [Scalar α] {s : Sweep α} {start stop width lo x : α} {pieces : List (α × α)}

/-- What a sweep asks of its range and settings. -/
structure Admits (s : Sweep α) (start stop : α) : Prop where
  finite : isFinite start = true ∧ isFinite stop = true
  ordered : ¬stop ≤ start
  granularity : 0 < s.granularity ∧ isFinite s.granularity = true
  tolerance : 0 < s.tolerance
  target : s.targetPieces ≠ 0
  count : s.pieceCount start stop ≤ Scalar.ofNat s.maxPieces

theorem fault?_eq_none_iff : s.fault? start stop = none ↔ s.Admits start stop := by
  unfold fault?
  constructor
  · intro h
    split at h
    · cases h
    · next hrange =>
        split at h
        · cases h
        · next hgranularity =>
            split at h
            · cases h
            · next htolerance =>
                split at h
                · cases h
                · next htarget =>
                    dsimp only at h
                    split at h
                    · next hcount =>
                        simp only [Bool.or_eq_true, Bool.not_eq_true', not_or, Bool.not_eq_false,
                          decide_eq_true_eq, decide_eq_false_iff_not, not_not, beq_iff_eq] at *
                        exact ⟨hrange.1, hrange.2, hgranularity, htolerance, htarget, hcount⟩
                    · cases h
  · intro h
    simp [h.finite, h.ordered, h.granularity, h.tolerance, h.target, h.count]

/-- Pieces from a place to the end of a range: each begins where the one before it ends, and only
the last may be narrower than the width. -/
inductive Tiles (width stop : α) : α → List (α × α) → Prop
  | last {lo : α} (hlt : lo < stop) (hwidth : stop - lo ≤ width) : Tiles width stop lo [(lo, stop)]
  | cons {lo hi : α} {rest : List (α × α)} (hlt : lo < hi) (hwidth : hi - lo = width)
      (hrest : Tiles width stop hi rest) : Tiles width stop lo ((lo, hi) :: rest)

namespace Tiles

theorem lt_of_mem (h : Tiles width stop lo pieces) : ∀ piece ∈ pieces, piece.1 < piece.2 := by
  induction h with
  | last hlt _ => exact List.forall_mem_singleton.mpr hlt
  | cons hlt _ _ ih => exact List.forall_mem_cons.mpr ⟨hlt, ih⟩

theorem exists_mem [LawfulOrder α] (h : Tiles width stop lo pieces) (hlower : lo ≤ x)
    (hupper : x ≤ stop) : ∃ piece ∈ pieces, piece.1 ≤ x ∧ x ≤ piece.2 := by
  induction h with
  | last _ _ => exact ⟨_, List.mem_singleton_self _, hlower, hupper⟩
  | @cons _ hi _ hlt _ _ ih =>
      have hx : isNaN x = false := (LawfulOrder.isNaN_of_le hlower).2
      have hhi : isNaN hi = false := (LawfulOrder.isNaN_of_le (le_of_lt hlt)).2
      rcases LawfulOrder.le_total hx hhi with hbefore | hafter
      · exact ⟨_, List.mem_cons_self, hlower, hbefore⟩
      · obtain ⟨piece, hpiece, hbetween⟩ := ih hafter
        exact ⟨piece, List.mem_cons_of_mem _ hpiece, hbetween⟩

end Tiles

end Lawful

/-! ### Exact ranges -/

variable {E : Elementary} {s : Sweep (Exact E)} {start stop width : ℚ} {k n remaining : ℕ}

/-- How many steps of a width lead from the start to the end or beyond. -/
def stepsAcross (start stop width : ℚ) : ℕ := ⌈(stop - start) / width⌉₊

theorem lt_stepsAcross (hwidth : 0 < width) :
    k < stepsAcross start stop width ↔ start + k * width < stop := by
  unfold stepsAcross
  rw [Nat.lt_ceil, lt_div_iff₀ hwidth, lt_sub_iff_add_lt']

theorem step_rational (start stop width : ℚ) (k : ℕ) :
    step (.rational start) (.rational stop) (.rational width : Exact E) k =
      (.rational (start + k * width), .rational (min (start + (k + 1 : ℕ) * width) stop)) := by
  unfold step
  rw [Exact.scalarOfNat_eq, Exact.scalarOfNat_eq, Exact.rational_mul, Exact.rational_mul,
    Exact.rational_add, Exact.rational_add, Exact.min_rational]

theorem tiles_steps (hwidth : 0 < width) (hlast : start + (k + remaining : ℕ) * width < stop)
    (hstop : stop ≤ start + (k + remaining + 1 : ℕ) * width) :
    Tiles (.rational width) (.rational stop) (.rational (start + k * width))
      ((List.range' k (remaining + 1)).map
        (step (.rational start) (.rational stop) (.rational width : Exact E))) := by
  induction remaining generalizing k with
  | zero =>
      rw [List.range'_one, List.map_singleton, step_rational, min_eq_right hstop]
      refine .last (by simpa using hlast) ?_
      rw [Exact.rational_sub, Exact.rational_le_rational]
      push_cast at hstop
      linarith
  | succ remaining ih =>
      have hnext : start + (k + 1 : ℕ) * width < stop := by
        refine lt_of_le_of_lt ?_ hlast
        have hcast : ((k + 1 : ℕ) : ℚ) ≤ (k + (remaining + 1) : ℕ) := by
          exact_mod_cast (by omega)
        have hproduct := mul_le_mul_of_nonneg_right hcast hwidth.le
        linarith
      rw [List.range'_succ, List.map_cons, step_rational, min_eq_left hnext.le]
      refine .cons ?_ ?_ (ih ?_ ?_)
      · rw [Exact.rational_lt_rational]
        push_cast
        linarith
      · rw [Exact.rational_sub]
        push_cast
        ring_nf
      · rwa [Nat.add_right_comm, Nat.add_assoc]
      · rwa [Nat.add_right_comm k, Nat.add_assoc k]

theorem pieceCount_rational (hlt : start < stop) (hwidth : 0 < width)
    (h : s.pieceWidth (.rational start) (.rational stop) = .rational width) :
    s.pieceCount (.rational start) (.rational stop) = .rational (stepsAcross start stop width) := by
  have hpos : 0 ≤ (stop - start) / width := div_nonneg (sub_pos.mpr hlt).le hwidth.le
  unfold pieceCount
  rw [h, Exact.rational_sub, Exact.rational_div _ hwidth.ne']
  change Exact.rational ((⌈(stop - start) / width⌉ : ℤ) : ℚ) = _
  rw [stepsAcross, natCast_ceil_eq_intCast_ceil hpos]

theorem stepCount_rational (hcount : s.pieceCount (.rational start) (.rational stop) = .rational n)
    (hmax : n ≤ s.maxPieces) (hword : s.maxPieces < 2 ^ 64) :
    s.stepCount (.rational start) (.rational stop) = n := by
  have hcast : (n : ℚ) ≤ s.maxPieces := Nat.cast_le.mpr hmax
  unfold stepCount
  rw [hcount, Exact.scalarOfNat_eq, Exact.min_rational, min_eq_left hcast]
  change min ⌊(n : ℚ)⌋.toNat (2 ^ 64 - 1) = n
  rw [Int.floor_natCast, Int.toNat_natCast]
  omega

theorem tiles_range (hlt : start < stop) (hwidth : 0 < width) :
    Tiles (.rational width) (.rational stop) (.rational start)
      ((List.range (stepsAcross start stop width)).map
        (step (.rational start) (.rational stop) (.rational width : Exact E))) := by
  obtain ⟨remaining, hremaining⟩ : ∃ remaining, stepsAcross start stop width = remaining + 1 := by
    have hpos : 0 < stepsAcross start stop width := by
      rw [lt_stepsAcross hwidth]
      simpa using hlt
    exact ⟨_, (Nat.succ_pred_eq_of_pos hpos).symm⟩
  have hlast : start + (0 + remaining : ℕ) * width < stop := by
    rw [← lt_stepsAcross hwidth]
    omega
  have hstop : stop ≤ start + (0 + remaining + 1 : ℕ) * width := by
    rw [← not_lt, ← lt_stepsAcross hwidth]
    omega
  have htiles := tiles_steps (E := E) hwidth hlast hstop
  rwa [Nat.cast_zero, zero_mul, add_zero, ← hremaining, ← List.range_eq_range'] at htiles

/-- No step is empty. -/
theorem pieces_eq_map_step (hlt : start < stop) (hwidth : 0 < width)
    (h : s.pieceWidth (.rational start) (.rational stop) = .rational width)
    (hsteps : s.stepCount (.rational start) (.rational stop) = stepsAcross start stop width) :
    s.pieces (.rational start) (.rational stop) =
      (List.range (stepsAcross start stop width)).map
        (step (.rational start) (.rational stop) (.rational width)) := by
  unfold pieces
  rw [h, hsteps]
  exact List.filter_eq_self.mpr fun piece hpiece =>
    decide_eq_true ((tiles_range hlt hwidth).lt_of_mem piece hpiece)

theorem stepsAcross_le (hwidth : 0 < width) (h : stop - start ≤ n * width) :
    stepsAcross start stop width ≤ n :=
  Nat.ceil_le.mpr ((div_le_iff₀ hwidth).mpr h)

/-- In a wide range the pieces are as wide as the target asks. -/
theorem exists_pieceWidth_eq {granularity : ℚ} (hs : s.granularity = .rational granularity)
    (hgranularity : 0 < granularity) (htarget : s.targetPieces ≠ 0) :
    ∃ width, s.pieceWidth (.rational start) (.rational stop) = .rational width ∧ 0 < width ∧
      (s.widenAbove < .rational (stop - start) → stop - start ≤ s.targetPieces * width) := by
  have hcast : (0 : ℚ) < s.targetPieces := Nat.cast_pos.mpr (Nat.pos_of_ne_zero htarget)
  unfold pieceWidth
  dsimp only
  rw [Exact.rational_sub, hs, Exact.scalarOfNat_eq, Exact.rational_div _ hcast.ne',
    Exact.max_rational]
  split
  · refine ⟨_, rfl, lt_max_of_lt_left hgranularity, fun _ => ?_⟩
    calc stop - start = s.targetPieces * ((stop - start) / s.targetPieces) :=
          (mul_div_cancel₀ _ hcast.ne').symm
      _ ≤ s.targetPieces * max granularity ((stop - start) / s.targetPieces) :=
          mul_le_mul_of_nonneg_left (le_max_right _ _) hcast.le
  · next hnarrow => exact ⟨granularity, rfl, hgranularity, fun hwide => absurd hwide hnarrow⟩

/-- What is promised of the pieces of a range. -/
structure Fills (s : Sweep (Exact E)) (start stop : Exact E) : Prop where
  tiles : Tiles (s.pieceWidth start stop) stop start (s.pieces start stop)
  count : s.pieceCount start stop = Scalar.ofNat (s.pieces start stop).length
  limit : (s.pieces start stop).length ≤ s.maxPieces
  target : s.widenAbove < stop - start → (s.pieces start stop).length ≤ s.targetPieces
  reached : ∀ x, start ≤ x → x ≤ stop → ∃ piece ∈ s.pieces start stop, piece.1 ≤ x ∧ x ≤ piece.2

/-- **The pieces fill the range** of every sweep that is not refused, when the limit on their number
fits a machine word. -/
theorem pieces_fill (s : Sweep (Exact E)) (start stop : Exact E) (hword : s.maxPieces < 2 ^ 64)
    (hfault : s.fault? start stop = none) : s.Fills start stop := by
  have hadmits := fault?_eq_none_iff.mp hfault
  obtain ⟨start, rfl⟩ := Exact.exists_rational_of_isFinite hadmits.finite.1
  obtain ⟨stop, rfl⟩ := Exact.exists_rational_of_isFinite hadmits.finite.2
  obtain ⟨granularity, hgranularity⟩ := Exact.exists_rational_of_isFinite hadmits.granularity.2
  have hlt : start < stop := by simpa using hadmits.ordered
  have hpos : 0 < granularity := by simpa [hgranularity] using hadmits.granularity.1
  obtain ⟨width, hwidth, hwidthPos, htarget⟩ :=
    exists_pieceWidth_eq hgranularity hpos hadmits.target
  have hcount := pieceCount_rational hlt hwidthPos hwidth
  have hlimit : stepsAcross start stop width ≤ s.maxPieces := by
    have hle := hadmits.count
    rwa [hcount, Exact.scalarOfNat_eq, Exact.rational_le_rational, Nat.cast_le] at hle
  have hpieces := pieces_eq_map_step hlt hwidthPos hwidth (stepCount_rational hcount hlimit hword)
  have hlength : (s.pieces (.rational start) (.rational stop)).length =
      stepsAcross start stop width := by
    rw [hpieces, List.length_map, List.length_range]
  have htiles : Tiles (.rational width) (.rational stop) (.rational start)
      (s.pieces (.rational start) (.rational stop)) := hpieces ▸ tiles_range hlt hwidthPos
  exact
    { tiles := hwidth ▸ htiles
      count := by rw [hlength, hcount, Exact.scalarOfNat_eq]
      limit := hlength ▸ hlimit
      target := fun hwide => hlength ▸ stepsAcross_le hwidthPos (htarget hwide)
      reached := fun _ hlower hupper => htiles.exists_mem hlower hupper }

/-- A wide range that the granularity does not divide. -/
theorem pieces_fill_remainder :
    let s : Sweep (Exact .rationalPart) :=
      { granularity := .rational (3 / 2), widenAbove := .rational 2, targetPieces := 4 }
    let start : Exact .rationalPart := .rational (-1)
    let stop : Exact .rationalPart := .rational 3
    s.maxPieces < 2 ^ 64 ∧ s.fault? start stop = none ∧
      s.pieces start stop = [(.rational (-1), .rational (1 / 2)), (.rational (1 / 2), .rational 2),
        (.rational 2, .rational 3)] ∧ s.Fills start stop := by
  intro s start stop
  have hword : s.maxPieces < 2 ^ 64 := by decide
  have hfault : s.fault? start stop = none := by decide +kernel
  exact ⟨hword, hfault, by decide +kernel, pieces_fill s start stop hword hfault⟩

end Univariate.Root.Sweep
