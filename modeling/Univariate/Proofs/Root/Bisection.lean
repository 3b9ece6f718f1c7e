import Mathlib.Algebra.Order.Group.MinMax
import Mathlib.Tactic.Linarith
import Mathlib.Tactic.Ring
import Univariate.Proofs.Root.Search
import Univariate.Proofs.Scalar.Exact

/-!
# Bisection

Over exact arithmetic every step halves a bracket at whose ends the values do not have the same
sign. The value at the lower end stays at least as large as the tolerance, which is what lets the
step decide by that value alone.
-/

namespace Univariate.Root

variable {E : Elementary} {f : Exact E → Exact E} {a b tolerance lo hi u w : ℚ} {n limit : ℕ}

/-- The values at both ends are finite and not of one strict sign. -/
def ChangesSign (f : Exact E → Exact E) (lo hi : ℚ) : Prop :=
  ∃ u v, f (.rational lo) = .rational u ∧ f (.rational hi) = .rational v ∧ u * v ≤ 0

/-- A bracket that so many halvings leave of the interval between `a` and `b`. -/
structure Halved (f : Exact E → Exact E) (a b : ℚ) (n : ℕ) (lo hi : ℚ) : Prop where
  lower : min a b ≤ lo
  upper : hi ≤ max a b
  width : hi - lo = |b - a| / 2 ^ n
  changesSign : ChangesSign f lo hi

namespace Halved

theorem le (h : Halved f a b n lo hi) : lo ≤ hi := by
  have hwidth : 0 ≤ |b - a| / 2 ^ n := by positivity
  linarith [h.width]

theorem width_half (h : Halved f a b n lo hi) : (hi - lo) / 2 = |b - a| / 2 ^ (n + 1) := by
  rw [h.width, pow_succ, div_div]

theorem swap (h : Halved f b a n lo hi) : Halved f a b n lo hi where
  lower := min_comm a b ▸ h.lower
  upper := max_comm a b ▸ h.upper
  width := abs_sub_comm a b ▸ h.width
  changesSign := h.changesSign

end Halved

/-- What is known while the search goes on: the value at the lower end is no root yet. -/
structure Searching (f : Exact E → Exact E) (a b tolerance : ℚ) (n : ℕ) (lo hi u : ℚ) : Prop
    extends Halved f a b n lo hi where
  atLo : f (.rational lo) = .rational u
  large : tolerance ≤ |u|

/-- What an answer says about the interval between `a` and `b`. -/
structure Outcome.Answers (f : Exact E → Exact E) (a b tolerance : ℚ) (limit : ℕ)
    (r : Outcome (Exact E)) : Prop where
  root : ∃ root, r.root = .rational root ∧ min a b ≤ root ∧ root ≤ max a b
  value : r.value = f r.root
  iterations : r.iterations ≤ limit
  /-- A small value, or the midpoint of the last bracket. -/
  reason : (∃ w, f r.root = .rational w ∧ |w| < tolerance ∧ r.converged = true) ∨
    ∃ lo hi, Halved f a b r.iterations lo hi ∧ r.root = .rational ((lo + hi) / 2) ∧
      (r.converged = true ↔ hi - lo ≤ tolerance)
  unconverged : r.converged = false → r.iterations = limit

namespace Outcome.Answers

variable {r : Outcome (Exact E)}

theorem swap (h : r.Answers f b a tolerance limit) : r.Answers f a b tolerance limit where
  root := by
    obtain ⟨root, hroot, hlower, hupper⟩ := h.root
    exact ⟨root, hroot, min_comm a b ▸ hlower, max_comm a b ▸ hupper⟩
  value := h.value
  iterations := h.iterations
  reason := h.reason.imp_right fun ⟨lo, hi, hbracket, hrest⟩ => ⟨lo, hi, hbracket.swap, hrest⟩
  unconverged := h.unconverged

theorem converged_of_le (h : r.Answers f a b tolerance limit)
    (hlimit : |b - a| ≤ tolerance * 2 ^ limit) : r.converged = true := by
  by_contra hconverged
  have hiterations := h.unconverged (by simpa using hconverged)
  rcases h.reason with ⟨w, -, -, hw⟩ | ⟨lo, hi, hbracket, -, hwidth⟩
  · exact hconverged hw
  · apply hconverged
    rw [hwidth, hbracket.width, hiterations, div_le_iff₀ (by positivity)]
    exact hlimit

end Outcome.Answers

namespace Bracket

@[simp]
theorem width_rational (atLo : Exact E) :
    width ⟨.rational lo, .rational hi, atLo⟩ = .rational (hi - lo) := rfl

@[simp]
theorem midpoint_rational (atLo : Exact E) :
    midpoint ⟨.rational lo, .rational hi, atLo⟩ = .rational ((lo + hi) / 2) := by
  have htwo : ((2 : ℕ) : ℚ) ≠ 0 := by norm_num
  unfold midpoint
  rw [Exact.rational_add, Exact.ofNat_eq, Exact.rational_div _ htwo, Nat.cast_ofNat]

/-- **One step.** A half of a bracket is a bracket. -/
theorem half_searching (htolerance : 0 < tolerance) (h : Searching f a b tolerance n lo hi u)
    (hw : f (.rational ((lo + hi) / 2)) = .rational w) (hlarge : tolerance ≤ |w|) :
    ∃ lo' hi' u', half ⟨.rational lo, .rational hi, .rational u⟩ (.rational w : Exact E) =
        ⟨.rational lo', .rational hi', .rational u'⟩ ∧
      Searching f a b tolerance (n + 1) lo' hi' u' := by
  have hhalf := h.width_half
  have hle := h.le
  obtain ⟨u', v, hu, hv, hsign⟩ := h.changesSign
  obtain rfl : u = u' := Exact.rational.inj (h.atLo.symm.trans hu)
  unfold half
  rw [midpoint_rational]
  dsimp only
  by_cases hproduct : u * w < 0
  · have hless : (.rational u * .rational w : Exact E) < 0 := by
      simpa using hproduct
    rw [if_pos hless]
    refine ⟨lo, (lo + hi) / 2, u, rfl, ⟨⟨h.lower, ?_, ?_, u, w, hu, hw, hproduct.le⟩, hu, h.large⟩⟩
    · linarith [h.upper]
    · rw [← hhalf]
      ring
  · have hless : ¬(.rational u * .rational w : Exact E) < 0 := by
      simpa using hproduct
    rw [if_neg hless]
    have hu0 : u ≠ 0 := abs_pos.mp (htolerance.trans_le h.large)
    have hsign' : w * v ≤ 0 := by
      have hsquare : u ^ 2 * (w * v) ≤ 0 := by
        calc u ^ 2 * (w * v) = (u * w) * (u * v) := by ring
          _ ≤ 0 := mul_nonpos_of_nonneg_of_nonpos (not_lt.mp hproduct) hsign
      exact nonpos_of_mul_nonpos_right hsquare (by positivity)
    refine ⟨(lo + hi) / 2, hi, w, rfl, ⟨⟨?_, h.upper, ?_, w, v, hw, hv, hsign'⟩, hw, hlarge⟩⟩
    · linarith [h.lower]
    · rw [← hhalf]
      ring

end Bracket

namespace Bisection

variable {s : Bisection (Exact E)}

theorem finish_answers (hs : s.tolerance = .rational tolerance) (h : Halved f a b n lo hi)
    (hn : n ≤ limit) (hstop : n = limit ∨ hi - lo ≤ tolerance) (atLo : Exact E) :
    (s.finish f n ⟨.rational lo, .rational hi, atLo⟩).Answers f a b tolerance limit := by
  have hle := h.le
  have hconverged : (s.finish f n ⟨.rational lo, .rational hi, atLo⟩).converged = true ↔
      hi - lo ≤ tolerance := by
    simp [finish, hs]
  refine ⟨⟨(lo + hi) / 2, ?_, ?_, ?_⟩, ?_, hn, Or.inr ⟨lo, hi, h, ?_, hconverged⟩, fun hfalse => ?_⟩
  · exact Bracket.midpoint_rational atLo
  · linarith [h.lower]
  · linarith [h.upper]
  · rfl
  · exact Bracket.midpoint_rational atLo
  · rcases hstop with hstop | hstop
    · exact hstop
    · rw [hconverged.mpr hstop] at hfalse
      exact Bool.noConfusion hfalse

theorem small_answers {root : ℚ} (hlower : min a b ≤ root) (hupper : root ≤ max a b)
    (hw : f (.rational root) = .rational w) (hsmall : |w| < tolerance) (hn : n ≤ limit) :
    Outcome.Answers f a b tolerance limit
      { root := .rational root, value := .rational w, iterations := n, converged := true } where
  root := ⟨root, rfl, hlower, hupper⟩
  value := hw.symm
  iterations := hn
  reason := Or.inl ⟨w, hw, hsmall, rfl⟩
  unconverged hfalse := Bool.noConfusion hfalse

/-- **The whole search.** Every step keeps the bracket, so the answer of the last one holds. -/
theorem refine_answers (htolerance : 0 < tolerance) (hs : s.tolerance = .rational tolerance)
    {remaining : ℕ} (h : Searching f a b tolerance n lo hi u) {r : Outcome (Exact E)}
    (hr : s.refine f n ⟨.rational lo, .rational hi, .rational u⟩ remaining = .ok r) :
    r.Answers f a b tolerance (n + remaining) := by
  induction remaining generalizing n lo hi u with
  | zero =>
      cases hr
      exact finish_answers hs h.toHalved (le_refl n) (Or.inl rfl) _
  | succ remaining ih =>
      have hle := h.le
      rcases refine_succ_eq_ok hr with ⟨hnarrow, rfl⟩ | ⟨-, hfinite, hsmall, rfl⟩ |
        ⟨-, hgoesOn, hrest⟩
      · have hwidth : hi - lo ≤ tolerance := by simpa [hs] using hnarrow
        exact finish_answers hs h.toHalved (by omega) (Or.inr hwidth) _
      · rw [Bracket.midpoint_rational] at hfinite hsmall ⊢
        obtain ⟨w, hw⟩ := Exact.exists_rational_of_isFinite hfinite
        rw [hw, hs] at hsmall
        rw [hw]
        refine small_answers ?_ ?_ hw (by simpa using hsmall) (by omega)
        · linarith [h.lower]
        · linarith [h.upper]
      · rw [Bracket.midpoint_rational] at hgoesOn hrest
        obtain ⟨hfinite, -, hlarge⟩ := goesOn_iff.mp hgoesOn
        obtain ⟨w, hw⟩ := Exact.exists_rational_of_isFinite hfinite
        rw [hw, hs] at hlarge
        obtain ⟨lo', hi', u', hhalf, hnext⟩ :=
          Bracket.half_searching htolerance h hw (by simpa using hlarge)
        rw [hw, hhalf] at hrest
        have hanswer := ih hnext hrest
        rwa [Nat.add_right_comm] at hanswer

theorem runOrdered_answers (htolerance : 0 < tolerance) (hs : s.tolerance = .rational tolerance)
    (hab : a < b) {r : Outcome (Exact E)}
    (hr : s.runOrdered f (.rational a) (.rational b) = .ok r) :
    r.Answers f a b tolerance s.maxIterations := by
  obtain ⟨hfiniteLo, hfiniteHi, hsign, hcases⟩ := runOrdered_eq_ok hr
  obtain ⟨u, hu⟩ := Exact.exists_rational_of_isFinite hfiniteLo
  obtain ⟨v, hv⟩ := Exact.exists_rational_of_isFinite hfiniteHi
  rw [hu, hv] at hsign hcases
  rw [hs] at hcases
  rcases hcases with ⟨hsmall, rfl⟩ | ⟨hsmall, rfl⟩ | ⟨hopens, hrest⟩
  · exact small_answers (min_le_left a b) (le_max_left a b) hu (by simpa using hsmall)
      (Nat.zero_le _)
  · exact small_answers (min_le_right a b) (le_max_right a b) hv (by simpa using hsmall)
      (Nat.zero_le _)
  · have hlarge : tolerance ≤ |u| := by simpa [hs] using (opens_iff.mp hopens).2.2.2.1
    have hstart : Halved f a b 0 a b :=
      ⟨min_le_left a b, le_max_right a b,
        by rw [pow_zero, div_one, abs_of_pos (sub_pos.mpr hab)], u, v, hu, hv, by simpa using hsign⟩
    have hanswer := refine_answers htolerance hs ⟨hstart, hu, hlarge⟩ hrest
    rwa [Nat.zero_add] at hanswer

/-- **Bisection keeps its promise.** An answer is a small value, or the midpoint of a bracket of
known width around a change of sign; and it has converged whenever the steps suffice for the
tolerance. -/
theorem run_answers (s : Bisection (Exact E)) (f : Exact E → Exact E) (a b tolerance : ℚ)
    (htolerance : 0 < tolerance) (hs : s.tolerance = .rational tolerance) (hab : a ≠ b)
    (r : Outcome (Exact E)) (hr : s.run f (.rational a) (.rational b) = .ok r) :
    r.Answers f a b tolerance s.maxIterations ∧
      (|b - a| ≤ tolerance * 2 ^ s.maxIterations → r.converged = true) := by
  have hanswer : r.Answers f a b tolerance s.maxIterations := by
    unfold run at hr
    split at hr
    · simp at hr
    · split at hr
      · next hless => exact (runOrdered_answers htolerance hs (by simpa using hless) hr).swap
      · next hless =>
          have hle : a ≤ b := by simpa using hless
          exact runOrdered_answers htolerance hs (lt_of_le_of_ne hle hab) hr
  exact ⟨hanswer, hanswer.converged_of_le⟩

theorem run_answers_sqrt_two :
    let s : Bisection (Exact .rationalPart) :=
      { tolerance := .rational (1 / 10), maxIterations := 2 }
    let f : Exact .rationalPart → Exact .rationalPart := fun x => x * x - 2
    let r : Outcome (Exact .rationalPart) :=
      { root := .rational (11 / 8)
        value := .rational (-7 / 64)
        iterations := 2
        converged := false }
    s.run f (.rational 2) (.rational 1) = .ok r ∧ r.Answers f 2 1 (1 / 10) 2 ∧
      (|(1 : ℚ) - 2| ≤ 1 / 10 * 2 ^ 2 → r.converged = true) := by
  intro s f r
  have hr : s.run f (.rational 2) (.rational 1) = .ok r := by decide +kernel
  exact ⟨hr, run_answers s f 2 1 (1 / 10) (by norm_num) rfl (by norm_num) r hr⟩

end Bisection

end Univariate.Root
