import Mathlib.Tactic.Linarith
import Univariate.Proofs.Root.Bisection
import Univariate.Proofs.Root.Search

/-!
# What bisection looks at

The points at which a run asks for the value of its function. Nothing but the values there counts,
and when one of them is below the tolerance, so is the value at the root. A tolerance of zero lets
exact zeros go by, and then no answer of exact arithmetic has converged.
-/

namespace Univariate.Root.Bisection

section Probes

variable {α : Type} [Scalar α] {s : Bisection α} {f g : α → α} {a b lo hi x : α} {r : Outcome α}
  {bracket : Bracket α} {done remaining : Nat}

/-- The midpoints of the brackets that a search goes through. -/
def midpoints (s : Bisection α) (f : α → α) (bracket : Bracket α) : Nat → List α
  | 0 => [bracket.midpoint]
  | remaining + 1 =>
    bracket.midpoint ::
      if s.tolerance < bracket.width ∧ s.goesOn (f bracket.midpoint) = true then
        midpoints s f (bracket.half (f bracket.midpoint)) remaining
      else []

def probesOrdered (s : Bisection α) (f : α → α) (lo hi : α) : List α :=
  lo :: hi ::
    if s.opens (f lo) (f hi) = true then midpoints s f ⟨lo, hi, f lo⟩ s.maxIterations else []

/-- The points at which a run looks at its function. -/
def probes (s : Bisection α) (f : α → α) (a b : α) : List α :=
  if !Scalar.isFinite a || !Scalar.isFinite b || a == b then []
  else if b < a then probesOrdered s f b a
  else probesOrdered s f a b

theorem mem_midpoints_self : bracket.midpoint ∈ s.midpoints f bracket remaining := by
  cases remaining with
  | zero => exact List.mem_singleton_self _
  | succ remaining => exact List.mem_cons_self

theorem mem_midpoints_of_goesOn (hwide : s.tolerance < bracket.width)
    (hgoesOn : s.goesOn (f bracket.midpoint) = true)
    (hx : x ∈ s.midpoints f (bracket.half (f bracket.midpoint)) remaining) :
    x ∈ s.midpoints f bracket (remaining + 1) := by
  unfold midpoints
  rw [if_pos ⟨hwide, hgoesOn⟩]
  exact List.mem_cons_of_mem _ hx

theorem refine_congr (h : ∀ x ∈ s.midpoints f bracket remaining, g x = f x) :
    s.refine g done bracket remaining = s.refine f done bracket remaining := by
  have hmidpoint : g bracket.midpoint = f bracket.midpoint := h _ mem_midpoints_self
  induction remaining generalizing done bracket with
  | zero => simp only [refine, finish, hmidpoint]
  | succ remaining ih =>
      by_cases hgoesOn : s.tolerance < bracket.width ∧ s.goesOn (f bracket.midpoint) = true
      · obtain ⟨hwide, hgoesOn⟩ := hgoesOn
        have hrest := fun x hx => h x (mem_midpoints_of_goesOn hwide hgoesOn hx)
        rw [refine_of_goesOn hwide (hmidpoint.symm ▸ hgoesOn), refine_of_goesOn hwide hgoesOn,
          hmidpoint]
        exact ih hrest (hrest _ mem_midpoints_self)
      · -- The step ends here, and its result names no value but the one at the midpoint.
        unfold refine
        simp only [finish, hmidpoint]
        split
        · next hwide =>
            split
            · rfl
            · next hcalm =>
                split
                · rfl
                · next hlarge =>
                    simp only [Bool.or_eq_true, Bool.not_eq_true', not_or, Bool.not_eq_false,
                      decide_eq_true_eq] at hcalm
                    exact absurd ⟨hwide, goesOn_iff.mpr ⟨hcalm.1, hcalm.2, hlarge⟩⟩ hgoesOn
        · rfl

theorem runOrdered_congr (h : ∀ x ∈ s.probesOrdered f lo hi, g x = f x) :
    s.runOrdered g lo hi = s.runOrdered f lo hi := by
  have hlo : g lo = f lo := h _ List.mem_cons_self
  have hhi : g hi = f hi := h _ (List.mem_cons_of_mem _ List.mem_cons_self)
  unfold runOrdered
  rw [hlo, hhi]
  dsimp only
  split
  · rfl
  · next hfinite =>
      split
      · rfl
      · next hsign =>
          split
          · rfl
          · next hlarge =>
              split
              · rfl
              · next hlargeHi =>
                  simp only [Bool.or_eq_true, Bool.not_eq_true', not_or, Bool.not_eq_false]
                    at hfinite
                  have hopens : s.opens (f lo) (f hi) = true :=
                    opens_iff.mpr ⟨hfinite.1, hfinite.2, hsign, hlarge, hlargeHi⟩
                  apply refine_congr
                  intro x hx
                  apply h
                  unfold probesOrdered
                  rw [if_pos hopens]
                  exact List.mem_cons_of_mem _ (List.mem_cons_of_mem _ hx)

/-- **A run depends on nothing but the values at its probes.** -/
theorem run_congr (h : ∀ x ∈ s.probes f a b, g x = f x) : s.run g a b = s.run f a b := by
  unfold probes at h
  unfold run
  split
  · rfl
  · next hends =>
      rw [if_neg hends] at h
      split
      · next hless => exact runOrdered_congr (by rwa [if_pos hless] at h)
      · next hle => exact runOrdered_congr (by rwa [if_neg hle] at h)

/-! ### Small values -/

theorem refine_small (hr : s.refine f done bracket remaining = .ok r)
    (hx : x ∈ s.midpoints f bracket remaining) (hsmall : Scalar.abs (f x) < s.tolerance) :
    Scalar.abs (f r.root) < s.tolerance := by
  induction remaining generalizing done bracket with
  | zero =>
      cases hr
      rwa [List.mem_singleton.mp hx] at hsmall
  | succ remaining ih =>
      unfold midpoints at hx
      rcases refine_succ_eq_ok hr with ⟨hnarrow, rfl⟩ | ⟨-, -, hmidpoint, rfl⟩ |
        ⟨hwide, hgoesOn, hrest⟩
      · rw [if_neg fun h => hnarrow h.1] at hx
        rwa [List.mem_singleton.mp hx] at hsmall
      · exact hmidpoint
      · rw [if_pos ⟨hwide, hgoesOn⟩] at hx
        rcases List.mem_cons.mp hx with rfl | hx
        · exact absurd hsmall (goesOn_iff.mp hgoesOn).2.2
        · exact ih hrest hx

theorem runOrdered_small (hr : s.runOrdered f lo hi = .ok r) (hx : x ∈ s.probesOrdered f lo hi)
    (hsmall : Scalar.abs (f x) < s.tolerance) : Scalar.abs (f r.root) < s.tolerance := by
  obtain ⟨-, -, -, ⟨hlo, rfl⟩ | ⟨hhi, rfl⟩ | ⟨hopens, hrest⟩⟩ := runOrdered_eq_ok hr
  · exact hlo
  · exact hhi
  · obtain ⟨-, -, -, hlo, hhi⟩ := opens_iff.mp hopens
    unfold probesOrdered at hx
    rw [if_pos hopens] at hx
    rcases List.mem_cons.mp hx with rfl | hx
    · exact absurd hsmall hlo
    · rcases List.mem_cons.mp hx with rfl | hx
      · exact absurd hsmall hhi
      · exact refine_small hrest hx hsmall

/-- A small value at any probe makes the value at the root small. -/
theorem run_small (hr : s.run f a b = .ok r) (hx : x ∈ s.probes f a b)
    (hsmall : Scalar.abs (f x) < s.tolerance) : Scalar.abs (f r.root) < s.tolerance := by
  obtain ⟨ha, hb, hne, hordered⟩ := run_eq_ok hr
  unfold probes at hx
  rw [ha, hb, hne, if_neg (by decide)] at hx
  rcases hordered with ⟨hless, hrest⟩ | ⟨hle, hrest⟩
  · rw [if_pos hless] at hx
    exact runOrdered_small hrest hx hsmall
  · rw [if_neg hle] at hx
    exact runOrdered_small hrest hx hsmall

end Probes

/-! ### Exact zeros -/

variable {E : Elementary} {s : Bisection (Exact E)} {f : Exact E → Exact E} {lo hi tolerance : ℚ}
  {a b atLo : Exact E} {r : Outcome (Exact E)} {done remaining : ℕ}

theorem half_rational (hlt : lo < hi) (value : Exact E) :
    ∃ lo' hi' atLo', Bracket.half ⟨.rational lo, .rational hi, atLo⟩ value =
      ⟨.rational lo', .rational hi', atLo'⟩ ∧ lo' < hi' := by
  unfold Bracket.half
  rw [Bracket.midpoint_rational]
  split
  · exact ⟨lo, (lo + hi) / 2, atLo, rfl, by linarith⟩
  · exact ⟨(lo + hi) / 2, hi, value, rfl, by linarith⟩

theorem not_abs_lt_zero (x : Exact E) : ¬Scalar.abs x < .rational 0 := by
  cases x with
  | rational q => simp
  | notFinite => exact Exact.not_notFinite_lt _

/-- No bracket is as narrow as nothing, and no value as small. -/
theorem refine_of_tolerance_zero (hs : s.tolerance = .rational 0) (hlt : lo < hi)
    (hr : s.refine f done ⟨.rational lo, .rational hi, atLo⟩ remaining = .ok r) :
    r.converged = false ∧ r.iterations = done + remaining := by
  have hwide : s.tolerance < Bracket.width ⟨.rational lo, .rational hi, atLo⟩ := by
    rw [hs, Bracket.width_rational, Exact.rational_lt_rational]
    linarith
  induction remaining generalizing done lo hi atLo with
  | zero =>
      cases hr
      exact ⟨decide_eq_false (Scalar.not_ge_of_lt hwide), rfl⟩
  | succ remaining ih =>
      rcases refine_succ_eq_ok hr with ⟨hnarrow, -⟩ | ⟨-, -, hsmall, -⟩ | ⟨-, -, hrest⟩
      · exact absurd hwide hnarrow
      · rw [hs] at hsmall
        exact absurd hsmall (not_abs_lt_zero _)
      · obtain ⟨lo', hi', atLo', hhalf, hlt'⟩ := half_rational hlt _
        rw [hhalf] at hrest
        have hanswer := ih hlt' hrest ?_
        · rwa [Nat.add_right_comm] at hanswer
        · rw [hs, Bracket.width_rational, Exact.rational_lt_rational]
          linarith

theorem runOrdered_of_tolerance_zero (hs : s.tolerance = .rational 0) (hlt : lo < hi)
    (hr : s.runOrdered f (.rational lo) (.rational hi) = .ok r) :
    r.converged = false ∧ r.iterations = s.maxIterations := by
  obtain ⟨-, -, -, ⟨hsmall, -⟩ | ⟨hsmall, -⟩ | ⟨-, hrest⟩⟩ := runOrdered_eq_ok hr
  · exact absurd (hs ▸ hsmall) (not_abs_lt_zero _)
  · exact absurd (hs ▸ hsmall) (not_abs_lt_zero _)
  · simpa using refine_of_tolerance_zero hs hlt hrest

theorem run_of_tolerance_zero (hs : s.tolerance = .rational 0) (hr : s.run f a b = .ok r) :
    r.converged = false ∧ r.iterations = s.maxIterations := by
  obtain ⟨ha, hb, hne, hordered⟩ := run_eq_ok hr
  obtain ⟨a, rfl⟩ := Exact.exists_rational_of_isFinite ha
  obtain ⟨b, rfl⟩ := Exact.exists_rational_of_isFinite hb
  rcases hordered with ⟨hless, hrest⟩ | ⟨hle, hrest⟩
  · exact runOrdered_of_tolerance_zero hs (by simpa using hless) hrest
  · have hab : a ≠ b := by simpa using hne
    exact runOrdered_of_tolerance_zero hs (lt_of_le_of_ne (by simpa using hle) hab) hrest

/-- When the function is zero at a probe, it is so at the root, or nearly. -/
def KeepsZeros (s : Bisection (Exact E)) (f : Exact E → Exact E) (a b : Exact E)
    (r : Outcome (Exact E)) : Prop :=
  (∃ x ∈ s.probes f a b, f x = .rational 0) →
    f r.root = .rational 0 ∨ Scalar.abs (f r.root) < s.tolerance

/-- **A zero that was looked at is kept** to within the tolerance, when there is one. Without a
tolerance an answer comes after the last step, and says that it has not converged. -/
theorem run_keepsZeros (s : Bisection (Exact E)) (f : Exact E → Exact E) (a b : Exact E)
    (tolerance : ℚ) (r : Outcome (Exact E)) (hs : s.tolerance = .rational tolerance)
    (hr : s.run f a b = .ok r) :
    (0 < tolerance → s.KeepsZeros f a b r) ∧
      (tolerance = 0 → r.converged = false ∧ r.iterations = s.maxIterations) := by
  constructor
  · rintro htolerance ⟨x, hx, hzero⟩
    have hsmall : Scalar.abs (f x) < s.tolerance := by
      rw [hzero, hs]
      simpa using htolerance
    exact .inr (run_small hr hx hsmall)
  · rintro rfl
    exact run_of_tolerance_zero hs hr

/-- The lower end is small enough, although the upper end is a zero. -/
theorem run_keepsZeros_small_end :
    let s : Bisection (Exact .rationalPart) := { tolerance := .rational (1 / 10) }
    let f : Exact .rationalPart → Exact .rationalPart := fun x => (x - 1) / 100
    let r : Outcome (Exact .rationalPart) :=
      { root := .rational 0, value := .rational (-1 / 100), iterations := 0, converged := true }
    s.run f (.rational 1) (.rational 0) = .ok r ∧
      .rational 1 ∈ s.probes f (.rational 1) (.rational 0) ∧ f (.rational 1) = .rational 0 ∧
      (f r.root = .rational 0 ∨ Scalar.abs (f r.root) < s.tolerance) := by
  intro s f r
  have hr : s.run f (.rational 1) (.rational 0) = .ok r := by decide +kernel
  have hprobes : s.probes f (.rational 1) (.rational 0) = [.rational 0, .rational 1] := by
    decide +kernel
  have hx : .rational 1 ∈ s.probes f (.rational 1) (.rational 0) :=
    hprobes ▸ List.mem_cons_of_mem _ (List.mem_singleton_self _)
  have hzero : f (.rational 1) = .rational 0 := by decide +kernel
  exact ⟨hr, hx, hzero,
    (run_keepsZeros s f _ _ (1 / 10) r rfl hr).1 (by norm_num) ⟨_, hx, hzero⟩⟩

/-- Without a tolerance the half beside a zero is dropped, and the search ends far from it. -/
theorem not_keepsZeros_of_tolerance_zero :
    let s : Bisection (Exact .rationalPart) := { tolerance := .rational 0 }
    let f : Exact .rationalPart → Exact .rationalPart := fun x => x
    let r : Outcome (Exact .rationalPart) :=
      { root := .rational (1 - 1 / 2 ^ 101)
        value := .rational (1 - 1 / 2 ^ 101)
        iterations := 100
        converged := false }
    .rational 0 ≤ s.tolerance ∧ s.run f (.rational 0) (.rational 1) = .ok r ∧
      ¬s.KeepsZeros f (.rational 0) (.rational 1) r := by
  intro s f r
  have hr : s.run f (.rational 0) (.rational 1) = .ok r := by decide +kernel
  refine ⟨by decide +kernel, hr, fun hkeeps => ?_⟩
  have hhead : (s.probes f (.rational 0) (.rational 1)).head? = some (.rational 0) := by
    decide +kernel
  have hx : .rational 0 ∈ s.probes f (.rational 0) (.rational 1) := List.mem_of_mem_head? hhead
  rcases hkeeps ⟨_, hx, rfl⟩ with hzero | hsmall
  · exact absurd hzero (by decide +kernel)
  · exact not_abs_lt_zero _ hsmall

end Univariate.Root.Bisection
