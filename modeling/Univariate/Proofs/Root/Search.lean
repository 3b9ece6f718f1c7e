import Univariate.Root.Bisection

/-!
# Steps of a search

What each step of bisection can do, and where its answers come from.
-/

namespace Univariate.Root.Bisection

variable {α : Type} [Scalar α] {s : Bisection α} {f : α → α} {a b lo hi value : α} {r : Outcome α}
  {bracket : Bracket α} {done remaining : Nat}

/-- Whether a search goes on from a midpoint with this value. -/
def goesOn (s : Bisection α) (value : α) : Bool :=
  Scalar.isFinite value && !(divergenceGuard < Scalar.abs value) &&
    !(Scalar.abs value < s.tolerance)

/-- Whether there is something to search between ends with these values. -/
def opens (s : Bisection α) (atLo atHi : α) : Bool :=
  Scalar.isFinite atLo && Scalar.isFinite atHi && !(0 < atLo * atHi) &&
    !(Scalar.abs atLo < s.tolerance) && !(Scalar.abs atHi < s.tolerance)

theorem goesOn_iff :
    s.goesOn value = true ↔ Scalar.isFinite value = true ∧
      ¬divergenceGuard < Scalar.abs value ∧ ¬Scalar.abs value < s.tolerance := by
  simp [goesOn, and_assoc]

theorem opens_iff {atLo atHi : α} :
    s.opens atLo atHi = true ↔ Scalar.isFinite atLo = true ∧ Scalar.isFinite atHi = true ∧
      ¬0 < atLo * atHi ∧ ¬Scalar.abs atLo < s.tolerance ∧ ¬Scalar.abs atHi < s.tolerance := by
  simp [opens, and_assoc]

theorem refine_of_goesOn (hwide : s.tolerance < bracket.width)
    (hgoesOn : s.goesOn (f bracket.midpoint) = true) :
    s.refine f done bracket (remaining + 1) =
      s.refine f (done + 1) (bracket.half (f bracket.midpoint)) remaining := by
  obtain ⟨hfinite, hcalm, hlarge⟩ := goesOn_iff.mp hgoesOn
  rw [refine, if_pos hwide]
  dsimp only
  rw [hfinite, if_neg (by simpa using hcalm), if_neg hlarge]

/-- A step that answers stops at its bracket, has found a small value, or leaves the answer to the
next. -/
theorem refine_succ_eq_ok (hr : s.refine f done bracket (remaining + 1) = .ok r) :
    ¬s.tolerance < bracket.width ∧ r = s.finish f done bracket ∨
      s.tolerance < bracket.width ∧ Scalar.isFinite (f bracket.midpoint) = true ∧
        Scalar.abs (f bracket.midpoint) < s.tolerance ∧
        r = ⟨bracket.midpoint, f bracket.midpoint, done + 1, true⟩ ∨
      s.tolerance < bracket.width ∧ s.goesOn (f bracket.midpoint) = true ∧
        s.refine f (done + 1) (bracket.half (f bracket.midpoint)) remaining = .ok r := by
  by_cases hwide : s.tolerance < bracket.width
  · by_cases hgoesOn : s.goesOn (f bracket.midpoint) = true
    · rw [refine_of_goesOn hwide hgoesOn] at hr
      exact .inr (.inr ⟨hwide, hgoesOn, hr⟩)
    · unfold refine at hr
      rw [if_pos hwide] at hr
      dsimp only at hr
      split at hr
      · cases hr
      · next hcalm =>
          simp only [Bool.or_eq_true, Bool.not_eq_true', not_or, Bool.not_eq_false,
            decide_eq_true_eq] at hcalm
          split at hr
          · next hsmall => exact .inr (.inl ⟨hwide, hcalm.1, hsmall, (Except.ok.inj hr).symm⟩)
          · next hlarge => exact absurd (goesOn_iff.mpr ⟨hcalm.1, hcalm.2, hlarge⟩) hgoesOn
  · unfold refine at hr
    rw [if_neg hwide] at hr
    exact .inl ⟨hwide, (Except.ok.inj hr).symm⟩

/-- An answer is an end with a small value, the lower one first, or that of the search between. -/
theorem runOrdered_eq_ok (hr : s.runOrdered f lo hi = .ok r) :
    Scalar.isFinite (f lo) = true ∧ Scalar.isFinite (f hi) = true ∧ ¬0 < f lo * f hi ∧
      (Scalar.abs (f lo) < s.tolerance ∧ r = ⟨lo, f lo, 0, true⟩ ∨
        Scalar.abs (f hi) < s.tolerance ∧ r = ⟨hi, f hi, 0, true⟩ ∨
        s.opens (f lo) (f hi) = true ∧ s.refine f 0 ⟨lo, hi, f lo⟩ s.maxIterations = .ok r) := by
  unfold runOrdered at hr
  dsimp only at hr
  split at hr
  · cases hr
  · next hfinite =>
      simp only [Bool.or_eq_true, Bool.not_eq_true', not_or, Bool.not_eq_false] at hfinite
      split at hr
      · cases hr
      · next hsign =>
          refine ⟨hfinite.1, hfinite.2, hsign, ?_⟩
          split at hr
          · next hsmall => exact .inl ⟨hsmall, (Except.ok.inj hr).symm⟩
          · next hlarge =>
              split at hr
              · next hsmall => exact .inr (.inl ⟨hsmall, (Except.ok.inj hr).symm⟩)
              · next hlargeHi =>
                  exact .inr (.inr
                    ⟨opens_iff.mpr ⟨hfinite.1, hfinite.2, hsign, hlarge, hlargeHi⟩, hr⟩)

theorem run_eq_ok (hr : s.run f a b = .ok r) :
    Scalar.isFinite a = true ∧ Scalar.isFinite b = true ∧ (a == b) = false ∧
      (b < a ∧ s.runOrdered f b a = .ok r ∨ ¬b < a ∧ s.runOrdered f a b = .ok r) := by
  unfold run at hr
  split at hr
  · cases hr
  · next hends =>
      simp only [Bool.or_eq_true, Bool.not_eq_true', not_or, Bool.not_eq_false,
        Bool.not_eq_true] at hends
      refine ⟨hends.1.1, hends.1.2, hends.2, ?_⟩
      split at hr
      · next hless => exact .inl ⟨hless, hr⟩
      · next hle => exact .inr ⟨hle, hr⟩

end Univariate.Root.Bisection
