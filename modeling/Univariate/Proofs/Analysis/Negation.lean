import Univariate.Analysis.Derivative
import Univariate.Proofs.Expression.Negation

/-!
# Negated functions

Bisection and the sweep look at sizes and at products of two values only, so that a function and its
negation have the same roots. The critical points of the negation are those of the function, with
minima for maxima.
-/

namespace Univariate

variable {E : Elementary}

namespace Exact

@[simp]
theorem isFinite_neg (x : Exact E) : Scalar.isFinite (-x) = Scalar.isFinite x := by
  cases x <;> rfl

@[simp]
theorem abs_neg (x : Exact E) : Scalar.abs (-x) = Scalar.abs x := by
  cases x with
  | rational q => simp
  | notFinite => rfl

end Exact

namespace Root

variable {f : Exact E → Exact E}

def Outcome.negated (r : Outcome (Exact E)) : Outcome (Exact E) := { r with value := -r.value }

namespace Bracket

def negated (b : Bracket (Exact E)) : Bracket (Exact E) := { b with atLo := -b.atLo }

theorem half_negated (b : Bracket (Exact E)) (value : Exact E) :
    b.negated.half (-value) = (b.half value).negated := by
  unfold half
  change (if -b.atLo * -value < 0 then _ else _) = _
  rw [Exact.neg_mul_neg]
  split <;> rfl

end Bracket

namespace Bisection

variable {s : Bisection (Exact E)}

/-- **One run of steps.** The brackets are the same, and so are the decisions. -/
theorem refine_neg (done remaining : ℕ) (b : Bracket (Exact E)) :
    s.refine (fun x => -f x) done b.negated remaining =
      (s.refine f done b remaining).map Outcome.negated := by
  induction remaining generalizing done b with
  | zero => rfl
  | succ remaining ih =>
      have hwidth : b.negated.width = b.width := rfl
      have hmidpoint : b.negated.midpoint = b.midpoint := rfl
      unfold refine
      dsimp only
      rw [hwidth, hmidpoint, Exact.isFinite_neg, Exact.abs_neg, Bracket.half_negated, ih]
      split
      · split
        · rfl
        · split <;> rfl
      · rfl

theorem runOrdered_neg (lo hi : Exact E) :
    s.runOrdered (fun x => -f x) lo hi = (s.runOrdered f lo hi).map Outcome.negated := by
  have hrefine := refine_neg (s := s) (f := f) 0 s.maxIterations ⟨lo, hi, f lo⟩
  unfold runOrdered
  dsimp only
  rw [Exact.isFinite_neg, Exact.isFinite_neg, Exact.abs_neg, Exact.abs_neg, Exact.neg_mul_neg]
  split
  · rfl
  · split
    · rfl
    · split
      · rfl
      · split
        · rfl
        · exact hrefine

theorem run_neg (a b : Exact E) :
    s.run (fun x => -f x) a b = (s.run f a b).map Outcome.negated := by
  unfold run
  split
  · rfl
  · split <;> exact runOrdered_neg _ _

end Bisection

namespace Sweep

variable (s : Sweep (Exact E))

theorem candidate?_neg (start stop : Exact E) (piece : Exact E × Exact E) :
    s.candidate? (fun x => -f x) start stop piece = s.candidate? f start stop piece := by
  have htame : ∀ v : Exact E, s.isTame (-v) = s.isTame v := by
    intro v
    unfold isTame
    rw [Exact.isFinite_neg, Exact.abs_neg]
  have hexcludes : ∀ u v : Exact E, s.excludesRoot (-u) (-v) = s.excludesRoot u v := by
    intro u v
    unfold excludesRoot
    rw [Exact.neg_mul_neg, Exact.abs_neg, Exact.abs_neg]
  have haccepts : ∀ root : Exact E,
      s.accepts (fun x => -f x) start stop root = s.accepts f start stop root := by
    intro root
    unfold accepts
    dsimp only
    rw [Exact.isFinite_neg, Exact.abs_neg]
  unfold candidate?
  split
  · dsimp only
    rw [htame, htame, hexcludes, Bisection.run_neg]
    split
    · rfl
    · cases s.bisection.run f _ _ with
      | ok outcome =>
          change (if s.accepts _ start stop outcome.root then _ else _) = _
          rw [haccepts]
          rfl
      | error error => rfl
  · rfl

/-- **A function and its negation have the same roots.** -/
theorem run_neg (start stop : Exact E) : s.run (fun x => -f x) start stop = s.run f start stop := by
  have hcandidates : s.candidate? (fun x => -f x) start stop = s.candidate? f start stop :=
    funext (s.candidate?_neg start stop)
  unfold run
  rw [hcandidates]

end Sweep

end Root

namespace CriticalPoint

def Kind.mirrored : Kind → Kind
  | minimum => maximum
  | maximum => minimum
  | inflection => inflection
  | inconclusive => inconclusive

/-- The critical point of the negated function at the same place. -/
def mirrored (p : CriticalPoint (Exact E)) : CriticalPoint (Exact E) where
  location := p.location
  kind := p.kind.mirrored
  value := -p.value

namespace Classifier

variable {s : Classifier (Exact E)} {f second : Exact E → Exact E}

/-- Curvatures that are not flat have a sign. -/
theorem kind_neg (hflat : 0 < s.flatThreshold) (curvature : Exact E) :
    s.kind (-curvature) = (s.kind curvature).mirrored := by
  cases curvature with
  | notFinite => rfl
  | rational q =>
      obtain ⟨r, hr⟩ : ∃ r, s.flatThreshold = .rational r := by
        cases hthreshold : s.flatThreshold with
        | rational r => exact ⟨r, rfl⟩
        | notFinite => exact absurd (hthreshold ▸ hflat) (Exact.not_lt_notFinite 0)
      have hpositive : 0 < r := by simpa [hr] using hflat
      unfold kind
      rw [Exact.abs_neg, Exact.isFinite_neg, hr, Exact.abs_rational]
      by_cases hsmall : |q| < r
      · simp [hsmall, Kind.mirrored]
      · have hq : q ≠ 0 := abs_pos.mp (hpositive.trans_le (not_lt.mp hsmall))
        rcases lt_or_gt_of_ne hq with hneg | hpos
        · have hnot : ¬0 < q := not_lt.mpr hneg.le
          simp [hsmall, hneg, hnot, Kind.mirrored]
        · have hnot : ¬q < 0 := not_lt.mpr hpos.le
          simp [hsmall, hpos, hnot, Kind.mirrored]

theorem point?_neg (hflat : 0 < s.flatThreshold) (x : Exact E) :
    s.point? (fun x => -f x) (fun x => -second x) x = (s.point? f second x).map mirrored := by
  unfold point?
  dsimp only
  rw [Exact.isFinite_neg, Exact.abs_neg, kind_neg hflat]
  split <;> rfl

theorem points_neg (hflat : 0 < s.flatThreshold) (xs : List (Exact E)) :
    s.points (fun x => -f x) (fun x => -second x) xs = (s.points f second xs).map mirrored := by
  unfold points
  rw [List.map_filterMap]
  exact List.filterMap_congr fun x _ => point?_neg hflat x

end Classifier

end CriticalPoint

namespace Analysis

open CriticalPoint

theorem readFunction_permissive {t : Text} (hblanks : t.NoBlanks) (hne : t ≠ []) :
    (readFunction .permissive t : Except (Error (Exact E)) _) =
      if (Expression.ofText t : Expression (Exact E)).terms.isEmpty then .error .noTerms
      else .ok (Expression.pieces t, Expression.ofText t) := by
  unfold readFunction
  rw [hblanks.withoutBlanks_eq, if_neg (by simpa using hne)]
  rfl

/-- **Negation mirrors the analysis.** The text and its negation fail alike, or have their critical
points at the same places. -/
theorem points_derivatives_negated (t : Text) (start stop : Exact E) (hblanks : t.NoBlanks)
    (hne : t ≠ []) (hbalanced : t.balanced = true) :
    (derivatives {} t.negated start stop).map DerivativeReport.points =
      (derivatives {} t start stop).map fun report => report.points.map mirrored := by
  have hopposite : Expression.Opposite (Expression.ofText t : Expression (Exact E))
      (Expression.ofText t.negated) :=
    Expression.ofText_negated hblanks (Text.balanced_iff.mp hbalanced)
  have hflat : (0 : Exact E) < ({} : Classifier (Exact E)).flatThreshold := by
    change (0 : Exact E) < 1e-6
    rw [Exact.ofScientific_eq, Exact.ofNat_eq, Exact.rational_lt_rational]
    norm_num
  unfold derivatives
  rw [readFunction_permissive hblanks hne, readFunction_permissive hblanks.negated nofun,
    hopposite.isEmpty_eq]
  split
  · next error herror =>
      split at herror
      · next hempty =>
          rw [if_pos hempty]
          cases herror
          rfl
      · cases herror
  · next pieces e hread =>
      split at hread
      · cases hread
      · next hterms =>
          obtain ⟨rfl, rfl⟩ := Prod.mk.inj (Except.ok.inj hread)
          rw [if_neg hterms]
          dsimp only
          rw [hopposite.derivative.eval_eq, Root.Sweep.run_neg, hopposite.eval_eq,
            hopposite.derivative.derivative.eval_eq]
          split
          · rfl
          · split
            · rfl
            · exact congrArg Except.ok (Classifier.points_neg hflat _)

theorem points_derivatives_negated_parabola :
    let t : Text := "x^2-(2x-3)".toList
    let start : Exact .rationalPart := .rational (1 / 2)
    let stop : Exact .rationalPart := .rational (3 / 2)
    t.NoBlanks ∧ t ≠ [] ∧ t.balanced = true ∧
      (derivatives {} t start stop).map DerivativeReport.points =
        .ok [⟨.rational 1, .minimum, .rational 2⟩] ∧
      (derivatives {} t.negated start stop).map DerivativeReport.points =
        .ok [⟨.rational 1, .maximum, .rational (-2)⟩] := by
  intro t start stop
  have hblanks : t.NoBlanks := by
    have hall : t.all (fun c => !Text.isBlank c) = true := by decide +kernel
    intro c hc
    simpa using List.all_eq_true.mp hall c hc
  have hpoints : (derivatives {} t start stop).map DerivativeReport.points =
      .ok [⟨.rational 1, .minimum, .rational 2⟩] := by decide +kernel
  have hmap : (derivatives {} t start stop).map (fun report => report.points.map mirrored) =
      ((derivatives {} t start stop).map DerivativeReport.points).map (List.map mirrored) := by
    cases derivatives {} t start stop <;> rfl
  refine ⟨hblanks, by decide, by decide, hpoints, ?_⟩
  rw [points_derivatives_negated t start stop hblanks (by decide) (by decide), hmap, hpoints]
  decide +kernel

end Analysis

end Univariate
