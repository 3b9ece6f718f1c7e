import Univariate.Proofs.Analysis.Function
import Univariate.Proofs.Expression.Polynomial
import Univariate.Proofs.Root.LineSweep

/-!
# The vertex of a parabola

The derivative of a parabola is a line, and its curvature is constant: an analysis reports the vertex
and nothing else, wherever the sweep finds the zero of the line once.
-/

namespace Univariate.Analysis

open Polynomial CriticalPoint Root Root.Sweep

variable {E : Elementary} {a b c x start stop : ℚ} {t : Text} {e : Expression (Exact E)}

def vertex (a b : ℚ) : ℚ := -b / (2 * a)

/-- The vertex lies inside a range that is not too wide, where the values and the slopes are not too
large. -/
structure IsVisible (a b c start stop : ℚ) : Prop where
  lower : start < vertex a b
  upper : vertex a b < stop
  range : stop - start ≤ 10
  curved : 1 / 10 ^ 6 ≤ |2 * a|
  bounded : ∀ x, start ≤ x → x ≤ stop → |a * x ^ 2 + b * x + c| ≤ 10 ^ 8 ∧ |2 * a * x + b| ≤ 10 ^ 8

/-- The vertex, up to a tenth, is reported as the only critical point. -/
def FindsVertex (E : Elementary) (t : Text) (a b start stop : ℚ) : Prop :=
  ∃ (report : DerivativeReport (Exact E)) (p : CriticalPoint (Exact E)) (x : ℚ),
    derivatives {} t (.rational start) (.rational stop) = .ok report ∧ report.points = [p] ∧
      p.location = .rational x ∧ |x - vertex a b| < 1 / 10 ∧
      p.kind = if 0 < a then .minimum else .maximum

theorem IsVisible.ne_zero (h : IsVisible a b c start stop) : a ≠ 0 := by
  rintro rfl
  have hcurved := h.curved
  norm_num at hcurved

theorem IsVisible.meets (h : IsVisible a b c start stop)
    (hclear : Clear (2 * a) (vertex a b) start stop) : Meets (2 * a) (vertex a b) start stop where
  toClear := hclear
  slope_ne_zero := mul_ne_zero two_ne_zero h.ne_zero
  inside := ⟨h.lower, h.upper⟩
  range := h.range

theorem isVisible_of_abs_le (hlower : start < vertex a b) (hupper : vertex a b < stop)
    (hstart : -5 ≤ start) (hstop : stop ≤ 5) (hcurved : 1 / 10 ^ 6 ≤ |2 * a|) (ha : |a| ≤ 10 ^ 5)
    (hb : |b| ≤ 10 ^ 5) (hc : |c| ≤ 10 ^ 5) : IsVisible a b c start stop where
  lower := hlower
  upper := hupper
  range := by linarith
  curved := hcurved
  bounded x hx hx' := by
    have habs : |x| ≤ 10 := abs_le.mpr ⟨by linarith, by linarith⟩
    have hlinear : |b * x| ≤ 10 ^ 5 * 10 := by
      rw [abs_mul]
      exact mul_le_mul hb habs (abs_nonneg x) (by norm_num)
    have hslope : |a * x| ≤ 10 ^ 5 * 10 := by
      rw [abs_mul]
      exact mul_le_mul ha habs (abs_nonneg x) (by norm_num)
    have hsquare : |a * x * x| ≤ 10 ^ 5 * 10 * 10 := by
      rw [abs_mul]
      exact mul_le_mul hslope habs (abs_nonneg x) (by norm_num)
    constructor
    · calc |a * x ^ 2 + b * x + c| = |a * x * x + b * x + c| := by ring_nf
        _ ≤ |a * x * x| + |b * x| + |c| := abs_add_three _ _ _
        _ ≤ 10 ^ 8 := by linarith
    · calc |2 * a * x + b| = |a * x + a * x + b| := by ring_nf
        _ ≤ |a * x| + |a * x| + |b| := abs_add_three _ _ _
        _ ≤ 10 ^ 8 := by linarith

section Denotes

variable (he : e.Denotes (C a * X ^ 2 + C b * X + C c))
include he

theorem eval_parabola (x : ℚ) : e.eval (.rational x) = .rational (a * x ^ 2 + b * x + c) := by
  rw [he.eval_eq]
  simp

theorem isLine_derivative (ha : a ≠ 0) : IsLine e.derivative.eval (2 * a) (vertex a b) := by
  intro x
  have hslope : 2 * a * (x - vertex a b) = 2 * a * x + b := by
    unfold vertex
    field_simp
    ring
  rw [he.derivative.eval_eq, hslope]
  simp
  ring

theorem eval_curvature (x : ℚ) : e.derivative.derivative.eval (.rational x) = .rational (2 * a) := by
  rw [he.derivative.derivative.eval_eq]
  simp
  ring

theorem terms_ne_nil (ha : a ≠ 0) : e.terms ≠ [] := by
  intro hnil
  obtain ⟨summands, hsummands, hsum⟩ := he
  rw [hnil, List.forall₂_nil_left_iff] at hsummands
  rw [hsummands, List.sum_nil] at hsum
  have hcoeff := congrArg (Polynomial.coeff · 2) hsum
  exact ha (by simpa [coeff_X, coeff_C] using hcoeff.symm)

end Denotes

/-- The classifier of an analysis, with its settings as rational numbers. -/
def guarded : Classifier (Exact E) where
  magnitudeGuard := .rational (10 ^ 8)
  flatThreshold := .rational (1 / 10 ^ 6)

theorem settings_eq :
    ({} : Settings (Exact E)) = { sweep := nudging, classifier := guarded } := by
  rw [nudging_eq, guarded]
  simp only [Exact.ofScientific_eq]
  norm_num

theorem kind_eq (hcurved : 1 / 10 ^ 6 ≤ |2 * a|) :
    (guarded : Classifier (Exact E)).kind (.rational (2 * a)) =
      if 0 < a then .minimum else .maximum := by
  unfold Classifier.kind
  rw [if_neg (by simp), if_neg (by simpa [guarded] using hcurved)]
  by_cases hpos : 0 < a
  · rw [if_pos hpos]
    exact if_pos (by simpa using hpos)
  · rw [if_neg hpos]
    exact if_neg (by simpa using hpos)

theorem points_eq {f second : Exact E → Exact E} {y : ℚ} (hf : f (.rational x) = .rational y)
    (hy : |y| ≤ 10 ^ 8) (hsecond : second (.rational x) = .rational (2 * a))
    (hcurved : 1 / 10 ^ 6 ≤ |2 * a|) :
    guarded.points f second [.rational x] =
      [{ location := .rational x
         kind := if 0 < a then .minimum else .maximum
         value := .rational y }] := by
  have hpoint : guarded.point? f second (.rational x) =
      some { location := .rational x
             kind := if 0 < a then .minimum else .maximum
             value := .rational y } := by
    unfold Classifier.point?
    rw [hf, hsecond, kind_eq hcurved]
    exact if_neg (by simpa [guarded] using hy)
  unfold Classifier.points
  rw [List.filterMap_cons, hpoint, List.filterMap_nil]

theorem derivatives_eq_ok {roots : List (Exact E)} (hlt : start < stop)
    (hterms : (Expression.ofText t : Expression (Exact E)).terms ≠ [])
    (hrun : nudging.run (Expression.ofText t).derivative.eval (.rational start) (.rational stop) =
      .ok roots) :
    derivatives {} t (.rational start) (.rational stop) =
      .ok { pieces := Expression.pieces t
            function := Expression.ofText t
            first := (Expression.ofText t).derivative
            second := (Expression.ofText t).derivative.derivative
            points := guarded.points (Expression.ofText t).eval
              (Expression.ofText t).derivative.derivative.eval roots } := by
  rw [settings_eq]
  unfold derivatives
  rw [readFunction_of_terms_ne_nil hterms]
  dsimp only
  rw [if_neg (by simpa using hlt), hrun]

/-- The points in the order in which the sweep comes by them. -/
theorem points_perm {report : DerivativeReport (Exact E)} (hlt : start < stop)
    (hrange : stop - start ≤ 10)
    (hterms : (Expression.ofText t : Expression (Exact E)).terms ≠ [])
    (hreport : derivatives {} t (.rational start) (.rational stop) = .ok report) :
    report.points.Perm (guarded.points (Expression.ofText t).eval
      (Expression.ofText t).derivative.derivative.eval
      (((nudging.pieces (.rational start) (.rational stop)).filterMap
        (nudging.candidate? (Expression.ofText t).derivative.eval (.rational start)
          (.rational stop))).foldl (insert nudging.duplicateDistance) [])) := by
  have hrun := (run_eq_ok_iff (f := (Expression.ofText t : Expression (Exact E)).derivative.eval)).mpr
    ⟨fault?_nudging hlt hrange, rfl⟩
  rw [derivatives_eq_ok hlt hterms hrun] at hreport
  obtain rfl := Except.ok.inj hreport
  exact (List.mergeSort_perm _ Scalar.sortsBefore).filterMap _

/-- **The vertex is found.** However a parabola is written as a sum of monomials, an analysis reports
its vertex alone, when the line of its slopes is clear of what the sweep does at samples. -/
theorem findsVertex_of_clear (t : Text) (s : WrittenSum) (a b c start stop : ℚ)
    (hs : s.AmountsTo (C a * X ^ 2 + C b * X + C c)) (htext : s.text = t.withoutBlanks)
    (hvisible : IsVisible a b c start stop) (hclear : Clear (2 * a) (vertex a b) start stop) :
    FindsVertex E t a b start stop := by
  have he : (Expression.ofText t : Expression (Exact E)).Denotes _ :=
    Expression.denotes_ofText hs htext
  have ha := hvisible.ne_zero
  obtain ⟨x, hrun, hstart, hstop, hnear⟩ :=
    exists_run_line (hvisible.meets hclear) (isLine_derivative he ha)
  have hreport := derivatives_eq_ok (hvisible.lower.trans hvisible.upper) (terms_ne_nil he ha) hrun
  have hpoints := points_eq (eval_parabola he x) (hvisible.bounded x hstart hstop).1
    (eval_curvature he x) hvisible.curved
  exact ⟨_, _, x, hreport, hpoints, rfl, hnear, rfl⟩

theorem findsVertex_one_and_a_half :
    let t : Text := "0.5x^2 - 1.5x + 2".toList
    let half : Decimal := ⟨['0'], ['5'], ⟨by simp, by simp⟩, by simp⟩
    let oneAndAHalf : Decimal := ⟨['1'], ['5'], ⟨by simp, by simp⟩, by simp⟩
    let two : Decimal := ⟨['2'], [], ⟨by simp, by simp⟩, by simp⟩
    let s : WrittenSum := .parabola (none, half) (.minus, oneAndAHalf) (.plus, two)
    s.AmountsTo (C (1 / 2) * X ^ 2 + C (-3 / 2) * X + C 2) ∧ s.text = t.withoutBlanks ∧
      IsVisible (1 / 2) (-3 / 2) 2 0 3 ∧ Clear (2 * (1 / 2)) (vertex (1 / 2) (-3 / 2)) 0 3 ∧
      FindsVertex .rationalPart t (1 / 2) (-3 / 2) 0 3 := by
  intro t half oneAndAHalf two s
  have hvertex : vertex (1 / 2) (-3 / 2) = 3 / 2 := by
    norm_num [vertex]
  have hs : s.AmountsTo (C (1 / 2) * X ^ 2 + C (-3 / 2) * X + C 2) := by
    have hvalues : Sign.plus.value * half.value = 1 / 2 ∧
        Sign.minus.value * oneAndAHalf.value = -3 / 2 ∧ Sign.plus.value * two.value = 2 := by
      decide +kernel
    have hamounts := WrittenSum.amountsTo_parabola (none, half) (.minus, oneAndAHalf) (.plus, two)
    rwa [Option.getD_none, hvalues.1, hvalues.2.1, hvalues.2.2] at hamounts
  have htext : s.text = t.withoutBlanks := by decide +kernel
  have hvisible : IsVisible (1 / 2) (-3 / 2) 2 0 3 := by
    apply isVisible_of_abs_le <;> norm_num [vertex]
  have hclear : Clear (2 * (1 / 2)) (vertex (1 / 2) (-3 / 2)) 0 3 := by
    rw [hvertex]
    refine clear_of_steep (by norm_num) (by norm_num) (.inr (.inl ?_)) (.inl (by norm_num))
    norm_num
  exact ⟨hs, htext, hvisible, hclear,
    findsVertex_of_clear t s (1 / 2) (-3 / 2) 2 0 3 hs htext hvisible hclear⟩

/-- A vertex that is missed between narrow brackets of a steep line, one that is passed over by a
start that is moved off zero, one that is found twice by a flat line, and one that a sample which is
moved off zero puts into a piece of more than a tenth. -/
theorem not_findsVertex :
    (IsVisible 1000 (-740) 0 (1 / 20) 1 ∧
        ¬FindsVertex .rationalPart "1000x^2-740x+0".toList 1000 (-740) (1 / 20) 1) ∧
      (IsVisible 1 (-1 / 10 ^ 10) 0 0 1 ∧
        ¬FindsVertex .rationalPart "1x^2-0.0000000001x+0".toList 1 (-1 / 10 ^ 10) 0 1) ∧
      (IsVisible (1 / 2000000) (-1 / 1000000) 0 (1 / 2) (3 / 2) ∧
        ¬FindsVertex .rationalPart "0.0000005x^2-0.000001x+0".toList (1 / 2000000) (-1 / 1000000)
          (1 / 2) (3 / 2)) ∧
      (IsVisible (1 / 2000000) (-5 / 10 ^ 17) 0 (-1 / 10) (1 / 2) ∧
        ¬FindsVertex .rationalPart "0.0000005x^2-0.00000000000000005x+0".toList (1 / 2000000)
          (-5 / 10 ^ 17) (-1 / 10) (1 / 2)) := by
  have hpoints : ∀ (points : List (CriticalPoint (Exact .rationalPart))) {t : Text}
      {a b start stop : ℚ},
      (derivatives {} t (.rational start) (.rational stop)).map DerivativeReport.points =
        .ok points →
      FindsVertex .rationalPart t a b start stop →
      ∃ p x, points = [p] ∧ p.location = .rational x ∧ |x - vertex a b| < 1 / 10 := by
    rintro points t a b start stop hrun ⟨report, p, x, hreport, hpoint, hlocation, hnear, -⟩
    rw [hreport] at hrun
    obtain rfl := Except.ok.inj hrun
    exact ⟨p, x, hpoint, hlocation, hnear⟩
  refine ⟨⟨?_, ?_⟩, ⟨?_, ?_⟩, ⟨?_, ?_⟩, ?_, ?_⟩
  · apply isVisible_of_abs_le <;> norm_num [vertex]
  · intro hfinds
    obtain ⟨p, x, hnil, -⟩ := hpoints [] (by decide +kernel) hfinds
    cases hnil
  · apply isVisible_of_abs_le <;> norm_num [vertex]
  · intro hfinds
    obtain ⟨p, x, hnil, -⟩ := hpoints [] (by decide +kernel) hfinds
    cases hnil
  · apply isVisible_of_abs_le <;> norm_num [vertex]
  · rintro ⟨report, p, x, hreport, hpoint, -⟩
    have hperm := points_perm (by norm_num) (by norm_num) (by decide +kernel) hreport
    have hlength := hperm.length_eq
    rw [hpoint, List.length_singleton] at hlength
    revert hlength
    decide +kernel
  · apply isVisible_of_abs_le <;> norm_num [vertex]
  · intro hfinds
    obtain ⟨p, x, hone, hlocation, hnear⟩ := hpoints [⟨.rational (-1 / 10), .minimum,
      .rational (1 / 2000000 * (1 / 100) + 5 / 10 ^ 18)⟩] (by decide +kernel) hfinds
    obtain rfl := (List.cons.inj hone).1
    obtain rfl := Exact.rational.inj hlocation
    norm_num [vertex] at hnear

end Univariate.Analysis
