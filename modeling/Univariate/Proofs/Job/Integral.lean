import Univariate.Analysis.Integral
import Univariate.Proofs.Job.Function
import Univariate.Proofs.Quadrature.Summary
import Univariate.Proofs.Scalar.Binary64.Order

/-!
# Integrals of jobs

A job and an integral analysis look at limits, pieces and integrand in different orders. Of a function
that has a term they give the same summary, or neither gives one. A text without terms is refused by
the analysis alone.
-/

namespace Univariate

open Integrand (respell)
open Scalar (LawfulOrder)

variable {α : Type} [Scalar α] {a b : α} {n : Nat} {summary : Quadrature.Summary α}

namespace Analysis

variable [LawfulOrder α] {t : Text}

/-- Limits that are numbers are not looked at twice. -/
theorem integral_of_terms_ne_nil (hn : 0 < n) (hfault : Quadrature.fault? a b n = none)
    (hterms : (Expression.ofText (respell t) : Expression α).terms ≠ []) :
    integral t a b n = .ok (Quadrature.summarizeRules Quadrature.Rule.classic
      (Expression.ofText (respell t)).eval a b n) := by
  obtain ⟨ha, hb⟩ := Quadrature.isFinite_of_fault?_eq_none hfault
  have hlimits : (Scalar.isNaN a || Scalar.isNaN b || n == 0) = false := by
    rw [LawfulOrder.isNaN_of_isFinite ha, LawfulOrder.isNaN_of_isFinite hb]
    simpa using hn.ne'
  have hsummary := Quadrature.summarize_eq_ok_iff.mpr
    ⟨hfault, Eq.refl (Quadrature.summarizeRules _ (Expression.ofText (respell t)).eval a b n)⟩
  unfold integral
  rw [readFunction_of_terms_ne_nil hterms]
  dsimp only
  rw [hlimits, if_neg Bool.false_ne_true, hsummary]
  rfl

theorem integral_eq_ok_iff (hn : 0 < n) :
    integral t a b n = .ok summary ↔
      (Expression.ofText (respell t) : Expression α).terms ≠ [] ∧
        Quadrature.fault? a b n = none ∧
          Quadrature.summarizeRules Quadrature.Rule.classic
            (Expression.ofText (respell t)).eval a b n = summary := by
  constructor
  · intro h
    unfold integral at h
    split at h
    · cases h
    · next pieces e hread =>
        have he : Expression.ofText (respell t) = e :=
          Except.ok.inj (read_of_readFunction hread)
        split at h
        · cases h
        · cases hsummary : Quadrature.summarize e.eval a b n with
          | error error =>
              rw [hsummary] at h
              cases h
          | ok s =>
              rw [hsummary] at h
              obtain rfl := Except.ok.inj h
              rw [he]
              exact ⟨terms_ne_nil_of_readFunction hread, Quadrature.summarize_eq_ok_iff.mp hsummary⟩
  · rintro ⟨hterms, hfault, rfl⟩
    exact integral_of_terms_ne_nil hn hfault hterms

end Analysis

namespace Job

variable {job : Job α} {part : IntegralPart α}

theorem run_eq_ok_iff_runIntegral (hderivative : job.derivative = none)
    (hintegral : job.integral = some part) :
    job.run = .ok ⟨none, some summary⟩ ↔ job.runIntegral part = .ok summary := by
  rw [run_eq_ok_iff hintegral, hderivative, Option.mapM_none]
  constructor
  · rintro ⟨derivatives, s, -, hsummary, ⟨⟩⟩
    exact hsummary
  · intro hsummary
    exact ⟨none, summary, rfl, hsummary, rfl⟩

theorem runIntegral_eq_ok_iff_of_permissive (hpermissive : job.strictness = .permissive) :
    job.runIntegral ⟨a, b, n, []⟩ = .ok summary ↔
      Quadrature.fault? a b n = none ∧
        Quadrature.summarizeRules Quadrature.Rule.classic
          (Expression.ofText (respell job.expression)).eval a b n = summary := by
  rw [runIntegral_eq_ok_iff, hpermissive]
  apply and_congr_right
  intro _
  constructor
  · rintro ⟨e, hread, rfl⟩
    rw [Except.ok.inj hread]
    rfl
  · rintro rfl
    exact ⟨_, rfl, rfl⟩

/-- The job has the summary of the analysis, or neither has one. -/
def IntegratesAlike (job : Job α) (a b : α) (n : Nat) : Prop :=
  ∀ summary, job.run = .ok ⟨none, some summary⟩ ↔
    Analysis.integral job.expression a b n = .ok summary

/-- **Jobs and analyses integrate alike** exactly where the function has a term, or where the limits
are refused. -/
theorem integratesAlike_iff [LawfulOrder α] (hpermissive : job.strictness = .permissive)
    (hderivative : job.derivative = none) (hintegral : job.integral = some ⟨a, b, n, []⟩)
    (hn : 0 < n) :
    job.IntegratesAlike a b n ↔
      (Expression.ofText (respell job.expression) : Expression α).terms ≠ [] ∨
        (Quadrature.fault? a b n).isSome = true := by
  constructor
  · intro halike
    cases hfault : Quadrature.fault? a b n with
    | some error => exact Or.inr rfl
    | none =>
        have hrun := (run_eq_ok_iff_runIntegral hderivative hintegral).mpr
          ((runIntegral_eq_ok_iff_of_permissive hpermissive).mpr ⟨hfault, rfl⟩)
        exact Or.inl ((Analysis.integral_eq_ok_iff hn).mp ((halike _).mp hrun)).1
  · intro h summary
    rw [run_eq_ok_iff_runIntegral hderivative hintegral, runIntegral_eq_ok_iff_of_permissive hpermissive,
      Analysis.integral_eq_ok_iff hn]
    constructor
    · rintro ⟨hfault, hsummary⟩
      rw [hfault] at h
      exact ⟨h.resolve_right Bool.noConfusion, hfault, hsummary⟩
    · exact And.right

theorem integratesAlike_square :
    let job : Job (Exact .rationalPart) := {
      expression := "x**2".toList, strictness := .permissive, derivative := none,
      integral := some ⟨.rational 0, .rational 1, 2, []⟩, logLevel := none, logToFile := false }
    job.IntegratesAlike (.rational 0) (.rational 1) 2 ∧
      ∃ summary, job.run = .ok ⟨none, some summary⟩ ∧
        Analysis.integral job.expression (.rational 0) (.rational 1) 2 = .ok summary ∧
        summary.results = [(.left, .ok (.rational (1 / 8))), (.right, .ok (.rational (5 / 8))),
          (.midpoint, .ok (.rational (5 / 16))), (.trapezoid, .ok (.rational (3 / 8))),
          (.simpson, .ok (.rational (1 / 3)))] := by
  intro job
  have hterms : (Expression.ofText (respell job.expression) :
      Expression (Exact .rationalPart)).terms ≠ [] := by decide +kernel
  have halike : job.IntegratesAlike (.rational 0) (.rational 1) 2 :=
    (integratesAlike_iff rfl rfl rfl (by decide)).mpr (.inl hterms)
  have hrun : job.run = .ok ⟨none, some _⟩ := (run_eq_ok_iff_runIntegral rfl rfl).mpr
    ((runIntegral_eq_ok_iff_of_permissive rfl).mpr ⟨by decide +kernel, rfl⟩)
  exact ⟨halike, _, hrun, (halike _).mp hrun, by decide +kernel⟩

/-- An empty group is integrated by the job, as a function that is zero. -/
theorem not_integratesAlike_group :
    let job : Job Float := {
      expression := "()".toList, strictness := .permissive, derivative := none,
      integral := some ⟨0, 1, 2, []⟩, logLevel := none, logToFile := false }
    ¬job.IntegratesAlike 0 1 2 ∧ ∃ summary, job.run = .ok ⟨none, some summary⟩ := by
  intro job
  have hrun : job.run = .ok ⟨none, some _⟩ := (run_eq_ok_iff_runIntegral rfl rfl).mpr
    ((runIntegral_eq_ok_iff_of_permissive rfl).mpr ⟨by decide +kernel, rfl⟩)
  refine ⟨fun halike => ?_, _, hrun⟩
  have hterms := ((Analysis.integral_eq_ok_iff (by decide)).mp ((halike _).mp hrun)).1
  exact hterms (by decide +kernel)

end Job

end Univariate
