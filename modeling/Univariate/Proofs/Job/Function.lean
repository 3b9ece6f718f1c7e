import Univariate.Job.Run
import Univariate.Proofs.Analysis.Function
import Univariate.Proofs.Expression.Respelling
import Univariate.Proofs.Quadrature.Summary
import Univariate.Proofs.Scalar.Exact

/-!
# The function of a job

The derivative part reads the expression of a job as it is written, the integral part respells it
first. Both work on one function where the written expression is understood, and where respelling
changes nothing.
-/

namespace Univariate

open Integrand (respell isBareExponential)

variable {α : Type} [Scalar α]

namespace Expression

theorem ofText_of_read {mode : Strictness} {t : Text} {e : Expression α}
    (h : read mode t = .ok e) : ofText t = e := by
  cases mode with
  | permissive => exact Except.ok.inj h
  | strict => exact (ofTextStrict_eq_ok.mp h).2.2

theorem eval_ofText_respell {t : Text}
    (h : (∃ e : Expression α, ofTextStrict t = .ok e) ∨ respell t = t.withoutBlanks) (x : α) :
    (ofText t : Expression α).eval x = (ofText (respell t)).eval x := by
  rcases h with ⟨e, he⟩ | hplain
  · obtain ⟨-, e', he', halike⟩ := exists_ofTextStrict_respell he
    rw [(ofTextStrict_eq_ok.mp he).2.2, (ofTextStrict_eq_ok.mp he').2.2]
    exact (eval_eq_of_alike halike x).symm
  · have hpieces : pieces (respell t) = pieces t := by
      rw [pieces, hplain, (Text.noBlanks_withoutBlanks t).withoutBlanks_eq]
      rfl
    rw [ofText, ofText, hpieces]

end Expression

namespace Job

variable {job : Job α}

/-- Without a choice of rules all classic ones are run. -/
def IntegralPart.chosenRules (part : IntegralPart α) : List Quadrature.Rule :=
  if part.rules.isEmpty then Quadrature.Rule.classic else part.rules

/-- The summary of all classic rules and the list of chosen ones agree, since limits and pieces that
have been looked at once are not refused when they are looked at again. -/
theorem runIntegral_eq (job : Job α) (part : IntegralPart α) :
    job.runIntegral part =
      match Quadrature.fault? part.a part.b part.n with
      | some error => .error (.quadrature error)
      | none =>
        ((Expression.read job.strictness (respell job.expression)).mapError .parse).map
          fun e : Expression α =>
            Quadrature.summarizeRules part.chosenRules e.eval part.a part.b part.n := by
  unfold runIntegral IntegralPart.chosenRules
  cases hfault : Quadrature.fault? part.a part.b part.n with
  | some error => rfl
  | none =>
      cases (Expression.read job.strictness (respell job.expression) :
          Except ParseError (Expression α)) with
      | error error => rfl
      | ok e =>
          cases part.rules.isEmpty with
          | true =>
              have hsummary := Quadrature.summarize_eq_ok_iff.mpr
                ⟨hfault, Eq.refl (Quadrature.summarizeRules Quadrature.Rule.classic e.eval _ _ _)⟩
              exact congrArg (Except.mapError Analysis.Error.quadrature) hsummary
          | false => rfl

theorem runIntegral_eq_ok_iff {part : IntegralPart α} {summary : Quadrature.Summary α} :
    job.runIntegral part = .ok summary ↔
      Quadrature.fault? part.a part.b part.n = none ∧ ∃ e : Expression α,
        Expression.read job.strictness (respell job.expression) = .ok e ∧
          Quadrature.summarizeRules part.chosenRules e.eval part.a part.b part.n = summary := by
  rw [runIntegral_eq]
  cases Quadrature.fault? part.a part.b part.n with
  | some error => simp
  | none =>
      cases (Expression.read job.strictness (respell job.expression) :
          Except ParseError (Expression α)) with
      | error error => simp [Except.mapError, Except.map]
      | ok e => simp [Except.mapError, Except.map]

/-- The parts of a report are made one after the other. -/
theorem run_of_integral_eq_some {part : IntegralPart α} (hintegral : job.integral = some part) :
    job.run = (job.derivative.mapM job.runDerivative).bind fun derivatives =>
      (job.runIntegral part).map fun summary => ⟨derivatives, some summary⟩ := by
  unfold run
  rw [hintegral]
  cases job.derivative.mapM job.runDerivative with
  | error error => rfl
  | ok derivatives =>
      rw [Option.mapM_some]
      cases job.runIntegral part <;> rfl

theorem run_eq_ok_iff {part : IntegralPart α} {report : Report α}
    (hintegral : job.integral = some part) :
    job.run = .ok report ↔ ∃ derivatives summary,
      job.derivative.mapM job.runDerivative = .ok derivatives ∧
        job.runIntegral part = .ok summary ∧ report = ⟨derivatives, some summary⟩ := by
  rw [run_of_integral_eq_some hintegral]
  cases job.derivative.mapM job.runDerivative with
  | error error => simp [Except.bind]
  | ok derivatives => cases job.runIntegral part <;> simp [Except.bind, Except.map, eq_comm]

theorem eq_of_run {d : DerivativePart α} {i : IntegralPart α} {report : Report α}
    (hd : job.derivative = some d) (hi : job.integral = some i) (h : job.run = .ok report) :
    ∃ analysis summary, job.runDerivative d = .ok analysis ∧ job.runIntegral i = .ok summary ∧
      report = ⟨some analysis, some summary⟩ := by
  obtain ⟨derivatives, summary, hderivatives, hsummary, rfl⟩ := (run_eq_ok_iff hi).mp h
  rw [hd, Option.mapM_some] at hderivatives
  cases hderivative : job.runDerivative d with
  | error error =>
      rw [hderivative] at hderivatives
      cases hderivatives
  | ok analysis =>
      rw [hderivative] at hderivatives
      cases hderivatives
      exact ⟨analysis, summary, rfl, hsummary, rfl⟩

theorem exists_report_of_function {e : Expression α}
    (h : (job.run.toOption.bind Report.derivatives).map (·.function) = some e) :
    ∃ report analysis, job.run = .ok report ∧ report.derivatives = some analysis ∧
      analysis.function = e := by
  obtain ⟨analysis, hanalysis, hfunction⟩ := Option.map_eq_some_iff.mp h
  obtain ⟨report, hreport, hderivatives⟩ := Option.bind_eq_some_iff.mp hanalysis
  cases hrun : job.run with
  | error error =>
      rw [hrun] at hreport
      cases hreport
  | ok report =>
      rw [hrun] at hreport
      cases hreport
      exact ⟨_, analysis, rfl, hderivatives, hfunction⟩

/-- **A job works on one function** in strict mode, and in permissive mode where every term of its
expression is understood, or where the expression has no stars in pairs and no bare exponential. -/
theorem exists_eval_eq_of_run (d : DerivativePart α) (i : IntegralPart α) (report : Report α)
    (hd : job.derivative = some d) (hi : job.integral = some i) (hrun : job.run = .ok report)
    (hread : job.strictness = .strict ∨
      (∃ e : Expression α, Expression.ofTextStrict job.expression = .ok e) ∨
      (¬['*', '*'] <:+: job.expression.withoutBlanks ∧
        ∀ piece ∈ Expression.pieces job.expression, isBareExponential piece = false)) :
    ∃ (analysis : Analysis.DerivativeReport α) (e : Expression α),
      report.derivatives = some analysis ∧
      Expression.read job.strictness (respell job.expression) = .ok e ∧
      report.integrals = some (Quadrature.summarizeRules
        (if i.rules.isEmpty then Quadrature.Rule.classic else i.rules) e.eval i.a i.b i.n) ∧
      ∀ x, analysis.function.eval x = e.eval x := by
  obtain ⟨analysis, summary, hderivative, hintegral, rfl⟩ := eq_of_run hd hi hrun
  have hwritten : Expression.read job.strictness job.expression = .ok analysis.function :=
    Analysis.read_of_derivatives hderivative
  obtain ⟨-, e, hrespelled, rfl⟩ := runIntegral_eq_ok_iff.mp hintegral
  refine ⟨analysis, e, rfl, hrespelled, rfl, ?_⟩
  rw [← Expression.ofText_of_read hwritten, ← Expression.ofText_of_read hrespelled]
  apply Expression.eval_ofText_respell
  rcases hread with hstrict | hunderstood | ⟨hstars, hbare⟩
  · rw [hstrict] at hwritten
    exact Or.inl ⟨_, hwritten⟩
  · exact Or.inl hunderstood
  · exact Or.inr (Integrand.respell_eq_withoutBlanks hstars hbare)

/-- Stars in pairs inside an argument are understood. -/
theorem exists_eval_eq_of_run_exponential :
    let job : Job (Exact .rationalPart) := {
      expression := "x^2 - e^(2**x)".toList, strictness := .permissive,
      derivative := some ⟨.rational (1 / 2), .rational (3 / 4), { zeroPolicy := .nudge }⟩,
      integral := some ⟨.rational 0, .rational 1, 2, [.midpoint]⟩,
      logLevel := none, logToFile := false }
    ∃ (report : Report (Exact .rationalPart)) (analysis : Analysis.DerivativeReport _)
      (e : Expression (Exact .rationalPart)),
      job.run = .ok report ∧ report.derivatives = some analysis ∧
      Expression.read job.strictness (respell job.expression) = .ok e ∧
      analysis.function ≠ e ∧ ∀ x, analysis.function.eval x = e.eval x := by
  intro job
  have hread : ∃ e : Expression (Exact .rationalPart),
      Expression.ofTextStrict job.expression = .ok e :=
    ⟨Expression.ofText job.expression, by decide +kernel⟩
  obtain ⟨report, analysis, hrun, hderivatives, hfunction⟩ :
      ∃ report analysis, job.run = .ok report ∧ report.derivatives = some analysis ∧
        analysis.function = Expression.ofText job.expression :=
    exists_report_of_function (by decide +kernel)
  obtain ⟨analysis', e, hderivatives', hrespelled, -, heval⟩ :=
    exists_eval_eq_of_run _ _ report rfl rfl hrun (.inr (.inl hread))
  cases hderivatives.symm.trans hderivatives'
  refine ⟨report, analysis, e, hrun, hderivatives, hrespelled, ?_, heval⟩
  rw [hfunction, ← Expression.ofText_of_read hrespelled]
  decide +kernel

/-- The derivative part takes the whole expression for one term that counts nothing. -/
theorem run_double_star :
    let job : Job (Exact .rationalPart) := {
      expression := "x**2".toList, strictness := .permissive,
      derivative := some ⟨.rational (1 / 2), .rational (3 / 4), { zeroPolicy := .nudge }⟩,
      integral := some ⟨.rational 0, .rational 1, 2, [.midpoint]⟩,
      logLevel := none, logToFile := false }
    ∃ (report : Report (Exact .rationalPart)) (analysis : Analysis.DerivativeReport _)
      (e : Expression (Exact .rationalPart)),
      job.run = .ok report ∧ report.derivatives = some analysis ∧
      Expression.read job.strictness (respell job.expression) = .ok e ∧
      analysis.function.eval (.rational 2) = .rational 0 ∧ e.eval (.rational 2) = .rational 4 := by
  intro job
  obtain ⟨report, analysis, hrun, hderivatives, hfunction⟩ :
      ∃ report analysis, job.run = .ok report ∧ report.derivatives = some analysis ∧
        analysis.function = ⟨[.unrecognized "x**2".toList]⟩ :=
    exists_report_of_function (by decide +kernel)
  refine ⟨report, analysis, ⟨[.power (.rational 1) (.rational 2)]⟩, hrun, hderivatives,
    by decide +kernel, ?_, by decide +kernel⟩
  rw [hfunction]
  decide +kernel

end Job

end Univariate
