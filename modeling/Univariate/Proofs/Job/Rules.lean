import Univariate.Proofs.Job.Function
import Univariate.Proofs.Quadrature.Summary

/-!
# Rules of jobs

A job that names rules integrates with these alone. Each of its results is the one that the summary of
all classic rules has for that rule.
-/

namespace Univariate.Job

open Quadrature (Rule Summary)

variable {α : Type} [Scalar α] {job : Job α} {part : IntegralPart α} {summary : Summary α}
  {error : Analysis.Error α}

/-- The part without a choice of rules, which stands for all classic rules. -/
def IntegralPart.withoutRules (part : IntegralPart α) : IntegralPart α := { part with rules := [] }

def withoutRules (job : Job α) : Job α :=
  { job with integral := job.integral.map IntegralPart.withoutRules }

/-- Rules are chosen after everything that can fail. -/
theorem runIntegral_eq_error_iff_withoutRules :
    job.runIntegral part = .error error ↔ job.runIntegral part.withoutRules = .error error := by
  rw [runIntegral_eq, runIntegral_eq, IntegralPart.withoutRules]
  cases Quadrature.fault? part.a part.b part.n with
  | some fault => rfl
  | none =>
      cases (Expression.read job.strictness (Integrand.respell job.expression) :
          Except ParseError (Expression α)) with
      | error parseError => rfl
      | ok e => exact iff_of_false nofun nofun

/-- One result for each rule in its place, all of them in the other summary. -/
structure Chosen (rules : List Rule) (summary all : Summary α) : Prop where
  limits : summary.a = all.a ∧ summary.b = all.b ∧ summary.n = all.n
  order : rules ≠ [] → summary.results.map Prod.fst = rules
  results : ∀ entry ∈ summary.results, all.get? entry.1 = some entry.2

theorem chosen_summarizeRules {f : α → α} {a b : α} {n : Nat}
    (hclassic : ∀ rule ∈ part.rules, rule ∈ Rule.classic) :
    Chosen part.rules (Quadrature.summarizeRules part.chosenRules f a b n)
      (Quadrature.summarizeRules Rule.classic f a b n) := by
  have hmap : ∀ chosen : List Rule,
      (Quadrature.summarizeRules chosen f a b n).results.map Prod.fst = chosen := fun chosen => by
    simp [Quadrature.summarizeRules, Function.comp_def]
  constructor
  case limits => exact ⟨rfl, rfl, rfl⟩
  case order =>
    intro hrules
    rw [hmap, IntegralPart.chosenRules, if_neg (by simpa using hrules)]
  case results =>
    rintro ⟨rule, result⟩ hentry
    obtain ⟨rule, hrule, heq⟩ := List.mem_map.mp hentry
    cases heq
    apply Summary.get?_summarizeRules
    unfold IntegralPart.chosenRules at hrule
    split at hrule
    · exact hrule
    · exact hclassic rule hrule

theorem chosen_of_runIntegral (hclassic : ∀ rule ∈ part.rules, rule ∈ Rule.classic)
    (h : job.runIntegral part = .ok summary) :
    ∃ all, job.runIntegral part.withoutRules = .ok all ∧ Chosen part.rules summary all := by
  obtain ⟨hfault, e, hread, rfl⟩ := runIntegral_eq_ok_iff.mp h
  exact ⟨_, runIntegral_eq_ok_iff.mpr ⟨hfault, e, hread, rfl⟩, chosen_summarizeRules hclassic⟩

/-! ### Runs -/

theorem integral_withoutRules (hintegral : job.integral = some part) :
    job.withoutRules.integral = some part.withoutRules := by
  rw [withoutRules, hintegral, Option.map_some]

theorem run_eq_error_iff_withoutRules (hintegral : job.integral = some part) :
    job.run = .error error ↔ job.withoutRules.run = .error error := by
  have hwithout : job.withoutRules.run =
      (job.derivative.mapM job.runDerivative).bind fun derivatives =>
        (job.runIntegral part.withoutRules).map fun summary => ⟨derivatives, some summary⟩ :=
    run_of_integral_eq_some (integral_withoutRules hintegral)
  rw [run_of_integral_eq_some hintegral, hwithout]
  cases job.derivative.mapM job.runDerivative with
  | error derivativeError => rfl
  | ok derivatives =>
      have hintegrals : job.runIntegral part = .error error ↔
          job.runIntegral part.withoutRules = .error error := runIntegral_eq_error_iff_withoutRules
      revert hintegrals
      cases job.runIntegral part <;> cases job.runIntegral part.withoutRules <;>
        simp [Except.bind, Except.map]

/-- What a report on chosen rules has in common with the report on all classic ones. -/
structure Agrees (rules : List Rule) (report all : Report α) : Prop where
  derivatives : report.derivatives = all.derivatives
  integrals : ∃ summary allSummary, report.integrals = some summary ∧
    all.integrals = some allSummary ∧ Chosen rules summary allSummary

theorem exists_agrees_of_run (hintegral : job.integral = some part)
    (hclassic : ∀ rule ∈ part.rules, rule ∈ Rule.classic) {report : Report α}
    (h : job.run = .ok report) :
    ∃ all, job.withoutRules.run = .ok all ∧ Agrees part.rules report all := by
  obtain ⟨derivatives, summary, hderivatives, hsummary, rfl⟩ := (run_eq_ok_iff hintegral).mp h
  obtain ⟨all, hall, hchosen⟩ := chosen_of_runIntegral hclassic hsummary
  have hrun : job.withoutRules.run = .ok ⟨derivatives, some all⟩ :=
    (run_eq_ok_iff (integral_withoutRules hintegral)).mpr
      ⟨derivatives, all, hderivatives, hall, rfl⟩
  exact ⟨_, hrun, rfl, summary, all, rfl, rfl, hchosen⟩

/-- **Summaries and chosen rules.** A summary fails only on its limits and its number of pieces, and
otherwise has all classic rules, of which those that need the values at the limits fail together. A
job with chosen rules fails exactly as with all of them, and otherwise reports the results that the
summary of all of them has. -/
theorem summarize_describes_and_run_agrees :
    (∀ (f : α → α) (a b : α) (n : Nat),
      (∀ error, Quadrature.summarize f a b n = .error error ↔
        Quadrature.fault? a b n = some error) ∧
      (Quadrature.fault? a b n = none →
        ∃ summary, Quadrature.summarize f a b n = .ok summary ∧ summary.Describes f a b n)) ∧
    ∀ (job : Job α) (part : IntegralPart α), job.integral = some part →
      (∀ rule ∈ part.rules, rule ∈ Rule.classic) →
        (∀ error, job.run = .error error ↔ job.withoutRules.run = .error error) ∧
        ∀ report, job.run = .ok report →
          ∃ all, job.withoutRules.run = .ok all ∧ Agrees part.rules report all := by
  constructor
  · intro f a b n
    exact ⟨fun error => Quadrature.summarize_eq_error_iff, fun hfault =>
      ⟨_, Quadrature.summarize_eq_ok_iff.mpr ⟨hfault, rfl⟩,
        Quadrature.describes_summarizeRules hfault⟩⟩
  · intro job part hintegral hclassic
    exact ⟨fun error => run_eq_error_iff_withoutRules hintegral,
      fun report => exists_agrees_of_run hintegral hclassic⟩

theorem summarize_describes_and_run_agrees_reciprocal :
    let job : Job (Exact .rationalPart) := {
      expression := "x^-1".toList, strictness := .permissive, derivative := none,
      integral := some ⟨.rational 0, .rational 1, 4, [.simpson, .left, .left]⟩,
      logLevel := none, logToFile := false }
    let e : Expression (Exact .rationalPart) := ⟨[.power (.rational 1) (.rational (-1))]⟩
    (∃ summary, Quadrature.summarize e.eval (.rational 0) (.rational 1) 4 = .ok summary ∧
      summary.Describes e.eval (.rational 0) (.rational 1) 4 ∧
      Scalar.isFinite (e.eval (.rational 0)) = false) ∧
    ∃ report all, job.run = .ok report ∧ job.withoutRules.run = .ok all ∧
      Agrees [.simpson, .left, .left] report all ∧
      report.integrals.map Summary.results = some [
        (.simpson, .error (.nonFiniteEndpoint (.rational 0))),
        (.left, .ok (.rational (11 / 6))), (.left, .ok (.rational (11 / 6)))] := by
  intro job e
  constructor
  · obtain ⟨summary, hsummary, hdescribes⟩ := (summarize_describes_and_run_agrees.1 e.eval
      (.rational 0) (.rational 1) 4).2 (by decide +kernel)
    exact ⟨summary, hsummary, hdescribes, by decide +kernel⟩
  · have hresults : (job.run.toOption.bind fun report => report.integrals.map Summary.results) =
        some [(.simpson, .error (.nonFiniteEndpoint (.rational 0))),
          (.left, .ok (.rational (11 / 6))), (.left, .ok (.rational (11 / 6)))] := by
      decide +kernel
    cases hrun : job.run with
    | error error =>
        rw [hrun] at hresults
        cases hresults
    | ok report =>
        rw [hrun] at hresults
        obtain ⟨all, hall, hagrees⟩ :=
          (summarize_describes_and_run_agrees.2 job _ rfl (by decide)).2 report hrun
        exact ⟨report, all, rfl, hall, hagrees, hresults⟩

end Univariate.Job
