import Univariate.Analysis.Derivative
import Univariate.Analysis.Integral
import Univariate.Job

/-! Running a job. -/

namespace Univariate.Job

variable {α : Type} [Scalar α]

structure Report (α : Type) where
  derivatives : Option (Analysis.DerivativeReport α)
  integrals : Option (Quadrature.Summary α)

def integralText (s : Quadrature.Summary α) : Text :=
  "integral on [".toList ++ Scalar.plain s.a ++ ", ".toList ++ Scalar.plain s.b ++
    "], n = ".toList ++ Numeral.naturalText s.n ++ ['\n'] ++ s.table ++ ['\n']

def Report.text (r : Report α) : Text :=
  (r.derivatives.map fun d => d.text ++ ['\n']).getD [] ++ (r.integrals.map integralText).getD []

def runDerivative (job : Job α) (part : DerivativePart α) :
    Except (Analysis.Error α) (Analysis.DerivativeReport α) :=
  Analysis.derivatives { strictness := job.strictness, sweep := part.sweep } job.expression
    part.start part.stop

/-- Limits and pieces are looked at before the integrand. Without chosen rules the summary of all
classic rules looks at them again. -/
def runIntegral (job : Job α) (part : IntegralPart α) :
    Except (Analysis.Error α) (Quadrature.Summary α) := do
  if let some error := Quadrature.fault? part.a part.b part.n then
    throw (.quadrature error)
  let e : Expression α ←
    (Expression.read job.strictness (Integrand.respell job.expression)).mapError .parse
  if part.rules.isEmpty then
    (Quadrature.summarize e.eval part.a part.b part.n).mapError .quadrature
  else
    let results := part.rules.map fun rule =>
      (rule, Quadrature.integrate rule e.eval part.a part.b part.n)
    return { a := part.a, b := part.b, n := part.n, results }

/-- The parts that the job has, the derivative first. -/
def run (job : Job α) : Except (Analysis.Error α) (Report α) := do
  let derivatives ← job.derivative.mapM (runDerivative job)
  let integrals ← job.integral.mapM (runIntegral job)
  return { derivatives, integrals }

end Univariate.Job
