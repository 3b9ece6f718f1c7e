import Univariate.Main
import Univariate.Proofs.Text.Brackets
import Univariate.Proofs.Text.Pairs
import Univariate.Proofs.Text.Lines
import Univariate.Proofs.Summand.Split
import Univariate.Proofs.Summand.WrittenSum
import Univariate.Proofs.Summand.Leaves
import Univariate.Proofs.Summand.Cuts
import Univariate.Proofs.Summand.Expansion
import Univariate.Proofs.Numeral.Positional
import Univariate.Proofs.Numeral.Shortest
import Univariate.Proofs.Scalar.Order
import Univariate.Proofs.Scalar.Exact
import Univariate.Proofs.Scalar.Factor
import Univariate.Proofs.Scalar.Binary64
import Univariate.Proofs.Scalar.Binary64.Order
import Univariate.Proofs.Scalar.Binary64.Rounding
import Univariate.Proofs.Scalar.Binary64.Distance
import Univariate.Proofs.Scalar.Binary64.Factor
import Univariate.Proofs.Scalar.Binary64.Decimal
import Univariate.Proofs.Scalar.Binary64.Printing
import Univariate.Proofs.Term.Number
import Univariate.Proofs.Term.Outline
import Univariate.Proofs.Term.Factor
import Univariate.Proofs.Term.Printing
import Univariate.Proofs.Term.Stars
import Univariate.Proofs.Expression.Grammar
import Univariate.Proofs.Expression.Printing
import Univariate.Proofs.Expression.Taylor
import Univariate.Proofs.Expression.Negation
import Univariate.Proofs.Expression.FromText
import Univariate.Proofs.Expression.Groups
import Univariate.Proofs.Expression.Respelling
import Univariate.Proofs.Expression.Polynomial
import Univariate.Proofs.Expression.Number
import Univariate.Proofs.Term.Shape
import Univariate.Proofs.Term.Signed
import Univariate.Proofs.Root.Search
import Univariate.Proofs.Root.Bisection
import Univariate.Proofs.Root.Sweep
import Univariate.Proofs.Root.Pieces
import Univariate.Proofs.Root.Probes
import Univariate.Proofs.Root.Line
import Univariate.Proofs.Root.Samples
import Univariate.Proofs.Root.LineSweep
import Univariate.Proofs.Quadrature.Summary
import Univariate.Proofs.Quadrature.Composite
import Univariate.Proofs.Quadrature.Simpson
import Univariate.Proofs.Quadrature.Weights
import Univariate.Proofs.Quadrature.Monotone
import Univariate.Proofs.Quadrature.Adjacent
import Univariate.Proofs.Analysis.Integrand
import Univariate.Proofs.Analysis.Function
import Univariate.Proofs.Analysis.Negation
import Univariate.Proofs.Analysis.Parabola
import Univariate.Proofs.Document.Layout
import Univariate.Proofs.Document.Comments
import Univariate.Proofs.Document.Reading
import Univariate.Proofs.Document.Written
import Univariate.Proofs.Document.Completion
import Univariate.Proofs.Document.Order
import Univariate.Proofs.Job.Function
import Univariate.Proofs.Job.Integral
import Univariate.Proofs.Job.Rules
import Univariate.Proofs.Job.Reading
import Univariate.Proofs.Job.Template
import Univariate.Proofs.Job.Order
import Univariate.Proofs.Job.Expression
import Univariate.Proofs.Expression.AdjacentSigns
import Univariate.Proofs.Analysis.CriticalPoint
import Univariate.Proofs.Csv.Reader
import Univariate.Proofs.Csv.Saving
