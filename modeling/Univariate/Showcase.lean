import Univariate.Csv.Saving
import Univariate.Grid
import Univariate.Scalar.Binary64
import Univariate.Job.Run

/-! Demonstrations in double precision: what each prints, and the files it leaves. -/

namespace Univariate.Showcase

structure Output where
  printed : Text := []
  files : Csv.Files := []

def line (parts : List Text) : Text := parts.flatten ++ ['\n']

/-- What is printed about a result; nothing about an error. -/
def onSuccess {ε β : Type} (result : Except ε β) (print : β → Text) : Text :=
  match result with
  | .ok value => print value
  | .error _ => []

def truthText (b : Bool) : Text := (toString b).toList

def quotedList (texts : List Text) : Text := Text.bracketed (texts.map Text.quoted)

def numberList (xs : List Float) : Text := Text.bracketed (xs.map Scalar.literal)

def pairText (p : Float × Float) : Text :=
  ['('] ++ Scalar.literal p.1 ++ [',', ' '] ++ Scalar.literal p.2 ++ [')']

def expression (t : String) : Expression Float := Expression.ofText t.toList

def termsAsText : Text :=
  let input := "x^3 - 3x + 2e^x - (x^2 - sin(x))".toList
  let pieces := Expression.pieces input
  let derivative : Expression Float := ⟨Summand.derivatives pieces⟩
  line ["terms of ".toList, input, ": ".toList, quotedList pieces] ++
  line ["3x^2 at x = 2: ".toList, Scalar.plain ((Term.ofText "3x^2".toList).eval (2.0 : Float))] ++
  line ["f(1.5) = ".toList, Scalar.plain (Summand.evalText input (1.5 : Float))] ++
  line ["f'(x) = ".toList, derivative.recognizedText]

def derivativesInMemory : Text :=
  let f := expression "x^4 - 2x^2 + 3cos(x) + e^(2x)"
  let g := expression "x^4 - 2x^2 + 3cos(x)"
  let error := g.derivativeError (-2.0) 2.0 100
  line ["f = ".toList, f.text] ++
  [1, 2, 3, 4].flatMap (fun order =>
    line ["f^(".toList, Numeral.naturalText order, ") = ".toList, (f.nthDerivative order).text]) ++
  line ["f(0.5) = ".toList, Scalar.plain (f.eval 0.5)] ++
  line ["analytic vs numerical derivative: norm = ".toList, Scalar.scientific error,
    ", passed = ".toList, truthText (error < 1e-6)]

def outcomeText (o : Root.Outcome Float) : Text :=
  "RootFindingResult \x7b root: ".toList ++ Scalar.literal o.root ++ ", function_value: ".toList ++
    Scalar.literal o.value ++ ", iterations: ".toList ++ Numeral.naturalText o.iterations ++
    ", converged: ".toList ++ truthText o.converged ++ ", method: ".toList ++
    Text.quoted Root.Bisection.method ++ " \x7d".toList

def rootSearch : Text :=
  let solver : Root.Bisection Float := { tolerance := 1e-10, maxIterations := 200, verbose := true }
  let sweep : Root.Sweep Float := { granularity := 0.01, zeroPolicy := .nudge }
  let f := expression "sin(x) - 0.5x"
  onSuccess (Root.bisect (fun x : Float => x * x - 2.0) 0.0 2.0 1e-12)
    (fun root => line ["sqrt(2) = ".toList, Scalar.plain root]) ++
  onSuccess (solver.run (fun x => x * x * x - x - 1.0) 1.0 2.0) (fun o => line [outcomeText o]) ++
  onSuccess (sweep.run f.eval (-5.0) 5.0)
    (fun roots => line ["roots of ".toList, f.text, ": ".toList, numberList roots])

def derivativeAnalysis : Text :=
  let f := expression "x^4 - 4x^2"
  let first := f.derivative
  let sweep : Root.Sweep Float := { zeroPolicy := .nudge }
  let classifier : CriticalPoint.Classifier Float := {}
  onSuccess (Analysis.derivatives {} "x^3 - 3x".toList (-5.0 : Float) 5.0)
    (fun report => line [report.text]) ++
  onSuccess (sweep.run first.eval (-3.0) 3.0) (fun roots =>
    line [CriticalPoint.table (classifier.points f.eval first.derivative.eval roots)])

def integrals : Text :=
  let f := expression "sin(x)"
  onSuccess (Analysis.integral "x^2".toList (0.0 : Float) 1.0 10) (fun s => line [s.table]) ++
  onSuccess (Analysis.integralOfText (α := Float) "2e + x**3".toList ['0'] ['1'] ['5', '0'])
    (fun s => line [s.table]) ++
  [2, 4, 8, 16].flatMap (fun n =>
    onSuccess (Quadrature.integrate .gaussLegendre f.eval 0.0 3.141592653589793 n)
      (fun value => line ["Gauss-Legendre, ".toList, Numeral.naturalText n, " nodes: ".toList,
        Scalar.plain value]))

def strictReading : Text :=
  let permissive := expression "x^2 + ln(x)"
  ["x^2 + 3x", "x^2 + ln(x)", "(x + 1"].flatMap (fun input =>
    let answer := match Expression.ofTextStrict (α := Float) input.toList with
      | .ok e => e.text
      | .error error => "error: ".toList ++ error.message
    line [input.toList, " -> ".toList, answer]) ++
  line ["permissive parse evaluates ".toList, quotedList (permissive.unrecognized.map Term.text),
    " as 0: f(2) = ".toList, Scalar.plain (permissive.eval 2.0)]

def samples : Output :=
  let data := Expression.plot "x^3 - 3x".toList (-10.0 : Float) 10.0 200
  let f := expression "x^3 - 3x"
  let grid := Grid.points (-3.0 : Float) 3.0 61
  let sheet : Csv.Sheet Float :=
    { argument := ['x'], grid, headers := [['f'], ['d', 'f'], ['d', '2', 'f']]
      columns := [f, f.derivative, f.nthDerivative 2].map fun e => grid.map e.eval }
  let (_, files) :=
    ((Csv.Sheet.ofSamples data ['x'] "f(x)".toList).save "graph_data.csv".toList).runOn []
  let (_, files) := (sheet.save "calculus_example.csv".toList).runOn files
  { printed := line ["first samples: ".toList, Text.bracketed ((data.take 3).map pairText)]
    files }

def jobDocument : Text :=
  "function
    expression: x^4-2x^2
  derivative
    start: -3 end: 3 zero_policy: nudge
  integral
    a: -1 b: 1 n: 64 method: simpson, gauss_legendre
  logging
    loglevel: info
  ".toList

def jobRun : Text :=
  onSuccess (Job.ofText (α := Float) jobDocument) fun job =>
    onSuccess job.run fun report => line [report.text]

/-- The demonstration of a number. -/
def run : Nat → Output
  | 0 => { printed := termsAsText }
  | 1 => { printed := derivativesInMemory }
  | 2 => { printed := rootSearch }
  | 3 => { printed := derivativeAnalysis }
  | 4 => { printed := integrals }
  | 5 => { printed := strictReading }
  | 6 => samples
  | 7 => { printed := jobRun }
  | n => { printed := line ["no example with number ".toList, Numeral.naturalText n] }

end Univariate.Showcase
