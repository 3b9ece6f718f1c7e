import Univariate.Document
import Univariate.LogLevel
import Univariate.Quadrature.Rule
import Univariate.Root.Sweep
import Univariate.Expression

/-! Jobs: a function and what is to be done with it, read from a document. -/

namespace Univariate

variable {α : Type} [Scalar α]

namespace Job

structure DerivativePart (α : Type) [Scalar α] where
  start : α
  stop : α
  sweep : Root.Sweep α

structure IntegralPart (α : Type) where
  a : α
  b : α
  n : Nat
  /-- None stands for all classic rules. -/
  rules : List Quadrature.Rule

/-- Titles and keys that a job document may contain. -/
def template : Document.Template := [
  ("function".toList, ["expression".toList, "mode".toList]),
  ("derivative".toList, ["start".toList, "end".toList, "granularity".toList, "tolerance".toList,
    "zero_policy".toList]),
  ("integral".toList, ["a".toList, "b".toList, "n".toList, "method".toList]),
  ("logging".toList, ["loglevel".toList, "to_file".toList])]

/-- A key with the title of its section. -/
structure Place where
  title : Text
  key : Text
deriving DecidableEq

def Place.text (p : Place) : Text := p.title ++ ['.'] ++ p.key

inductive Error where
  | document (error : Document.Error)
  | unknownSection (title : Text)
  | unknownKey (place : Place)
  | noFunction
  | noExpression
  | severalValues (place : Place)
  | notANumber (place : Place) (value : Text)
  | mode (value : Text)
  | zeroPolicy (value : Text)
  | pieces (value : Text)
  | unknownRule (value : Text)
  | toFile (value : Text)
deriving DecidableEq

def Error.message : Error → Text
  | document error => error.message
  | unknownSection title => "unknown section '".toList ++ title ++ "'".toList
  | unknownKey place =>
    "unknown key '".toList ++ place.key ++ "' in section '".toList ++ place.title ++ "'".toList
  | noFunction => "section 'function' is required".toList
  | noExpression => "function.expression is required".toList
  | severalValues place => place.text ++ " expects exactly one value".toList
  | notANumber place value => place.text ++ " must be a number, got '".toList ++ value ++ "'".toList
  | mode value => "function.mode must be permissive or strict, got '".toList ++ value ++ "'".toList
  | zeroPolicy value =>
    "derivative.zero_policy must be skip or nudge, got '".toList ++ value ++ "'".toList
  | pieces value => "integral.n must be a positive integer, got '".toList ++ value ++ "'".toList
  | unknownRule value => "unknown integration method '".toList ++ value ++ "'".toList
  | toFile value => "logging.to_file must be true or false, got '".toList ++ value ++ "'".toList

end Job

structure Job (α : Type) [Scalar α] where
  expression : Text
  strictness : Strictness
  derivative : Option (Job.DerivativePart α)
  integral : Option (Job.IntegralPart α)
  logLevel : Option Text
  logToFile : Bool

namespace Job

open Document (Section Value)

/-- The first title, or key under a known title, that the template does not name. -/
def unknownName? (d : Document α) : Option Error :=
  d.findSome? fun (title, entries) =>
    match Entries.get? template title with
    | none => some (.unknownSection title)
    | some keys =>
      (entries.find? fun entry => !keys.contains entry.1).map fun entry =>
        .unknownKey ⟨title, entry.1⟩

/-- The value of a key that has exactly one; nothing for a key that is not written. -/
def single (s : Section α) (place : Place) : Except Error (Option (Value α)) :=
  match (Entries.get? s place.key).join with
  | none => .ok none
  | some [value] => .ok (some value)
  | some _ => .error (.severalValues place)

def numberOr (s : Section α) (title key : String) (default : α) : Except Error α :=
  let place : Place := ⟨title.toList, key.toList⟩
  (single s place).bind fun
    | none => .ok default
    | some value =>
      match value.number? with
      | some x => .ok x
      | none => .error (.notANumber place value.render)

def textOf (s : Section α) (title key : String) : Except Error (Option Text) :=
  (single s ⟨title.toList, key.toList⟩).map (·.map Value.render)

/-- Whether any key has values. -/
def isWritten (s : Section α) : Bool := s.any (·.2.isSome)

def readStrictness (function : Section α) : Except Error Strictness :=
  (textOf function "function" "mode").bind fun
    | none => .ok .permissive
    | some t =>
      match Strictness.ofName? t with
      | some mode => .ok mode
      | none => .error (.mode t)

def readZeroPolicy (s : Section α) (default : Root.ZeroPolicy) : Except Error Root.ZeroPolicy :=
  (textOf s "derivative" "zero_policy").bind fun
    | none => .ok default
    | some t =>
      match Root.ZeroPolicy.ofName? t with
      | some policy => .ok policy
      | none => .error (.zeroPolicy t)

/-- The sweep starts from the settings of an analysis, the range from `[-10, 10]`. -/
def readDerivative (s : Section α) : Except Error (DerivativePart α) := do
  let defaults : Root.Sweep α := { zeroPolicy := .nudge }
  let granularity ← numberOr s "derivative" "granularity" defaults.granularity
  let tolerance ← numberOr s "derivative" "tolerance" defaults.tolerance
  let zeroPolicy ← readZeroPolicy s defaults.zeroPolicy
  let start ← numberOr s "derivative" "start" (-10)
  let stop ← numberOr s "derivative" "end" 10
  return { start, stop, sweep := { defaults with granularity, tolerance, zeroPolicy } }

def readPieces (s : Section α) : Except Error Nat :=
  (single s ⟨"integral".toList, "n".toList⟩).bind fun
    | none => .ok Quadrature.defaultPieces
    | some value =>
      match value.integer? with
      | some n => if 0 < n then .ok n.toNat else .error (.pieces value.render)
      | none => .error (.pieces value.render)

def readRule (value : Value α) : Except Error Quadrature.Rule :=
  match Quadrature.Rule.ofName? value.render with
  | some rule => .ok rule
  | none => .error (.unknownRule value.render)

def readIntegral (s : Section α) : Except Error (IntegralPart α) := do
  let n ← readPieces s
  let rules ← ((Entries.get? s "method".toList).join.getD []).mapM readRule
  let a ← numberOr s "integral" "a" 0
  let b ← numberOr s "integral" "b" 1
  return { a, b, n, rules }

def readToFile (s : Section α) : Except Error Bool :=
  (single s ⟨"logging".toList, "to_file".toList⟩).bind fun
    | none => .ok false
    | some value =>
      match value.truth? with
      | some b => .ok b
      | none => .error (.toFile value.render)

/-- A part whose section is not written is left out. -/
def readPart {β : Type} (d : Document α) (title : String) (read : Section α → Except Error β) :
    Except Error (Option β) :=
  match (Entries.get? d title.toList).filter isWritten with
  | some s => (read s).map some
  | none => .ok none

def ofDocument (d : Document α) : Except Error (Job α) := do
  if let some error := unknownName? d then
    throw error
  let some function := Entries.get? d "function".toList | throw .noFunction
  let some expression ← textOf function "function" "expression" | throw .noExpression
  let strictness ← readStrictness function
  let derivative ← readPart d "derivative" readDerivative
  let integral ← readPart d "integral" readIntegral
  let logging := (Entries.get? d "logging".toList).getD []
  let logLevel ← textOf logging "logging" "loglevel"
  let logToFile ← readToFile logging
  return { expression, strictness, derivative, integral, logLevel, logToFile }

/-- The document is completed by the template before it is read. -/
def ofText (t : Text) : Except Error (Job α) :=
  match Document.ofText t with
  | .error error => .error (.document error)
  | .ok d => ofDocument (Document.complete d template)

end Job

end Univariate
