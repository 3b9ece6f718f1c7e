import Univariate.Text.Blank
import Univariate.Text.Lowercase

/-! How much a run reports. -/

namespace Univariate

inductive LogLevel where
  | off
  | error
  | warn
  | info
  | debug
deriving DecidableEq, Repr

namespace LogLevel

def name : LogLevel → Text
  | off => "off".toList
  | error => "error".toList
  | warn => "warn".toList
  | info => "info".toList
  | debug => "debug".toList

structure UnknownLevel where
  /-- In lower case, without the blanks around it. -/
  text : Text

def UnknownLevel.message (unknown : UnknownLevel) : Text :=
  "loglevel must be debug, info, warn, error or off, got '".toList ++ unknown.text ++ "'".toList

/-- Letter case and blanks around the name do not matter. -/
def ofText (t : Text) : Except UnknownLevel LogLevel :=
  let text := t.trim.lowercase
  match [off, error, warn, info, debug].find? (·.name == text) with
  | some level => .ok level
  | none => .error { text }

/-- Without a choice, `info`. -/
def chosen : Option Text → Except UnknownLevel LogLevel
  | some t => ofText t
  | none => .ok info

end LogLevel

end Univariate
