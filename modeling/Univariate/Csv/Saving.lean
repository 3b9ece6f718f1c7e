import Univariate.Csv
import Univariate.Document.Entries

/-! Sheets written to files, one record after another. -/

namespace Univariate.Csv

/-- Texts of files by their names. -/
abbrev Files := Entries Text Text

inductive Fault where
  | invalidInput (message : Text)
  | unevenRecords (expected found : Nat)
  deriving DecidableEq, Repr

/-- What was written before a fault stays written. -/
abbrev Saving := ExceptT Fault (StateM Files)

namespace Saving

def runOn {β : Type} (files : Files) (saving : Saving β) : Except Fault β × Files :=
  saving.run.run files

/-- A file of that name starts without text, whatever it held. -/
def create (name : Text) : Saving Unit :=
  modify (Entries.update name fun _ => [])

def append (name text : Text) : Saving Unit :=
  modify (Entries.update name fun old => old.getD [] ++ text)

/-- Records of one file have equally many cells. -/
def write (name : Text) (width : Nat) (cells : List Text) : Saving Unit :=
  if cells.length = width then append name (record cells)
  else throw (.unevenRecords width cells.length)

end Saving

variable {α : Type} [Scalar α]

def Sheet.save (s : Sheet α) (name : Text) : Saving Unit := do
  if !s.isComplete then throw (.invalidInput incompleteMessage)
  Saving.create name
  (s.heading :: s.rows).forM (Saving.write name s.heading.length)

end Univariate.Csv
