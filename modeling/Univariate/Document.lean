import Univariate.Document.Entries
import Univariate.Document.Reader
import Univariate.Text.Quoted

/-! Documents: values by section and key. A later entry with the same title and key wins. -/

namespace Univariate

variable {α : Type} [Scalar α]

namespace Document

/-- A key without values stands for one that only a template names. -/
abbrev Section (α : Type) := Entries Text (Option (List (Value α)))

/-- Section titles with their keys. -/
abbrev Template := List (Text × List Text)

inductive Error where
  /-- The text left where the first section cannot be read. -/
  | noSection (rest : Text)
  /-- The text left after the last section. -/
  | trailing (rest : Text)
deriving DecidableEq

def Error.message : Error → Text
  | noSection rest =>
    "Parsing error: Error(Error \x7b input: ".toList ++ rest.quoted ++
      ", code: Tag \x7d)".toList
  | trailing rest =>
    "Failed to parse entire document. Remaining: '".toList ++ rest ++ "'".toList

end Document

abbrev Document (α : Type) := Entries Text (Document.Section α)

namespace Document

def Section.write (s : Section α) (pair : Text × List Text) : Section α :=
  Entries.update pair.1 (fun _ => some (pair.2.map Value.ofText)) s

def write (d : Document α) (written : WrittenSection) : Document α :=
  Entries.update written.title
    (fun s => written.pairs.foldl Section.write (s.getD [])) d

def ofSections (sections : List WrittenSection) : Document α := sections.foldl write []

def ofText (t : Text) : Except Error (Document α) :=
  match takeSection (withoutComments t) with
  | .error failed => .error (.noSection failed)
  | .ok (first, rest) =>
    let (others, rest) := takeSections rest
    if rest.trim.isEmpty then .ok (ofSections (first :: others))
    else .error (.trailing rest.trim)

/-- Adds the keys that are missing, without values. -/
def Section.complete (s : Section α) (keys : List Text) : Section α :=
  keys.foldl (fun s key => Entries.update key Option.join s) s

def complete (d : Document α) (template : Template) : Document α :=
  template.foldl
    (fun d (title, keys) => Entries.update title (fun s => Section.complete (s.getD []) keys) d) d

end Document

end Univariate
