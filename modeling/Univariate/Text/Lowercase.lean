import Univariate.Text.Basic
import Univariate.Text.CaseTable

/-! Lower-casing in every script. -/

namespace Univariate.Text

def lowerChar (c : Char) : Char :=
  if c.toNat < 0x80 then c.toLower
  else
    match caseRuns.find? fun run =>
        run.first ≤ c.toNat && c.toNat ≤ run.last && (c.toNat - run.first) % run.step == 0 with
    | some run => Char.ofNat (c.toNat + run.shift).toNat
    | none => c

/-- Whether the first character that is not ignorable has a case. -/
def startsCased (t : Text) : Bool :=
  match t.dropWhile caseIgnorable.contains with
  | c :: _ => cased.contains c
  | [] => false

/-- A sigma that ends a word has a form of its own, and a dotted capital I keeps its dot. The text
read so far is held with its last character first. -/
def lowerAfter : Text → Text → Text
  | _, [] => []
  | before, c :: rest =>
    (if c = 'Σ' then [if startsCased before && !startsCased rest then 'ς' else 'σ']
      else if c = 'İ' then ['i', '\u0307']
      else [lowerChar c]) ++ lowerAfter (c :: before) rest

def lowercase (t : Text) : Text := lowerAfter [] t

end Univariate.Text
