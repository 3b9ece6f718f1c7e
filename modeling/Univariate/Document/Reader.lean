import Univariate.Document.Value
import Univariate.Text.Blank

/-!
Reading documents. A section is a title and one or more pairs; a pair is a key, a colon, and values
with commas between them. Each reader returns what is left of the text. A section that cannot be read
reports the text left at the point of failure.
-/

namespace Univariate.Document

variable {α : Type} [Scalar α]

def isSpace (c : Char) : Bool := c == ' ' || c == '\t'

def isGap (c : Char) : Bool := isSpace c || c == '\r' || c == '\n'

def skipSpaces (t : Text) : Text := t.dropWhile isSpace

def skipGap (t : Text) : Text := t.dropWhile isGap

def isNameStart (c : Char) : Bool := c.isAlpha || c == '_'

def isNamePart (c : Char) : Bool := c.isAlphanum || c == '_'

def isValuePart (c : Char) : Bool := c != ',' && c != ';' && !Text.isBlank c

/-- Titles and keys. -/
def takeName? : Text → Option (Text × Text)
  | [] => none
  | c :: rest =>
    if isNameStart c then some (c :: rest.takeWhile isNamePart, rest.dropWhile isNamePart) else none

def takeValue? (t : Text) : Option (Text × Text) :=
  match t.takeWhile isValuePart with
  | [] => none
  | value => some (value, t.dropWhile isValuePart)

/-- A comma between spaces, and the value after it. -/
def takeNextValue? (t : Text) : Option (Text × Text) :=
  match skipSpaces t with
  | ',' :: rest => takeValue? (skipSpaces rest)
  | _ => none

theorem length_dropWhile_le (p : Char → Bool) (t : Text) : (t.dropWhile p).length ≤ t.length :=
  (List.dropWhile_suffix p).length_le

theorem length_lt_of_takeName? {t name rest : Text} (h : takeName? t = some (name, rest)) :
    rest.length < t.length := by
  unfold takeName? at h
  split at h
  · simp at h
  · rename_i tail
    split at h
    · cases h
      exact Nat.lt_succ_of_le (length_dropWhile_le isNamePart tail)
    · simp at h

theorem length_le_of_takeValue? {t value rest : Text} (h : takeValue? t = some (value, rest)) :
    rest.length ≤ t.length := by
  unfold takeValue? at h
  split at h
  · simp at h
  · cases h
    exact length_dropWhile_le isValuePart t

theorem length_lt_of_takeNextValue? {t value rest : Text}
    (h : takeNextValue? t = some (value, rest)) : rest.length < t.length := by
  unfold takeNextValue? at h
  split at h
  · rename_i tail hskip
    have hvalue := length_le_of_takeValue? h
    have hspaces := length_dropWhile_le isSpace tail
    have hstart := length_dropWhile_le isSpace t
    simp only [skipSpaces] at *
    simp only [hskip, List.length_cons] at hstart
    omega
  · simp at h

/-- The values after the first. A comma without a value after it is left. -/
def takeMoreValues (t : Text) : List Text × Text :=
  match _h : takeNextValue? t with
  | some (value, rest) =>
    let more := takeMoreValues rest
    (value :: more.1, more.2)
  | none => ([], t)
termination_by t.length
decreasing_by exact length_lt_of_takeNextValue? ‹_›

/-- Possibly no value at all. -/
def takeValues (t : Text) : List Text × Text :=
  match takeValue? t with
  | some (value, rest) =>
    let more := takeMoreValues rest
    (value :: more.1, more.2)
  | none => ([], t)

theorem length_takeMoreValues_le (t : Text) : (takeMoreValues t).2.length ≤ t.length := by
  fun_induction takeMoreValues t with
  | case1 t value rest h more ih => exact Nat.le_trans ih (Nat.le_of_lt (length_lt_of_takeNextValue? h))
  | case2 => exact Nat.le_refl _

theorem length_takeValues_le (t : Text) : (takeValues t).2.length ≤ t.length := by
  unfold takeValues
  split
  · rename_i value rest h
    exact Nat.le_trans (length_takeMoreValues_le rest) (length_le_of_takeValue? h)
  · exact Nat.le_refl _

/-- A key and the texts of its values, together with what is left after the blanks behind them. -/
def takePair (t : Text) : Except Text ((Text × List Text) × Text) :=
  match takeName? t with
  | none => .error t
  | some (key, rest) =>
    match skipSpaces rest with
    | ':' :: rest =>
      let taken := takeValues (skipSpaces rest)
      .ok ((key, taken.1), taken.2.trimStart)
    | rest => .error rest

theorem length_lt_of_takePair {t rest : Text} {pair : Text × List Text}
    (h : takePair t = .ok (pair, rest)) : rest.length < t.length := by
  unfold takePair at h
  split at h
  · simp at h
  · rename_i key named hname
    split at h
    · rename_i tail hcolon
      cases h
      have hlt := length_lt_of_takeName? hname
      have hspaces := length_dropWhile_le isSpace named
      have hvalues := length_takeValues_le (skipSpaces tail)
      have htail := length_dropWhile_le isSpace tail
      have hend := length_dropWhile_le Text.isBlank (takeValues (skipSpaces tail)).2
      rw [← skipSpaces, hcolon, List.length_cons] at hspaces
      rw [← skipSpaces] at htail
      rw [← Text.trimStart] at hend
      omega
    · simp at h

/-- As many pairs as there are. -/
def takePairs (t : Text) : List (Text × List Text) × Text :=
  match _h : takePair t with
  | .ok (pair, rest) =>
    let more := takePairs rest
    (pair :: more.1, more.2)
  | .error _ => ([], t)
termination_by t.length
decreasing_by exact length_lt_of_takePair ‹_›

theorem length_takePairs_le (t : Text) : (takePairs t).2.length ≤ t.length := by
  fun_induction takePairs t with
  | case1 t pair rest h more ih => exact Nat.le_trans ih (Nat.le_of_lt (length_lt_of_takePair h))
  | case2 => exact Nat.le_refl _

/-- A title and its pairs, as they are written. -/
structure WrittenSection where
  title : Text
  pairs : List (Text × List Text)
deriving DecidableEq

def takeSection (t : Text) : Except Text (WrittenSection × Text) :=
  match takeName? (skipGap t) with
  | none => .error (skipGap t)
  | some (title, rest) =>
    match takePair (skipGap rest) with
    | .error failed => .error failed
    | .ok (pair, rest) =>
      let more := takePairs rest
      .ok (⟨title, pair :: more.1⟩, more.2)

theorem length_lt_of_takeSection {t rest : Text} {written : WrittenSection}
    (h : takeSection t = .ok (written, rest)) : rest.length < t.length := by
  unfold takeSection at h
  split at h
  · simp at h
  · rename_i title named hname
    split at h
    · simp at h
    · rename_i pair paired hpair
      cases h
      have htitle := length_lt_of_takeName? hname
      have hstart := length_dropWhile_le isGap t
      have hgap := length_dropWhile_le isGap named
      have hfirst := length_lt_of_takePair hpair
      have hpairs := length_takePairs_le paired
      simp only [skipGap] at *
      omega

/-- As many sections as there are. -/
def takeSections (t : Text) : List WrittenSection × Text :=
  match _h : takeSection t with
  | .ok (written, rest) =>
    let more := takeSections rest
    (written :: more.1, more.2)
  | .error _ => ([], t)
termination_by t.length
decreasing_by exact length_lt_of_takeSection ‹_›

/-- Blank lines and lines that start, after blanks, with a comment mark. -/
def isIgnored (line : Text) : Bool :=
  match line.trim with
  | [] | '#' :: _ | '%' :: _ | ';' :: _ | '/' :: '/' :: _ => true
  | _ => false

def withoutComments (t : Text) : Text :=
  List.intercalate ['\n'] (t.lines.filter (!isIgnored ·))

end Univariate.Document
