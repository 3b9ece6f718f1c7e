import Univariate.Text.Basic
import Univariate.Text.CharSet

/-! Blanks: the characters of the Unicode property White_Space. -/

namespace Univariate.Text

def blanks : CharSet := ⟨[
  0x9, 0xe, 0x20, 0x21, 0x85, 0x86, 0xa0, 0xa1, 0x1680, 0x1681, 0x2000, 0x200b, 0x2028, 0x202a,
  0x202f, 0x2030, 0x205f, 0x2060, 0x3000, 0x3001]⟩

def isBlank (c : Char) : Bool := blanks.contains c

def trimStart (t : Text) : Text := t.dropWhile isBlank

def trimEnd (t : Text) : Text := (t.reverse.dropWhile isBlank).reverse

def trim (t : Text) : Text := t.trimStart.trimEnd

def withoutBlanks (t : Text) : Text := t.filter (!isBlank ·)

theorem length_trim_le (t : Text) : t.trim.length ≤ t.length := by
  have hstart := (List.dropWhile_suffix isBlank (l := t)).length_le
  have hend := (List.dropWhile_suffix isBlank (l := (t.dropWhile isBlank).reverse)).length_le
  simp only [trim, trimEnd, trimStart, List.length_reverse] at *
  omega

end Univariate.Text
