import Univariate.Text.Basic
import Univariate.Text.Escaped

/-! Texts between double quotes, with unprintable characters spelled out. -/

namespace Univariate.Text

/-- A character by its code point in hexadecimal: `\u{1f}`. -/
def codePoint (c : Char) : Text :=
  "\\u\x7b".toList ++ Nat.toDigits 16 c.toNat ++ "\x7d".toList

def quotedChar (c : Char) : Text :=
  match c with
  | '\x00' => ['\\', '0']
  | '\t' => ['\\', 't']
  | '\r' => ['\\', 'r']
  | '\n' => ['\\', 'n']
  | '"' => ['\\', '"']
  | '\\' => ['\\', '\\']
  | _ =>
    if c.toNat < 0x20 || c.toNat == 0x7f || beyondAsciiEscaped.contains c then codePoint c else [c]

def quoted (t : Text) : Text :=
  ['"'] ++ t.flatMap quotedChar ++ ['"']

/-- `[a, b, c]` -/
def bracketed (items : List Text) : Text :=
  ['['] ++ List.intercalate [',', ' '] items ++ [']']

end Univariate.Text
