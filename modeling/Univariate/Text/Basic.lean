/-! Texts as lists of characters, so that functions on them are recursions on lists. -/

namespace Univariate

abbrev Text := List Char

namespace Text

/-- Lines end at a line feed, a carriage return directly before it included. The end of the text ends
a last line that is not empty. -/
def lines : Text → List Text
  | [] => []
  | '\n' :: rest => [] :: lines rest
  | '\r' :: '\n' :: rest => [] :: lines rest
  | c :: rest =>
    match lines rest, rest with
    | line :: others, _ :: _ => (c :: line) :: others
    | others, _ => [c] :: others

/-- Takes a sign off the front; true for a minus. -/
def takeSign : Text → Bool × Text
  | '-' :: rest => (true, rest)
  | '+' :: rest => (false, rest)
  | t => (false, t)

theorem length_takeSign_le (t : Text) : (takeSign t).2.length ≤ t.length := by
  unfold takeSign
  split <;> simp

/-- Length in the UTF-8 encoding. -/
def utf8Length (t : Text) : Nat :=
  t.foldr (fun c n => c.utf8Size + n) 0

/-- What is left after so many UTF-8 bytes; nothing when the cut is inside a character or past the
end. -/
def dropBytes? : Nat → Text → Option Text
  | 0, t => some t
  | _ + 1, [] => none
  | n + 1, c :: rest => if c.utf8Size ≤ n + 1 then dropBytes? (n + 1 - c.utf8Size) rest else none

theorem dropBytes?_utf8Length (t rest : Text) : dropBytes? t.utf8Length (t ++ rest) = some rest := by
  induction t with
  | nil => cases rest <;> rfl
  | cons c t ih =>
    have hc := c.utf8Size_pos
    obtain ⟨n, hn⟩ : ∃ n, utf8Length (c :: t) = n + 1 :=
      ⟨c.utf8Size - 1 + utf8Length t, by simp [utf8Length]; omega⟩
    have hsum : utf8Length (c :: t) = c.utf8Size + utf8Length t := by simp [utf8Length]
    rw [List.cons_append, hn, dropBytes?, if_pos (by omega),
      show n + 1 - c.utf8Size = utf8Length t by omega, ih]

end Text

end Univariate
