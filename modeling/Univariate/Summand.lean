import Univariate.Scalar
import Univariate.Text.Blank
import Univariate.Text.Brackets

/-!
Sums in text form. A text is cut before the signs that stand outside all brackets; the pieces
concatenate to the text. Groups in brackets are taken apart in turn, with the signs before them
multiplied into every leaf.
-/

namespace Univariate.Summand

def isSign (c : Char) : Bool := c == '+' || c == '-'

def depthAfter (depth : Int) (c : Char) : Int :=
  if c == '(' then depth + 1 else if c == ')' then depth - 1 else depth

/-- A sign directly after `^` belongs to the exponent. -/
def cuts (depth : Int) (previous c : Char) : Bool :=
  isSign c && depth == 0 && previous != '^'

def consHead (c : Char) : List Text → List Text
  | [] => [[c]]
  | piece :: pieces => (c :: piece) :: pieces

/-- The first piece, possibly empty, continues the one that is open. The depth has no bound here; it
is meant for texts with fewer than `2 ^ 31` open brackets, where 32 bits hold it. -/
def splitAfter (depth : Int) (previous : Char) : Text → List Text
  | [] => [[]]
  | c :: rest =>
    let pieces := consHead c (splitAfter (depthAfter depth c) c rest)
    if cuts depth previous c then [] :: pieces else pieces

/-- No cut lies before the first character, and the empty text has no piece. -/
def split : Text → List Text
  | [] => []
  | c :: rest => consHead c (splitAfter (depthAfter 0 c) c rest)

theorem flatten_consHead (c : Char) (pieces : List Text) :
    (consHead c pieces).flatten = c :: pieces.flatten := by
  cases pieces <;> rfl

theorem flatten_splitAfter (depth : Int) (previous : Char) (t : Text) :
    (splitAfter depth previous t).flatten = t := by
  induction t generalizing depth previous with
  | nil => rfl
  | cons c rest ih =>
    by_cases h : cuts depth previous c <;> simp [splitAfter, h, flatten_consHead, ih]

theorem flatten_split (t : Text) : (split t).flatten = t := by
  cases t with
  | nil => rfl
  | cons c rest => rw [split, flatten_consHead, flatten_splitAfter]

theorem length_le_of_mem_split {t piece : Text} (h : piece ∈ split t) :
    piece.length ≤ t.length := by
  rw [← flatten_split t]
  exact (List.sublist_flatten_of_mem h).length_le

variable {α : Type} [Scalar α]

/-- The sign in front as a factor, and the text after it. Blanks around the piece do not count. -/
def takeSign (piece : Text) : α × Text :=
  let (negative, body) := piece.trim.takeSign
  (if negative then -1 else 1, body)

theorem length_takeSign_le (piece : Text) :
    (takeSign (α := α) piece).2.length ≤ piece.length :=
  Nat.le_trans (Text.length_takeSign_le _) (Text.length_trim_le _)

theorem length_lt_of_groupInterior? {piece inner sub : Text}
    (hinner : Text.groupInterior? (takeSign (α := α) piece).2 = some inner)
    (hsub : sub ∈ split inner) : sub.length < piece.length := by
  have hsign := length_takeSign_le (α := α) piece
  have hlength := congrArg List.length (Text.eq_of_groupInterior? hinner)
  have hle := length_le_of_mem_split hsub
  simp only [List.length_cons, List.length_append, List.length_nil] at hlength
  omega

/-- The signed leaves of a piece. A sign with nothing after it has none. -/
def leaves (sign : α) (piece : Text) : List (α × Text) :=
  let taken := takeSign piece
  match _h : Text.groupInterior? taken.2 with
  | some inner =>
    (split inner).attach.flatMap fun ⟨sub, _⟩ => leaves (sign * taken.1) sub
  | none => if taken.2.isEmpty then [] else [(sign * taken.1, taken.2)]
termination_by piece.length
decreasing_by exact length_lt_of_groupInterior? (α := α) ‹_› ‹_›

theorem leaves_eq (sign : α) (piece : Text) :
    leaves sign piece =
      match Text.groupInterior? (takeSign (α := α) piece).2 with
      | some inner => (split inner).flatMap (leaves (sign * (takeSign piece).1))
      | none =>
        if (takeSign (α := α) piece).2.isEmpty then []
        else [(sign * (takeSign piece).1, (takeSign (α := α) piece).2)] := by
  rw [leaves]
  split
  · rename_i inner h
    rw [h]
    simp
  · rename_i h
    rw [h]

/-- The leaves of all pieces, each with its own sign. -/
def expand (pieces : List Text) : List (α × Text) :=
  pieces.flatMap (leaves 1)

end Univariate.Summand
