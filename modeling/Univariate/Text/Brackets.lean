import Univariate.Text.Basic

/-! Round brackets: balance, and the partner of an opening bracket. -/

namespace Univariate.Text

/-- Whether the text closes exactly the given number of open brackets and never one more. -/
def closes : Nat → Text → Bool
  | open_, [] => open_ == 0
  | open_, '(' :: rest => closes (open_ + 1) rest
  | 0, ')' :: _ => false
  | open_ + 1, ')' :: rest => closes open_ rest
  | open_, _ :: rest => closes open_ rest

def balanced (t : Text) : Bool := closes 0 t

/-- Splits at the bracket that closes one more than the given number of open brackets: the text
before it and the text after it. -/
def splitClosing? : Nat → Text → Option (Text × Text)
  | _, [] => none
  | open_, '(' :: rest => (splitClosing? (open_ + 1) rest).map fun (u, v) => ('(' :: u, v)
  | 0, ')' :: rest => some ([], rest)
  | open_ + 1, ')' :: rest => (splitClosing? open_ rest).map fun (u, v) => (')' :: u, v)
  | open_, c :: rest => (splitClosing? open_ rest).map fun (u, v) => (c :: u, v)

theorem eq_of_splitClosing? {depth : Nat} {t u v : Text} (h : splitClosing? depth t = some (u, v)) :
    t = u ++ ')' :: v := by
  fun_induction splitClosing? depth t generalizing u v with
  | case1 => simp at h
  | case2 _ _ ih | case4 _ _ ih | case5 _ _ _ _ _ _ ih =>
    obtain ⟨⟨u', v'⟩, h', he⟩ := Option.map_eq_some_iff.1 h
    cases he
    rw [ih h', List.cons_append]
  | case3 => simp_all

/-- The text inside a bracket pair that encloses the whole text. -/
def groupInterior? : Text → Option Text
  | '(' :: rest =>
    match splitClosing? 0 rest with
    | some (u, []) => some u
    | _ => none
  | _ => none

theorem eq_of_groupInterior? {t u : Text} (h : groupInterior? t = some u) :
    t = '(' :: (u ++ [')']) := by
  unfold groupInterior? at h
  split at h
  · split at h
    · rename_i hs
      cases h
      rw [eq_of_splitClosing? hs]
    · simp at h
  · simp at h

/-- The position of the bracket that closes the one at `start`, both counted in UTF-8 bytes. -/
def partner? (t : Text) (start : Nat) : Option Nat :=
  match t.dropBytes? start with
  | some ('(' :: rest) => (splitClosing? 0 rest).map fun (u, _) => start + 1 + u.utf8Length
  | _ => none

end Univariate.Text
