import Mathlib.Data.List.Basic
import Univariate.Expression
import Univariate.Proofs.Term.Outline

/-!
# Sums as they are written

The grammar of sums beside the splitter: items with an optional sign in front, which are nothing, a
term, or a sum in brackets. The leaves of a written sum are its atoms, each with the signs before it
and before the groups around it.
-/

namespace Univariate

inductive Sign where
  | plus
  | minus
deriving DecidableEq, Repr

namespace Sign

def char : Sign → Char
  | plus => '+'
  | minus => '-'

def text : Option Sign → Text
  | none => []
  | some sign => [sign.char]

theorem isSign_char (sign : Sign) : Summand.isSign sign.char = true := by
  cases sign <;> rfl

@[simp]
theorem isBlank_char (sign : Sign) : Text.isBlank sign.char = false := by
  cases sign <;> exact Text.isBlank_of_visible (by decide) (by decide)

theorem exists_char_eq {c : Char} (hc : Summand.isSign c = true) :
    ∃ sign : Sign, sign.char = c := by
  rw [Summand.isSign, Bool.or_eq_true, beq_iff_eq, beq_iff_eq] at hc
  rcases hc with rfl | rfl
  · exact ⟨.plus, rfl⟩
  · exact ⟨.minus, rfl⟩

variable {α : Type} [Scalar α]

def factor : Sign → α
  | plus => 1
  | minus => -1

/-- The factors of the signs, multiplied from left to right. -/
def product (signs : List Sign) : α := signs.foldl (fun p sign => p * sign.factor) 1

theorem product_append_singleton (signs : List Sign) (sign : Sign) :
    (product (signs ++ [sign]) : α) = product signs * sign.factor := by
  simp [product]

end Sign

theorem Text.Closes.sign_cons {n : Nat} {t : Text} (h : t.Closes n) (sign : Sign) :
    Text.Closes n (sign.char :: t) := by
  cases sign <;> exact .other (by decide) (by decide) h

theorem exists_sign_append_takeSign (t : Text) :
    ∃ sign : Option Sign, t = Sign.text sign ++ t.takeSign.2 ∧
      t.takeSign.1 = (sign == some .minus) := by
  unfold Text.takeSign
  split
  · exact ⟨some .minus, rfl, rfl⟩
  · exact ⟨some .plus, rfl, rfl⟩
  · exact ⟨none, rfl, rfl⟩

theorem takeSign_sign_append (sign : Option Sign) {t : Text} (ht : Summand.startsSigned t = false) :
    Text.takeSign (Sign.text sign ++ t) = (sign == some .minus, t) := by
  rcases sign with _ | _ | _
  · exact takeSign_of_not_startsSigned ht
  · rfl
  · rfl

/-- The items of a sum from left to right: a sign with nothing after it, a term, or a group. -/
inductive WrittenSum where
  | nil
  | lone (sign : Sign) (rest : WrittenSum)
  | atom (sign : Option Sign) (body : Text) (rest : WrittenSum)
  | group (sign : Option Sign) (inner rest : WrittenSum)
deriving DecidableEq, Repr

namespace WrittenSum

def text : WrittenSum → Text
  | nil => []
  | lone sign rest => sign.char :: rest.text
  | atom sign body rest => Sign.text sign ++ body ++ rest.text
  | group sign inner rest => Sign.text sign ++ '(' :: (inner.text ++ [')']) ++ rest.text

/-- The first item, if there is one, has a sign. -/
def IsSigned : WrittenSum → Prop
  | nil | lone _ _ => True
  | atom sign _ _ | group sign _ _ => sign.isSome

variable (α : Type) [Scalar α]

/-- Only the first item of a sum may leave out its sign, and after an atom that ends in `^` there is
no other item, since the next sign would belong to the exponent. -/
def IsWellFormed : WrittenSum → Prop
  | nil => True
  | lone _ rest => rest.IsSigned ∧ rest.IsWellFormed
  | atom _ body rest =>
    Term.IsAtom α body ∧ (body.getLast? = some '^' → rest = nil) ∧ rest.IsSigned ∧ rest.IsWellFormed
  | group _ inner rest => inner.IsWellFormed ∧ rest.IsSigned ∧ rest.IsWellFormed

variable {α}

/-- The atoms from left to right, each with the signs of the groups around it and its own. A sign
that is left out counts as plus. -/
def atoms (outer : List Sign) : WrittenSum → List (List Sign × Text)
  | nil => []
  | lone _ rest => rest.atoms outer
  | atom sign body rest => (outer ++ [sign.getD .plus], body) :: rest.atoms outer
  | group sign inner rest => inner.atoms (outer ++ [sign.getD .plus]) ++ rest.atoms outer

def terms (s : WrittenSum) : List (Term α) :=
  (s.atoms []).map fun (signs, body) => (Term.ofText body).scaled (Sign.product signs)

end WrittenSum

namespace Summand

variable {α : Type} [Scalar α]

open WrittenSum

theorem takeSign_append {sign : Option Sign} {body : Text}
    (hblanks : (Sign.text sign ++ body).NoBlanks) (hbody : startsSigned body = false) :
    takeSign (α := α) (Sign.text sign ++ body) = ((sign.getD .plus).factor, body) := by
  unfold takeSign
  rw [hblanks.trim_eq]
  cases sign with
  | none =>
      rw [Sign.text, List.nil_append, takeSign_of_not_startsSigned hbody]
      rfl
  | some sign => cases sign <;> rfl

theorem takeSign_char (sign : Sign) : takeSign (α := α) [sign.char] = (sign.factor, []) := by
  cases sign <;> rfl

theorem leaves_lone (sign : Sign) (outer : α) : leaves outer [sign.char] = [] := by
  rw [leaves_eq, takeSign_char]
  rfl

theorem leaves_atom {sign : Option Sign} {body : Text} (hbody : Term.Outline body)
    (hblanks : (Sign.text sign ++ body).NoBlanks) (outer : α) :
    leaves outer (Sign.text sign ++ body) = [(outer * (sign.getD .plus).factor, body)] := by
  obtain ⟨c, rest, rfl, hsign, hopen⟩ := hbody.exists_cons
  rw [leaves_eq, takeSign_append hblanks hsign, Text.groupInterior?_of_head_ne hopen]
  rfl

theorem leaves_group {sign : Option Sign} {inner : Text} (hinner : inner.Closes 0)
    (hblanks : (Sign.text sign ++ '(' :: (inner ++ [')'])).NoBlanks) (outer : α) :
    leaves outer (Sign.text sign ++ '(' :: (inner ++ [')'])) =
      (split inner).flatMap (leaves (outer * (sign.getD .plus).factor)) := by
  rw [leaves_eq, takeSign_append hblanks rfl, hinner.groupInterior?_group]

theorem isPiece_char (sign : Sign) : IsPiece [sign.char] := trivial

theorem isCutAfter_char (sign : Sign) : IsCutAfter [sign.char] :=
  ⟨depthAfter_of_isSign sign.isSign_char 0, by cases sign <;> decide⟩

theorem isPiece_append {sign : Option Sign} {body : Text} (hne : body ≠ [])
    (hbody : ∀ previous, Uncut 0 previous body) : IsPiece (Sign.text sign ++ body) := by
  cases sign with
  | none =>
      obtain ⟨c, rest, rfl⟩ := List.exists_cons_of_ne_nil hne
      exact (hbody ' ').2
  | some sign =>
      change Uncut (depthAfter 0 sign.char) sign.char body
      rw [depthAfter_of_isSign sign.isSign_char]
      exact hbody sign.char

theorem depthThrough_sign_append (sign : Option Sign) (body : Text) :
    depthThrough 0 (Sign.text sign ++ body) = depthThrough 0 body := by
  cases sign with
  | none => rfl
  | some sign =>
      change depthThrough (depthAfter 0 sign.char) body = _
      rw [depthAfter_of_isSign sign.isSign_char]

end Summand

namespace WrittenSum

open Summand

variable {α : Type} [Scalar α]

theorem text_eq_nil_or_startsSigned {s : WrittenSum} (h : s.IsSigned) :
    s.text = [] ∨ startsSigned s.text = true := by
  cases s with
  | nil => exact Or.inl rfl
  | lone sign rest => exact Or.inr sign.isSign_char
  | atom sign body rest =>
      obtain ⟨sign, rfl⟩ := Option.isSome_iff_exists.mp h
      exact Or.inr sign.isSign_char
  | group sign inner rest =>
      obtain ⟨sign, rfl⟩ := Option.isSome_iff_exists.mp h
      exact Or.inr sign.isSign_char

theorem noBlanks_of_group {sign : Option Sign} {inner : Text}
    (h : (Sign.text sign ++ '(' :: (inner ++ [')'])).NoBlanks) : inner.NoBlanks := by
  rw [Text.noBlanks_append, Text.noBlanks_cons, Text.noBlanks_append] at h
  exact h.2.2.1

/-- The first item is a piece, and the pieces of the other items follow. -/
theorem split_item_append {u : Text} {rest : WrittenSum} (hu : IsPiece u) (hsigned : rest.IsSigned)
    (hcut : startsSigned rest.text = true → IsCutAfter u) :
    split (u ++ rest.text) = u :: split rest.text := by
  apply split_append hu
  rcases text_eq_nil_or_startsSigned hsigned with hnil | hstarts
  · exact Or.inl hnil
  · exact Or.inr ⟨hstarts, hcut hstarts⟩

theorem closes_text {s : WrittenSum} (h : s.IsWellFormed α) (hblanks : s.text.NoBlanks) :
    s.text.Closes 0 := by
  have hsign : ∀ (sign : Option Sign) {t : Text}, t.Closes 0 → (Sign.text sign ++ t).Closes 0 := by
    intro sign t ht
    cases sign with
    | none => exact ht
    | some sign => exact ht.sign_cons sign
  induction s with
  | nil => exact .nil
  | lone sign rest ih => exact (ih h.2 (Text.noBlanks_cons.mp hblanks).2).sign_cons sign
  | atom sign body rest ih =>
      obtain ⟨hatom, -, -, hrest⟩ := h
      obtain ⟨hhead, hblanks⟩ := Text.noBlanks_append.mp hblanks
      have hbody := (hatom.outline (Text.noBlanks_append.mp hhead).2).closes
      exact (hsign sign hbody).append (ih hrest hblanks)
  | group sign inner rest ihinner ihrest =>
      obtain ⟨hinner, -, hrest⟩ := h
      obtain ⟨hhead, hblanks⟩ := Text.noBlanks_append.mp hblanks
      have hgroup := (ihinner hinner (noBlanks_of_group hhead)).group
      exact (hsign sign hgroup).append (ihrest hrest hblanks)

/-- The leaves of the pieces of a written sum are its atoms. -/
theorem flatMap_leaves_split {s : WrittenSum} (h : s.IsWellFormed α) (hblanks : s.text.NoBlanks)
    (outer : List Sign) :
    (split s.text).flatMap (leaves (Sign.product outer : α)) =
      (s.atoms outer).map fun (signs, body) => (Sign.product signs, body) := by
  induction s generalizing outer with
  | nil => rfl
  | lone sign rest ih =>
      obtain ⟨hsigned, hrest⟩ := h
      have hsplit := split_item_append (isPiece_char sign) hsigned fun _ => isCutAfter_char sign
      change (split ([sign.char] ++ rest.text)).flatMap _ = _
      rw [hsplit, List.flatMap_cons, leaves_lone, List.nil_append,
        ih hrest (Text.noBlanks_cons.mp hblanks).2]
      rfl
  | atom sign body rest ih =>
      obtain ⟨hatom, hcaret, hsigned, hrest⟩ := h
      obtain ⟨hhead, hblanks⟩ := Text.noBlanks_append.mp hblanks
      have houtline := hatom.outline (Text.noBlanks_append.mp hhead).2
      have hne : body ≠ [] := houtline.ne_nil
      have hcut : startsSigned rest.text = true → IsCutAfter (Sign.text sign ++ body) := by
        refine fun hstarts => ⟨?_, fun hlast => ?_⟩
        · rw [depthThrough_sign_append, houtline.depthThrough_eq]
        · rw [List.getLast?_append_of_ne_nil _ hne] at hlast
          rw [hcaret hlast] at hstarts
          exact absurd hstarts (by decide)
      have hsplit := split_item_append (isPiece_append hne houtline.uncut) hsigned hcut
      rw [text, hsplit, List.flatMap_cons, leaves_atom houtline hhead, ih hrest hblanks,
        ← Sign.product_append_singleton]
      rfl
  | group sign inner rest ihinner ihrest =>
      obtain ⟨hinner, hsigned, hrest⟩ := h
      obtain ⟨hhead, hblanks⟩ := Text.noBlanks_append.mp hblanks
      have hblanksInner : inner.text.NoBlanks := noBlanks_of_group hhead
      have hcloses := closes_text hinner hblanksInner
      have hcut : IsCutAfter (Sign.text sign ++ '(' :: (inner.text ++ [')'])) := by
        refine ⟨?_, ?_⟩
        · rw [depthThrough_sign_append]
          exact depthThrough_of_closes hcloses.group 0
        · rw [← List.cons_append, ← List.append_assoc, List.getLast?_concat]
          decide
      have hsplit :=
        split_item_append (isPiece_append (by simp) (uncut_group hcloses)) hsigned fun _ => hcut
      rw [text, hsplit, List.flatMap_cons, leaves_group hcloses hhead,
        ← Sign.product_append_singleton, ihinner hinner hblanksInner, ihrest hrest hblanks]
      exact List.map_append.symm

theorem isSigned_of_startsSigned {s : WrittenSum} (h : s.IsWellFormed α)
    (hstarts : s.text = [] ∨ startsSigned s.text = true) : s.IsSigned := by
  cases s with
  | nil | lone => trivial
  | atom sign body rest =>
      cases sign with
      | some sign => rfl
      | none =>
          obtain ⟨c, body, rfl⟩ := List.exists_cons_of_ne_nil h.1.ne_nil
          have hc : isSign c = false := h.1.unsigned
          simp [text, Sign.text, startsSigned, hc] at hstarts
  | group sign inner rest =>
      cases sign with
      | some sign => rfl
      | none => simp [text, Sign.text, startsSigned, isSign] at hstarts

theorem eq_nil_of_text_eq_nil {s : WrittenSum} (h : s.IsWellFormed α) (htext : s.text = []) :
    s = nil := by
  cases s with
  | nil => rfl
  | lone => simp [text] at htext
  | atom sign body rest =>
      rw [text, List.append_eq_nil_iff, List.append_eq_nil_iff] at htext
      exact absurd htext.1.2 h.1.ne_nil
  | group => simp [text] at htext

theorem exists_sign_append {t : Text} (h : IsPiece t) :
    ∃ sign body, t = Sign.text sign ++ body ∧ startsSigned body = false := by
  cases t with
  | nil => exact h.elim
  | cons c rest =>
      by_cases hc : isSign c = true
      · obtain ⟨sign, rfl⟩ := Sign.exists_char_eq hc
        refine ⟨some sign, rest, rfl, ?_⟩
        cases rest with
        | nil => rfl
        | cons b rest =>
            have hb : cuts (depthAfter 0 sign.char) sign.char b = false := h.1
            rw [depthAfter_of_isSign sign.isSign_char] at hb
            have hcaret : sign.char ≠ '^' := by cases sign <;> decide
            simpa [cuts, hcaret, startsSigned] using hb
      · exact ⟨none, c :: rest, rfl, by simpa [startsSigned] using hc⟩

/-- A text whose leaves are all recognized is a written sum. -/
theorem exists_text_eq {t : Text} (hblanks : t.NoBlanks) (outer : α)
    (h : ∀ leaf ∈ (split t).flatMap (leaves outer),
      (Term.ofText leaf.2 : Term α).isUnrecognized = false) :
    ∃ s : WrittenSum, s.IsWellFormed α ∧ s.text = t := by
  by_cases ht : t = []
  · exact ⟨nil, trivial, ht.symm⟩
  obtain ⟨u, v, rfl, hu, hv⟩ := exists_piece_append ht
  obtain ⟨hblanksHead, hblanksRest⟩ := Text.noBlanks_append.mp hblanks
  rw [split_append hu hv, List.flatMap_cons] at h
  obtain ⟨sign, body, rfl, hbody⟩ := exists_sign_append hu
  have hlength : 0 < (Sign.text sign ++ body).length := by
    cases hhead : Sign.text sign ++ body with
    | nil =>
        rw [hhead] at hu
        exact hu.elim
    | cons => simp
  obtain ⟨rest, hrest, rfl⟩ := exists_text_eq hblanksRest outer
    fun leaf hleaf => h leaf (List.mem_append_right _ hleaf)
  have hsigned : rest.IsSigned := isSigned_of_startsSigned hrest (hv.imp_right And.left)
  have hhead := fun leaf hleaf => h leaf (List.mem_append_left _ hleaf)
  rw [leaves_eq, takeSign_append hblanksHead hbody] at hhead
  dsimp only at hhead
  cases hgroup : Text.groupInterior? body with
  | some inner =>
      have hbodyEq := Text.eq_of_groupInterior? hgroup
      subst hbodyEq
      rw [hgroup] at hhead
      obtain ⟨inner, hinner, rfl⟩ := exists_text_eq (noBlanks_of_group hblanksHead) _ hhead
      exact ⟨group sign inner rest, ⟨hinner, hsigned, hrest⟩, rfl⟩
  | none =>
      rw [hgroup] at hhead
      by_cases hne : body = []
      · subst hne
        cases sign with
        | none => exact hu.elim
        | some sign => exact ⟨lone sign rest, ⟨hsigned, hrest⟩, rfl⟩
      · have hrecognized := hhead (outer * (sign.getD .plus).factor, body) (by simp [hne])
        refine ⟨atom sign body rest, ⟨⟨hrecognized, hbody⟩, fun hcaret => ?_, hsigned, hrest⟩, rfl⟩
        rcases hv with hv | ⟨-, hcut⟩
        · exact eq_nil_of_text_eq_nil hrest hv
        · exact absurd ((List.getLast?_append_of_ne_nil _ hne).trans hcaret) hcut.last
termination_by t.length
decreasing_by
  all_goals simp_all only [List.length_append, List.length_cons]
  all_goals omega

end WrittenSum

end Univariate
