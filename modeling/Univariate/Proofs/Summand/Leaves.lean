import Univariate.Proofs.Scalar.Factor
import Univariate.Proofs.Summand.WrittenSum

/-!
# Leaves and their signs

A piece of a sum has at most one sign in front, so that no leaf has a sign of its own left. The
factor of a leaf is one or minus one, and a factor of minus one before a piece reaches all its
leaves.
-/

namespace Univariate.Summand

open Scalar (LawfulFactor)

/-! ### Pieces -/

/-- Induction over the pieces of a text, from the first one on. -/
theorem piece_induction {motive : Text → Prop} (nil : motive [])
    (append : ∀ u v : Text, IsPiece u → (v = [] ∨ startsSigned v = true ∧ IsCutAfter u) →
      motive v → motive (u ++ v)) (t : Text) : motive t := by
  induction hn : t.length using Nat.strong_induction_on generalizing t with
  | h n ih =>
      subst hn
      by_cases hne : t = []
      · exact hne ▸ nil
      · obtain ⟨u, v, rfl, hu, hv⟩ := exists_piece_append hne
        refine append u v hu hv (ih v.length ?_ v rfl)
        cases u with
        | nil => exact hu.elim
        | cons c u => simp only [List.length_append, List.length_cons]; omega

theorem split_of_isPiece {u : Text} (hu : IsPiece u) : split u = [u] := by
  have h := split_append hu (v := []) (.inl rfl)
  rwa [List.append_nil] at h

theorem isCutAfter_of_append {u v : Text} (hu : IsCutAfter u) (hne : v ≠ [])
    (h : IsCutAfter (u ++ v)) : IsCutAfter v := by
  refine ⟨?_, fun hlast => h.last ?_⟩
  · have hdepth : depthThrough (depthThrough 0 u) v = 0 := List.foldl_append.symm.trans h.depth
    rwa [hu.depth] at hdepth
  · rw [List.getLast?_append_of_ne_nil _ hne, hlast]

/-- A text after which the next sign is cut off keeps its pieces when a signed text follows. -/
theorem split_append_of_isCutAfter {u v : Text} (hu : u = [] ∨ IsCutAfter u)
    (hv : startsSigned v = true) : split (u ++ v) = split u ++ split v := by
  induction u using piece_induction with
  | nil => rfl
  | append piece rest hpiece hrest ih =>
      have hne : piece ++ rest ≠ [] := by
        cases piece with
        | nil => exact hpiece.elim
        | cons => simp
      have hcut := hu.resolve_left hne
      rcases hrest with rfl | ⟨hstarts, hpieceCut⟩
      · rw [List.append_nil] at hcut ⊢
        rw [split_append hpiece (.inr ⟨hv, hcut⟩), split_of_isPiece hpiece]
        rfl
      · have hrestNe : rest ≠ [] := by
          rintro rfl
          cases hstarts
        have hstarts' : startsSigned (rest ++ v) = true := by
          obtain ⟨c, rest, rfl⟩ := List.exists_cons_of_ne_nil hrestNe
          exact hstarts
        rw [List.append_assoc, split_append hpiece (.inr ⟨hstarts', hpieceCut⟩),
          split_append hpiece (.inr ⟨hstarts, hpieceCut⟩),
          ih (.inr (isCutAfter_of_append hpieceCut hrestNe hcut))]
        rfl

theorem isPiece_of_mem_split {t piece : Text} (h : piece ∈ split t) : IsPiece piece := by
  induction t using piece_induction with
  | nil => cases h
  | append first rest hfirst hrest ih =>
      rw [split_append hfirst hrest] at h
      rcases List.mem_cons.mp h with rfl | h
      · exact hfirst
      · exact ih h

theorem infix_of_mem_split {t piece : Text} (h : piece ∈ split t) : piece <:+: t := by
  obtain ⟨before, after, hsplit⟩ := List.append_of_mem h
  refine ⟨before.flatten, after.flatten, ?_⟩
  rw [← flatten_split t, hsplit, List.flatten_append, List.flatten_cons, List.append_assoc]

theorem noBlanks_of_mem_split {t piece : Text} (ht : t.NoBlanks) (h : piece ∈ split t) :
    piece.NoBlanks :=
  fun c hc => ht c ((infix_of_mem_split h).subset hc)

/-! ### Leaves -/

variable {α : Type} [Scalar α]

/-- What stands after the sign of a piece is a leaf, or a group whose pieces have the leaves. -/
theorem mem_leaves_iff {outer : α} {piece : Text} {leaf : α × Text} :
    leaf ∈ leaves outer piece ↔
      (∃ inner, Text.groupInterior? (takeSign (α := α) piece).2 = some inner ∧
        ∃ sub ∈ split inner, leaf ∈ leaves (outer * (takeSign piece).1) sub) ∨
      Text.groupInterior? (takeSign (α := α) piece).2 = none ∧ (takeSign (α := α) piece).2 ≠ [] ∧
        leaf = (outer * (takeSign piece).1, (takeSign (α := α) piece).2) := by
  rw [leaves_eq]
  cases Text.groupInterior? (takeSign (α := α) piece).2 with
  | some inner => simp
  | none =>
      by_cases hempty : (takeSign (α := α) piece).2 = []
      · simp [hempty]
      · simp [hempty]

theorem infix_takeSign (piece : Text) : (takeSign (α := α) piece).2 <:+: piece := by
  obtain ⟨sign, heq, -⟩ := exists_sign_append_takeSign piece.trim
  have hsuffix : piece.trim.takeSign.2 <:+ piece.trim := ⟨Sign.text sign, heq.symm⟩
  exact hsuffix.isInfix.trans (Text.infix_trim piece)

/-- Taking signs and brackets off leaves what stands between them as it is. -/
theorem infix_of_mem_leaves {sign : α} {piece : Text} {leaf : α × Text}
    (h : leaf ∈ leaves sign piece) : leaf.2 <:+: piece := by
  rcases mem_leaves_iff.mp h with ⟨inner, hgroup, sub, hsub, hleaf⟩ | ⟨-, -, rfl⟩
  · have hlt := length_lt_of_groupInterior? (α := α) hgroup hsub
    have hinner : inner <:+: (takeSign (α := α) piece).2 :=
      ⟨['('], [')'], (Text.eq_of_groupInterior? hgroup).symm⟩
    have hleafInner : leaf.2 <:+: inner :=
      (infix_of_mem_leaves hleaf).trans (infix_of_mem_split hsub)
    exact hleafInner.trans (hinner.trans (infix_takeSign (α := α) piece))
  · exact infix_takeSign (α := α) piece
termination_by piece.length

/-- A leaf of a text without blanks has no blanks either, and its signs are taken off. -/
structure IsBody (t : Text) : Prop where
  unsigned : startsSigned t = false
  noBlanks : t.NoBlanks

theorem isBody_of_mem_leaves {piece : Text} (hpiece : IsPiece piece) (hblanks : piece.NoBlanks)
    {sign : α} {leaf : α × Text} (h : leaf ∈ leaves sign piece) : IsBody leaf.2 := by
  obtain ⟨own, body, heq, hbody⟩ := WrittenSum.exists_sign_append hpiece
  have htaken : (takeSign (α := α) piece).2 = body := by
    rw [heq] at hblanks ⊢
    rw [takeSign_append hblanks hbody]
  have hbodyBlanks : body.NoBlanks := (Text.noBlanks_append.mp (heq ▸ hblanks)).2
  rcases mem_leaves_iff.mp h with ⟨inner, hgroup, sub, hsub, hleaf⟩ | ⟨-, -, rfl⟩
  · have hlt := length_lt_of_groupInterior? (α := α) hgroup hsub
    rw [htaken] at hgroup
    have hinner : inner.NoBlanks := by
      rw [Text.eq_of_groupInterior? hgroup] at hbodyBlanks
      exact (Text.noBlanks_append.mp (Text.noBlanks_cons.mp hbodyBlanks).2).1
    exact isBody_of_mem_leaves (isPiece_of_mem_split hsub) (noBlanks_of_mem_split hinner hsub)
      hleaf
  · rw [htaken]
    exact ⟨hbody, hbodyBlanks⟩
termination_by piece.length

theorem isBody_of_mem_expand {t : Text} (ht : t.NoBlanks) {leaf : α × Text}
    (h : leaf ∈ expand (split t)) : IsBody leaf.2 := by
  obtain ⟨piece, hpiece, hleaf⟩ := List.mem_flatMap.mp h
  exact isBody_of_mem_leaves (isPiece_of_mem_split hpiece) (noBlanks_of_mem_split ht hpiece) hleaf

def IsFactor (s : α) : Prop := s = 1 ∨ s = -1

theorem isFactor_takeSign (piece : Text) : IsFactor (takeSign (α := α) piece).1 := by
  unfold takeSign
  dsimp only
  split
  · exact Or.inr rfl
  · exact Or.inl rfl

variable [LawfulFactor α]

theorem IsFactor.mul {s t : α} (hs : IsFactor s) (ht : IsFactor t) : IsFactor (s * t) := by
  rcases ht with rfl | rfl
  · rwa [LawfulFactor.mul_one]
  · rw [LawfulFactor.mul_neg_one]
    rcases hs with rfl | rfl
    · exact Or.inr rfl
    · exact Or.inl (LawfulFactor.neg_neg 1)

theorem isFactor_of_mem_leaves {sign : α} (hsign : IsFactor sign) {piece : Text}
    {leaf : α × Text} (h : leaf ∈ leaves sign piece) : IsFactor leaf.1 := by
  have hproduct := hsign.mul (isFactor_takeSign piece)
  rcases mem_leaves_iff.mp h with ⟨inner, hgroup, sub, hsub, hleaf⟩ | ⟨-, -, rfl⟩
  · have hlt := length_lt_of_groupInterior? (α := α) hgroup hsub
    exact isFactor_of_mem_leaves hproduct hleaf
  · exact hproduct
termination_by piece.length

theorem isFactor_of_mem_expand {pieces : List Text} {leaf : α × Text}
    (h : leaf ∈ expand pieces) : IsFactor leaf.1 := by
  obtain ⟨piece, -, hleaf⟩ := List.mem_flatMap.mp h
  exact isFactor_of_mem_leaves (.inl rfl) hleaf

theorem leaves_neg (sign : α) (piece : Text) :
    leaves (-sign) piece = (leaves sign piece).map fun leaf => (-leaf.1, leaf.2) := by
  rw [leaves_eq, leaves_eq]
  cases hinner : Text.groupInterior? (takeSign (α := α) piece).2 with
  | none =>
      dsimp only
      rw [LawfulFactor.neg_mul]
      split <;> rfl
  | some inner =>
      dsimp only
      rw [LawfulFactor.neg_mul, List.map_flatMap]
      refine List.flatMap_congr fun sub hsub => ?_
      have hlt := length_lt_of_groupInterior? (α := α) hinner hsub
      exact leaves_neg _ sub
termination_by piece.length

/-- A signed group is one piece, and its leaves are those of the pieces inside it. -/
theorem expand_group (sign : Sign) {inner : Text} (hblanks : inner.NoBlanks)
    (hcloses : inner.Closes 0) :
    (expand (split (sign.char :: '(' :: (inner ++ [')']))) : List (α × Text)) =
      (split inner).flatMap (leaves sign.factor) := by
  have hgroup : Text.NoBlanks (Sign.text (some sign) ++ '(' :: (inner ++ [')'])) := by
    simp [Sign.text, hblanks]
  have hpiece : IsPiece (Sign.text (some sign) ++ '(' :: (inner ++ [')'])) :=
    isPiece_append (by simp) (uncut_group hcloses)
  have hleaves := leaves_group (α := α) hcloses hgroup 1
  rw [LawfulFactor.one_mul] at hleaves
  change expand (split (Sign.text (some sign) ++ '(' :: (inner ++ [')']))) = _
  rw [split_of_isPiece hpiece, expand, List.flatMap_singleton, hleaves]
  rfl

theorem expand_group_plus {inner : Text} (hblanks : inner.NoBlanks) (hcloses : inner.Closes 0) :
    (expand (split ('+' :: '(' :: (inner ++ [')']))) : List (α × Text)) = expand (split inner) :=
  expand_group .plus hblanks hcloses

theorem expand_group_minus {inner : Text} (hblanks : inner.NoBlanks) (hcloses : inner.Closes 0) :
    (expand (split ('-' :: '(' :: (inner ++ [')']))) : List (α × Text)) =
      (expand (split inner)).map fun leaf => (-leaf.1, leaf.2) := by
  refine (expand_group .minus hblanks hcloses).trans ?_
  unfold expand
  rw [List.map_flatMap]
  exact List.flatMap_congr fun piece _ => leaves_neg 1 piece

end Univariate.Summand
