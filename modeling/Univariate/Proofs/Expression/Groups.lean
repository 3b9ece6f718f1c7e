import Univariate.Proofs.Scalar.Binary64.Factor
import Univariate.Proofs.Term.Factor
import Univariate.Proofs.Term.Reading

/-!
# Groups in sums

A signed group after a text adds the terms of the group to the terms of the text. A minus sign
before it is a factor of minus one for every term of the group.
-/

namespace Univariate

open Scalar (LawfulFactor)

theorem Text.Closes.withoutBlanks {n : Nat} {t : Text} (h : t.Closes n) :
    t.withoutBlanks.Closes n := by
  unfold Text.withoutBlanks
  induction h with
  | nil => exact .nil
  | opening _ ih =>
      rw [List.filter_cons_of_pos (by simp)]
      exact .opening ih
  | closing _ ih =>
      rw [List.filter_cons_of_pos (by simp)]
      exact .closing ih
  | other hopen hclose _ ih =>
      rw [List.filter_cons]
      split
      · exact .other hopen hclose ih
      · exact ih

variable {α : Type} [Scalar α]

namespace Summand

theorem expand_split_append {u v : Text} (hu : u = [] ∨ IsCutAfter u)
    (hv : startsSigned v = true) :
    (expand (split (u ++ v)) : List (α × Text)) = expand (split u) ++ expand (split v) := by
  rw [split_append_of_isCutAfter hu hv]
  exact List.flatMap_append

theorem isCutAfter_of_balanced {t : Text} (h : t.balanced = true)
    (hcaret : t.withoutBlanks.getLast? ≠ some '^') : IsCutAfter t.withoutBlanks :=
  ⟨depthThrough_of_closes (Text.balanced_iff.mp h).withoutBlanks 0, hcaret⟩

end Summand

namespace Expression

open Summand

theorem withoutBlanks_append_group {c : Char} (hc : Text.isBlank c = false) (u v : Text) :
    (u ++ c :: '(' :: (v ++ [')'])).withoutBlanks =
      u.withoutBlanks ++ c :: '(' :: (v.withoutBlanks ++ [')']) := by
  simp [Text.withoutBlanks, hc]

variable [LawfulFactor α]

/-- The leaves of a text have no sign of their own left that a factor could take away. -/
theorem scaled_neg_of_mem_expand {t : Text} (ht : t.NoBlanks) {leaf : α × Text}
    (h : leaf ∈ expand (split t)) :
    (Term.ofText leaf.2).scaled (-leaf.1) = ((Term.ofText leaf.2).scaled leaf.1).scaled (-1) := by
  obtain ⟨hunsigned, hblanks⟩ := isBody_of_mem_expand ht h
  apply Term.scaled_neg (isFactor_of_mem_expand h)
  intro raw hraw
  rw [Term.eq_of_ofText_eq_unrecognized hblanks hraw]
  exact hunsigned

/-- **Signed groups add their terms.** -/
theorem terms_ofText_append_group {u v : Text} (hu : u.balanced = true) (hv : v.balanced = true)
    (hcaret : u.withoutBlanks.getLast? ≠ some '^') :
    (ofText (u ++ '-' :: '(' :: (v ++ [')'])) : Expression α).terms =
        (ofText u).terms ++ (ofText v).terms.map (Term.scaled (-1)) ∧
      (ofText (u ++ '+' :: '(' :: (v ++ [')'])) : Expression α).terms =
        (ofText u).terms ++ (ofText v).terms := by
  have hcut := isCutAfter_of_balanced hu hcaret
  have hblanks := Text.noBlanks_withoutBlanks v
  have hcloses := (Text.balanced_iff.mp hv).withoutBlanks
  unfold ofText pieces ofPieces
  dsimp only
  constructor
  · rw [withoutBlanks_append_group (Text.isBlank_of_visible (by decide) (by decide)),
      expand_split_append (.inr hcut) rfl, expand_group_minus hblanks hcloses, List.map_append,
      List.map_map, List.map_map]
    congr 1
    exact List.map_congr_left fun leaf hleaf => scaled_neg_of_mem_expand hblanks hleaf
  · rw [withoutBlanks_append_group (Text.isBlank_of_visible (by decide) (by decide)),
      expand_split_append (.inr hcut) rfl, expand_group_plus hblanks hcloses, List.map_append]

theorem terms_ofText_append_group_nested :
    let u : Text := "x^2 +".toList
    let v : Text := "3 - (-y - (2x - x^-)) + ".toList
    u.balanced = true ∧ v.balanced = true ∧ u.withoutBlanks.getLast? ≠ some '^' ∧
      (ofText u : Expression Float).terms = [.power 1 2] ∧
      (ofText (u ++ '-' :: '(' :: (v ++ [')'])) : Expression Float).terms =
        [.power 1 2, .constant (-3), .unrecognized "-y".toList, .linear (-2),
          .unrecognized "x^-".toList] ∧
      (ofText (u ++ '+' :: '(' :: (v ++ [')'])) : Expression Float).terms =
        [.power 1 2, .constant 3, .unrecognized ['y'], .linear 2,
          .unrecognized "-x^-".toList] := by
  intro u v
  have hu : u.balanced = true := by decide
  have hv : v.balanced = true := by decide
  have hcaret : u.withoutBlanks.getLast? ≠ some '^' := by decide +kernel
  have hfirst : (ofText u : Expression Float).terms = [.power 1 2] := by decide +kernel
  have hsecond : (ofText v : Expression Float).terms =
      [.constant 3, .unrecognized ['y'], .linear 2, .unrecognized "-x^-".toList] := by
    decide +kernel
  obtain ⟨hminus, hplus⟩ := terms_ofText_append_group (α := Float) hu hv hcaret
  refine ⟨hu, hv, hcaret, hfirst, hminus.trans ?_, hplus.trans ?_⟩
  · rw [hfirst, hsecond]
    decide +kernel
  · rw [hfirst, hsecond]
    rfl

end Expression

end Univariate
