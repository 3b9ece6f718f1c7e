import Univariate.Proofs.Scalar.Binary64.Factor
import Univariate.Proofs.Summand.Leaves

/-!
# What expansion keeps

Expansion takes signs, brackets and blanks away. All other characters stand in the leaves as often
as in the texts and in the same order, however deep the groups are and whether or not the brackets
pair up. What is left is not empty and no group.
-/

namespace Univariate.Summand

/-! ### Texts without their marks -/

/-- The characters that expansion may take away. -/
def isMark (c : Char) : Bool := Text.isBlank c || isSign c || c == '(' || c == ')'

def unmarked (t : Text) : Text := t.filter (!isMark ·)

theorem unmarked_append (u v : Text) : unmarked (u ++ v) = unmarked u ++ unmarked v :=
  List.filter_append u v

theorem unmarked_flatten (pieces : List Text) :
    unmarked pieces.flatten = pieces.flatMap unmarked := by
  rw [unmarked, List.filter_flatten]
  rfl

theorem unmarked_eq_nil {t : Text} (h : ∀ c ∈ t, isMark c = true) : unmarked t = [] := by
  rw [unmarked, List.filter_eq_nil_iff]
  intro c hc
  simp [h c hc]

theorem unmarked_eq_nil_of_isBlank {t : Text} (h : ∀ c ∈ t, Text.isBlank c = true) :
    unmarked t = [] :=
  unmarked_eq_nil fun c hc => by simp [isMark, h c hc]

theorem unmarked_sign (sign : Option Sign) : unmarked (Sign.text sign) = [] := by
  apply unmarked_eq_nil
  cases sign with
  | none => simp [Sign.text]
  | some sign => simp [Sign.text, isMark, sign.isSign_char]

theorem unmarked_trim (t : Text) : unmarked t.trim = unmarked t := by
  obtain ⟨u, v, ht, hu, hv⟩ := t.exists_blanks_append_trim
  calc unmarked t.trim = unmarked u ++ unmarked t.trim ++ unmarked v := by
        rw [unmarked_eq_nil_of_isBlank hu, unmarked_eq_nil_of_isBlank hv, List.nil_append,
          List.append_nil]
    _ = unmarked (u ++ t.trim ++ v) := by rw [unmarked_append, unmarked_append]
    _ = unmarked t := by rw [← ht]

theorem unmarked_group (inner : Text) : unmarked ('(' :: (inner ++ [')'])) = unmarked inner := by
  simp [unmarked, isMark]

/-! ### Leaves -/

variable {α : Type} [Scalar α]

theorem unmarked_takeSign (piece : Text) :
    unmarked (takeSign (α := α) piece).2 = unmarked piece := by
  obtain ⟨sign, htrim, -⟩ := exists_sign_append_takeSign piece.trim
  calc unmarked (takeSign (α := α) piece).2
      = unmarked (Sign.text sign) ++ unmarked piece.trim.takeSign.2 := by
        rw [unmarked_sign]
        rfl
    _ = unmarked piece.trim := by rw [← unmarked_append, ← htrim]
    _ = unmarked piece := unmarked_trim piece

/-- The texts of the leaves, one after the other. -/
def bodies (leaves : List (α × Text)) : Text := leaves.flatMap Prod.snd

omit [Scalar α] in
theorem unmarked_bodies_flatMap {f : Text → List (α × Text)} {pieces : List Text}
    (h : ∀ piece ∈ pieces, unmarked (bodies (f piece)) = unmarked piece) :
    unmarked (bodies (pieces.flatMap f)) = unmarked pieces.flatten := by
  calc unmarked (bodies (pieces.flatMap f))
      = pieces.flatMap fun piece => unmarked (bodies (f piece)) := by
        rw [bodies, List.flatMap_assoc, unmarked, List.filter_flatMap]
        rfl
    _ = pieces.flatMap unmarked := List.flatMap_congr h
    _ = unmarked pieces.flatten := (unmarked_flatten pieces).symm

/-- Signs, brackets and blanks taken off, a piece is the same as its leaves. -/
theorem unmarked_bodies_leaves (sign : α) (piece : Text) :
    unmarked (bodies (leaves sign piece)) = unmarked piece := by
  rw [leaves_eq, ← unmarked_takeSign (α := α) piece]
  cases hgroup : Text.groupInterior? (takeSign (α := α) piece).2 with
  | some inner =>
      rw [Text.eq_of_groupInterior? hgroup, unmarked_group]
      refine (unmarked_bodies_flatMap fun sub hsub => ?_).trans (by rw [flatten_split])
      have hlt := length_lt_of_groupInterior? (α := α) hgroup hsub
      exact unmarked_bodies_leaves _ sub
  | none =>
      by_cases hempty : (takeSign (α := α) piece).2 = []
      · simp [hempty, bodies]
      · simp [hempty, bodies]
termination_by piece.length

theorem unmarked_bodies_expand (pieces : List Text) :
    unmarked (bodies (expand pieces : List (α × Text))) = unmarked pieces.flatten :=
  unmarked_bodies_flatMap fun piece _ => unmarked_bodies_leaves 1 piece

theorem ne_nil_and_groupInterior?_eq_none_of_mem_leaves {sign : α} {piece : Text}
    {leaf : α × Text} (h : leaf ∈ leaves sign piece) :
    leaf.2 ≠ [] ∧ leaf.2.groupInterior? = none := by
  rcases mem_leaves_iff.mp h with ⟨inner, hgroup, sub, hsub, hleaf⟩ | ⟨hgroup, hne, rfl⟩
  · have hlt := length_lt_of_groupInterior? (α := α) hgroup hsub
    exact ne_nil_and_groupInterior?_eq_none_of_mem_leaves hleaf
  · exact ⟨hne, hgroup⟩
termination_by piece.length

/-- What is promised of a leaf of any text. -/
structure IsLeaf (leaf : α × Text) : Prop where
  factor : leaf.1 = 1 ∨ leaf.1 = -1
  ne_nil : leaf.2 ≠ []
  noGroup : leaf.2.groupInterior? = none

theorem isLeaf_of_mem_expand [Scalar.LawfulFactor α] {pieces : List Text} {leaf : α × Text}
    (h : leaf ∈ expand pieces) : IsLeaf leaf := by
  obtain ⟨piece, -, hleaf⟩ := List.mem_flatMap.mp h
  obtain ⟨hne, hgroup⟩ := ne_nil_and_groupInterior?_eq_none_of_mem_leaves hleaf
  exact ⟨isFactor_of_mem_expand h, hne, hgroup⟩

/-- **Expansion loses and doubles nothing.** -/
theorem unmarked_bodies_expand_and_isLeaf_and_unsigned [Scalar.LawfulFactor α] :
    (∀ pieces : List Text,
      unmarked (bodies (expand pieces : List (α × Text))) = unmarked pieces.flatten ∧
        ∀ leaf ∈ (expand pieces : List (α × Text)), IsLeaf leaf) ∧
      ∀ t : Text, ∀ leaf ∈ (expand (split t.withoutBlanks) : List (α × Text)),
        startsSigned leaf.2 = false := by
  constructor
  · exact fun pieces => ⟨unmarked_bodies_expand pieces, fun leaf => isLeaf_of_mem_expand⟩
  · exact fun t leaf h => (isBody_of_mem_expand (Text.noBlanks_withoutBlanks t) h).unsigned

theorem unmarked_bodies_expand_unpaired :
    let pieces : List Text :=
      ["-( a-(b +c)(d) )".toList, "+(()".toList, " - ".toList, ")+x".toList]
    let t : Text := "(2 - (x + -3)) - ) + -y".toList
    (expand pieces : List (Float × Text)) =
        [(-1, "a".toList), (1, "(b +c)(d)".toList), (1, "(()".toList), (1, ")+x".toList)] ∧
      unmarked (bodies (expand pieces : List (Float × Text))) = "abcdx".toList ∧
      (∀ leaf ∈ (expand pieces : List (Float × Text)), IsLeaf leaf) ∧
      (expand (split t.withoutBlanks) : List (Float × Text)) =
        [(1, "2".toList), (-1, "x".toList), (1, "3".toList), (-1, ")+-y".toList)] ∧
      ∀ leaf ∈ (expand (split t.withoutBlanks) : List (Float × Text)),
        startsSigned leaf.2 = false := by
  intro pieces t
  obtain ⟨hpieces, hsplit⟩ := unmarked_bodies_expand_and_isLeaf_and_unsigned (α := Float)
  obtain ⟨hbodies, hleaves⟩ := hpieces pieces
  refine ⟨by decide +kernel, ?_, hleaves, by decide +kernel, hsplit t⟩
  rw [hbodies]
  decide +kernel

end Univariate.Summand
