import Univariate.Proofs.Expression.Respelling
import Univariate.Proofs.Summand.Cuts
import Univariate.Proofs.Term.Shape

/-!
# What respelling leaves to be respelled

No two stars are next to each other in a respelled text, and none of its pieces is a bare
exponential, so that respelling it again changes nothing. A bare exponential is completed where it
is a piece of the text; a group is one piece, so that those inside it stay as they are.
-/

namespace Univariate

open Numeral (Spelling)
open Summand
open Term (Shape)
open Text (isDecimalDigit)

namespace Integrand

/-! ### Bare exponentials -/

/-- A coefficient, possibly empty, directly followed by `e` and nothing else. -/
def bareExponential : Language Char := Shape.coefficientPattern * {['e']}

theorem isBareExponential_iff {t : Text} : isBareExponential t = true ↔ t ∈ bareExponential := by
  rw [isBareExponential, beq_iff_eq, bareExponential, Shape.mem_coefficientPattern_mul]
  constructor
  · intro htail
    obtain ⟨n, hn, htext, -⟩ := Spelling.exists_span_eq isDecimalDigit t
    refine ⟨n, hn, ['e'], rfl, ?_⟩
    rw [htext, ← htail, Coefficient.append_span]
  · rintro ⟨n, hn, _, rfl, rfl⟩
    have hends : n.EndsBefore isDecimalDigit ['e'] :=
      Spelling.endsBefore_letter Spelling.isDigitKind_decimal (by decide) []
    rw [Spelling.span_text Spelling.isDigitKind_decimal hn hends]

/-! ### Pieces after completion -/

section

variable {piece : Text}

theorem isBareExponential_completeExponential (piece : Text) :
    isBareExponential (completeExponential piece) = false := by
  unfold completeExponential
  split
  · rw [Bool.eq_false_iff]
    intro hbare
    apply not_mem_of_isBareExponential hbare (c := '^') (by decide)
    exact List.mem_append_right _ List.mem_cons_self
  · next h => simpa using h

theorem not_infix_completeExponential (h : ¬['*', '*'] <:+: piece) :
    ¬['*', '*'] <:+: completeExponential piece := by
  unfold completeExponential
  split
  · next hbare =>
      intro hstars
      have hstar : '*' ∈ piece := by
        simpa using hstars.subset List.mem_cons_self
      exact not_mem_of_isBareExponential hbare (by decide) hstar
  · exact h

theorem noBlanks_completeExponential (h : piece.NoBlanks) :
    (completeExponential piece).NoBlanks := by
  unfold completeExponential
  split
  · exact Text.noBlanks_append.mpr ⟨h, by simp⟩
  · exact h

theorem isPiece_completeExponential (h : IsPiece piece) : IsPiece (completeExponential piece) := by
  unfold completeExponential
  split
  · cases piece with
    | nil => exact h.elim
    | cons c rest =>
        apply uncut_append.mpr
        exact ⟨h, cuts_of_not_isSign (by decide) _ _, cuts_of_not_isSign (by decide) _ _, trivial⟩
  · exact h

theorem isCutAfter_completeExponential (h : IsCutAfter piece) :
    IsCutAfter (completeExponential piece) := by
  unfold completeExponential
  split
  · exact h.append ⟨rfl, by decide⟩
  · exact h

end

theorem startsSigned_flatMap_completeExponential (t : Text) :
    startsSigned ((split t).flatMap completeExponential) = startsSigned t := by
  by_cases hne : t = []
  · rw [hne]
    rfl
  · obtain ⟨u, v, rfl, hu, hv⟩ := exists_piece_append hne
    rw [split_append hu hv, List.flatMap_cons, completeExponential]
    cases u with
    | nil => exact hu.elim
    | cons c u => split <;> rfl

/-- What is added to a piece is neither a sign nor a bracket, so that no cut moves. -/
theorem split_flatMap_completeExponential (t : Text) :
    split ((split t).flatMap completeExponential) = (split t).map completeExponential := by
  induction t using piece_induction with
  | nil => rfl
  | append piece rest hpiece hrest ih =>
      have hrest' : (split rest).flatMap completeExponential = [] ∨
          startsSigned ((split rest).flatMap completeExponential) = true ∧
            IsCutAfter (completeExponential piece) := by
        rcases hrest with rfl | ⟨hstarts, hcut⟩
        · exact Or.inl rfl
        · rw [startsSigned_flatMap_completeExponential]
          exact Or.inr ⟨hstarts, isCutAfter_completeExponential hcut⟩
      rw [split_append hpiece hrest, List.flatMap_cons,
        split_append (isPiece_completeExponential hpiece) hrest', ih, List.map_cons]

theorem split_respell (t : Text) :
    split (respell t) = (split (caretsForStars t.withoutBlanks)).map completeExponential :=
  split_flatMap_completeExponential _

/-! ### Respelled texts -/

theorem not_infix_append {u v : Text} (hu : ¬['*', '*'] <:+: u) (hv : ¬['*', '*'] <:+: v)
    (hhead : v.head? ≠ some '*') : ¬['*', '*'] <:+: u ++ v := by
  have happend : caretsForStars (u ++ v) = u ++ v := by
    rw [caretsForStars_append u hhead, caretsForStars_of_not_infix hu,
      caretsForStars_of_not_infix hv]
  exact happend ▸ not_infix_caretsForStars (u ++ v)

theorem head?_ne_star_of_startsSigned {t : Text} (h : t = [] ∨ startsSigned t = true) :
    t.head? ≠ some '*' := by
  rcases h with rfl | h
  · exact nofun
  · intro hhead
    rw [startsSigned_iff, hhead] at h
    simp at h

/-- A piece after the first starts with a sign, so that no star meets another one at a cut. -/
theorem not_infix_flatMap_completeExponential {t : Text} (h : ¬['*', '*'] <:+: t) :
    ¬['*', '*'] <:+: (split t).flatMap completeExponential := by
  induction t using piece_induction with
  | nil => exact h
  | append piece rest hpiece hrest ih =>
      have hcompleted : ¬['*', '*'] <:+: completeExponential piece :=
        not_infix_completeExponential fun hstars =>
          h (hstars.trans (List.prefix_append piece rest).isInfix)
      have hothers : ¬['*', '*'] <:+: (split rest).flatMap completeExponential :=
        ih fun hstars => h (hstars.trans (List.suffix_append piece rest).isInfix)
      rw [split_append hpiece hrest, List.flatMap_cons]
      apply not_infix_append hcompleted hothers
      apply head?_ne_star_of_startsSigned
      rcases hrest with rfl | ⟨hstarts, -⟩
      · exact Or.inl rfl
      · exact Or.inr ((startsSigned_flatMap_completeExponential rest).trans hstarts)

/-- In the spelling of expressions: nothing is left to be respelled. -/
structure IsRespelled (t : Text) : Prop where
  noBlanks : t.NoBlanks
  noStars : ¬['*', '*'] <:+: t
  complete : ∀ piece ∈ split t, isBareExponential piece = false

theorem isRespelled_respell (t : Text) : IsRespelled (respell t) where
  noBlanks := by
    have hblanks := noBlanks_caretsForStars (Text.noBlanks_withoutBlanks t)
    intro c hc
    obtain ⟨piece, hpiece, hc⟩ := List.mem_flatMap.mp hc
    exact noBlanks_completeExponential (noBlanks_of_mem_split hblanks hpiece) c hc
  noStars := not_infix_flatMap_completeExponential (not_infix_caretsForStars _)
  complete piece hpiece := by
    rw [split_respell] at hpiece
    obtain ⟨piece, -, rfl⟩ := List.mem_map.mp hpiece
    exact isBareExponential_completeExponential piece

theorem not_infix_of_mem_split_respell {t piece : Text} (h : piece ∈ split (respell t)) :
    ¬['*', '*'] <:+: piece :=
  fun hstars => (isRespelled_respell t).noStars (hstars.trans (infix_of_mem_split h))

theorem IsRespelled.respell_eq {t : Text} (h : IsRespelled t) : respell t = t := by
  have hblanks : t.withoutBlanks = t := h.noBlanks.withoutBlanks_eq
  have hrespell : respell t = t.withoutBlanks := by
    apply respell_eq_withoutBlanks
    · rw [hblanks]
      exact h.noStars
    · rw [Expression.pieces, hblanks]
      exact h.complete
  exact hrespell.trans hblanks

/-- **Respelling twice is respelling once**, whatever the text. -/
theorem respell_respell (t : Text) : respell (respell t) = respell t :=
  (isRespelled_respell t).respell_eq

/-! ### Groups -/

/-- A text in one pair of brackets, with or without a sign in front. -/
def IsGroup (piece : Text) : Prop :=
  ∃ sign inner, Text.balanced inner = true ∧ piece = Sign.text sign ++ '(' :: (inner ++ [')'])

theorem IsGroup.opening_mem {piece : Text} (h : IsGroup piece) : '(' ∈ piece := by
  obtain ⟨sign, inner, -, rfl⟩ := h
  exact List.mem_append_right _ List.mem_cons_self

theorem completeExponential_of_isGroup {piece : Text} (h : IsGroup piece) :
    completeExponential piece = piece :=
  if_neg fun hbare => not_mem_of_isBareExponential hbare (by decide) h.opening_mem

theorem isGroup_completeExponential_iff {piece : Text} :
    IsGroup (completeExponential piece) ↔ IsGroup piece := by
  constructor
  · intro h
    unfold completeExponential at h
    split at h
    · next hbare =>
        have hopen : '(' ∈ piece := by simpa using h.opening_mem
        exact absurd hopen (not_mem_of_isBareExponential hbare (by decide))
    · exact h
  · intro h
    rwa [completeExponential_of_isGroup h]

variable {α : Type} [Scalar α] {leaf : α × Text}

/-- A piece that is no group is its own leaf, less the sign. -/
theorem exists_sign_append_of_mem_leaves {piece : Text} (hpiece : IsPiece piece)
    (hblanks : piece.NoBlanks) (hgroup : ¬IsGroup piece) {outer : α}
    (h : leaf ∈ leaves outer piece) :
    ∃ sign, piece = Sign.text sign ++ leaf.2 ∧ startsSigned leaf.2 = false := by
  obtain ⟨sign, body, rfl, hbody⟩ := WrittenSum.exists_sign_append hpiece
  have htaken : (takeSign (α := α) (Sign.text sign ++ body)).2 = body := by
    rw [takeSign_append hblanks hbody]
  rcases mem_leaves_iff.mp h with ⟨inner, hinterior, -⟩ | ⟨-, -, rfl⟩
  · rw [htaken] at hinterior
    refine absurd ⟨sign, inner, ?_, ?_⟩ hgroup
    · exact Text.balanced_iff.mpr (Text.closes_of_groupInterior? hinterior)
    · rw [← Text.eq_of_groupInterior? hinterior]
  · exact ⟨sign, by rw [htaken], by rwa [htaken]⟩

theorem isGroup_of_mem_leaves {piece : Text} (hpiece : IsPiece piece) (hblanks : piece.NoBlanks)
    {outer : α} (h : leaf ∈ leaves outer (completeExponential piece))
    (hbare : isBareExponential leaf.2 = true) : IsGroup piece := by
  by_contra hgroup
  obtain ⟨sign, heq, hbody⟩ := exists_sign_append_of_mem_leaves
    (isPiece_completeExponential hpiece) (noBlanks_completeExponential hblanks)
    (mt isGroup_completeExponential_iff.mp hgroup) h
  have hcompleted := isBareExponential_completeExponential piece
  rw [heq, isBareExponential_sign_append sign hbody, hbare] at hcompleted
  cases hcompleted

/-- The bare exponentials that are left are those inside the groups, none less. -/
theorem mem_expand_respell_iff {t : Text} (hbare : leaf.2 ∈ bareExponential) :
    leaf ∈ expand (split (respell t)) ↔
      ∃ piece ∈ split (caretsForStars t.withoutBlanks), IsGroup piece ∧ leaf ∈ leaves 1 piece := by
  have hblanks := noBlanks_caretsForStars (Text.noBlanks_withoutBlanks t)
  rw [expand, split_respell, List.flatMap_map, List.mem_flatMap]
  refine exists_congr fun piece => and_congr_right fun hpiece => ?_
  constructor
  · intro hleaf
    have hgroup : IsGroup piece := isGroup_of_mem_leaves (isPiece_of_mem_split hpiece)
      (noBlanks_of_mem_split hblanks hpiece) hleaf (isBareExponential_iff.mpr hbare)
    rw [completeExponential_of_isGroup hgroup] at hleaf
    exact ⟨hgroup, hleaf⟩
  · rintro ⟨hgroup, hleaf⟩
    rwa [completeExponential_of_isGroup hgroup]

variable (α) in
/-- **Respelling reaches all stars, and the bare exponentials outside groups.** -/
theorem leaves_respell (t : Text) :
    (∀ leaf ∈ (expand (split (respell t)) : List (α × Text)), ¬['*', '*'] <:+: leaf.2) ∧
      ((∀ leaf ∈ (expand (split (respell t)) : List (α × Text)), leaf.2 ∉ bareExponential) ↔
        ∀ piece ∈ split (caretsForStars t.withoutBlanks), IsGroup piece →
          ∀ leaf ∈ (leaves 1 piece : List (α × Text)), leaf.2 ∉ bareExponential) := by
  constructor
  · intro leaf hleaf hstars
    obtain ⟨piece, hpiece, hleaf⟩ := List.mem_flatMap.mp hleaf
    exact not_infix_of_mem_split_respell hpiece (hstars.trans (infix_of_mem_leaves hleaf))
  · constructor
    · intro h piece hpiece hgroup leaf hleaf hbare
      exact h leaf ((mem_expand_respell_iff hbare).mpr ⟨piece, hpiece, hgroup, hleaf⟩) hbare
    · intro h leaf hleaf hbare
      obtain ⟨piece, hpiece, hgroup, hleaf⟩ := (mem_expand_respell_iff hbare).mp hleaf
      exact h piece hpiece hgroup leaf hleaf hbare

/-- A group keeps its bare exponential, and what is read there is no term of known shape. -/
theorem not_leaves_respell_group :
    let t : Text := "1-(e)".toList
    t.balanced = true ∧
      ∃ leaf ∈ (expand (split (respell t)) : List (Float × Text)),
        leaf.2 ∈ bareExponential ∧ (Term.ofText leaf.2 : Term Float).isUnrecognized = true := by
  intro t
  obtain ⟨leaf, hleaf, heq⟩ :
      ∃ leaf ∈ (expand (split (respell t)) : List (Float × Text)), leaf.2 = ['e'] := by
    decide +kernel
  refine ⟨rfl, leaf, hleaf, ?_, ?_⟩
  · rw [heq]
    exact isBareExponential_iff.mp rfl
  · rw [heq]
    decide +kernel

end Integrand

end Univariate
