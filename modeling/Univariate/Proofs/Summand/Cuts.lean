import Univariate.Proofs.Summand.Leaves

/-!
# The cuts of a text

The pieces of a text are determined by where it is cut, and a cut depends on nothing but the two
characters around it and the brackets in front of it. This holds of every text, whether or not its
brackets pair up.
-/

namespace Univariate.Summand

theorem depthThrough_eq (depth : Int) (t : Text) :
    depthThrough depth t = depth + t.count '(' - t.count ')' := by
  induction t generalizing depth with
  | nil => simp [depthThrough]
  | cons c t ih =>
      rw [depthThrough_cons, ih]
      by_cases hopen : c = '('
      · subst hopen
        have hdepth : depthAfter depth '(' = depth + 1 := rfl
        rw [hdepth, List.count_cons_self, List.count_cons_of_ne (by decide)]
        omega
      by_cases hclose : c = ')'
      · subst hclose
        have hdepth : depthAfter depth ')' = depth - 1 := rfl
        rw [hdepth, List.count_cons_self, List.count_cons_of_ne (by decide)]
        omega
      · rw [depthAfter_of_ne hopen hclose, List.count_cons_of_ne hopen,
          List.count_cons_of_ne hclose]

theorem isCutAfter_iff {t : Text} :
    IsCutAfter t ↔ t.count '(' = t.count ')' ∧ t.getLast? ≠ some '^' := by
  have hdepth : depthThrough 0 t = 0 ↔ t.count '(' = t.count ')' := by
    rw [depthThrough_eq]
    omega
  exact ⟨fun h => ⟨hdepth.mp h.depth, h.last⟩, fun h => ⟨hdepth.mpr h.1, h.2⟩⟩

theorem IsCutAfter.append {u v : Text} (hu : IsCutAfter u) (hv : IsCutAfter v) :
    IsCutAfter (u ++ v) := by
  by_cases hne : v = []
  · rwa [hne, List.append_nil]
  · constructor
    · calc depthThrough 0 (u ++ v) = depthThrough (depthThrough 0 u) v := List.foldl_append
        _ = 0 := by rw [hu.depth, hv.depth]
    · rw [List.getLast?_append_of_ne_nil _ hne]
      exact hv.last

theorem ne_nil_of_mem_split {t piece : Text} (h : piece ∈ split t) : piece ≠ [] := by
  rintro rfl
  exact isPiece_of_mem_split h

/-! ### Cuts of a text and boundaries of its pieces -/

/-- The character at this place is a sign, and neither the first character nor part of an exponent,
and all brackets opened before it are closed. -/
structure IsCut (t : Text) (i : Nat) : Prop where
  pos : 0 < i
  sign : t[i]? = some '+' ∨ t[i]? = some '-'
  noCaret : t[i - 1]? ≠ some '^'
  level : (t.take i).count '(' = (t.take i).count ')'

/-- One of the pieces, other than the first, starts at this place of the text they make up. -/
def IsBoundary (pieces : List Text) (i : Nat) : Prop :=
  ∃ before after, pieces = before ++ after ∧ before ≠ [] ∧ after ≠ [] ∧ before.flatten.length = i

theorem startsSigned_iff {t : Text} :
    startsSigned t = true ↔ t.head? = some '+' ∨ t.head? = some '-' := by
  cases t with
  | nil => simp [startsSigned]
  | cons c t => simp [startsSigned, isSign]

theorem lt_length_of_startsSigned_drop {t : Text} {i : Nat} (h : startsSigned (t.drop i) = true) :
    i < t.length := by
  by_contra hle
  rw [List.drop_of_length_le (Nat.le_of_not_lt hle)] at h
  cases h

theorem isCut_iff {t : Text} {i : Nat} :
    IsCut t i ↔ 0 < i ∧ startsSigned (t.drop i) = true ∧ IsCutAfter (t.take i) := by
  have hsign : startsSigned (t.drop i) = true ↔ t[i]? = some '+' ∨ t[i]? = some '-' := by
    rw [startsSigned_iff, List.head?_drop]
  -- In front of a sign the last character is the one before it.
  have hlast : 0 < i → startsSigned (t.drop i) = true → (t.take i).getLast? = t[i - 1]? := by
    intro hpos hstarts
    have hlt := lt_length_of_startsSigned_drop hstarts
    rw [List.getLast?_eq_getElem?, List.length_take_of_le hlt.le]
    exact List.getElem?_take_of_lt (by omega)
  rw [isCutAfter_iff]
  constructor
  · intro h
    have hstarts := hsign.mpr h.sign
    exact ⟨h.pos, hstarts, h.level, hlast h.pos hstarts ▸ h.noCaret⟩
  · rintro ⟨hpos, hstarts, hlevel, hcaret⟩
    exact ⟨hpos, hsign.mp hstarts, hlast hpos hstarts ▸ hcaret, hlevel⟩

/-- What lies on both sides of a boundary. -/
theorem startsSigned_and_isCutAfter_of_split {t : Text} {before after : List Text}
    (h : split t = before ++ after) (hbefore : before ≠ []) (hafter : after ≠ []) :
    startsSigned after.flatten = true ∧ IsCutAfter before.flatten := by
  induction t using piece_induction generalizing before with
  | nil =>
      obtain ⟨hnil, -⟩ := List.append_eq_nil_iff.mp h.symm
      exact absurd hnil hbefore
  | append u v hu hv ih =>
      obtain ⟨first, before, rfl⟩ := List.exists_cons_of_ne_nil hbefore
      rw [split_append hu hv, List.cons_append] at h
      obtain ⟨rfl, hrest⟩ := List.cons.inj h
      have hcut : startsSigned v = true ∧ IsCutAfter u := by
        apply hv.resolve_left
        rintro rfl
        obtain ⟨-, hnil⟩ := List.append_eq_nil_iff.mp hrest.symm
        exact hafter hnil
      rw [List.flatten_cons]
      by_cases hnil : before = []
      · subst hnil
        rw [List.nil_append] at hrest
        rw [List.flatten_nil, List.append_nil, ← hrest, flatten_split]
        exact hcut
      · obtain ⟨hstarts, hcut'⟩ := ih hrest hnil
        exact ⟨hstarts, hcut.2.append hcut'⟩

theorem split_ne_nil {t : Text} (h : t ≠ []) : split t ≠ [] := by
  intro hnil
  apply h
  rw [← flatten_split t, hnil, List.flatten_nil]

theorem isBoundary_split_iff {t : Text} {i : Nat} : IsBoundary (split t) i ↔ IsCut t i := by
  rw [isCut_iff]
  constructor
  · rintro ⟨before, after, h, hbefore, hafter, rfl⟩
    have hcut := startsSigned_and_isCutAfter_of_split h hbefore hafter
    have ht : t = before.flatten ++ after.flatten := by
      rw [← flatten_split t, h, List.flatten_append]
    have hne : before.flatten ≠ [] := by
      obtain ⟨first, rest, rfl⟩ := List.exists_cons_of_ne_nil hbefore
      apply List.append_ne_nil_of_left_ne_nil
      apply ne_nil_of_mem_split (t := t)
      rw [h]
      exact List.mem_append_left _ List.mem_cons_self
    rw [ht, List.take_left, List.drop_left]
    exact ⟨List.length_pos_iff.mpr hne, hcut⟩
  · rintro ⟨hpos, hstarts, hcut⟩
    have hlt := lt_length_of_startsSigned_drop hstarts
    refine ⟨split (t.take i), split (t.drop i), ?_, ?_, ?_, ?_⟩
    · rw [← split_append_of_isCutAfter (.inr hcut) hstarts, List.take_append_drop]
    · apply split_ne_nil
      apply List.ne_nil_of_length_pos
      rwa [List.length_take_of_le hlt.le]
    · apply split_ne_nil
      apply List.ne_nil_of_length_pos
      rw [List.length_drop]
      omega
    · rw [flatten_split, List.length_take_of_le hlt.le]

/-- The pieces make up the text again, none is empty and none is cut again, and they meet where the
text is cut. -/
structure IsSplitInto (t : Text) (pieces : List Text) : Prop where
  flatten : pieces.flatten = t
  ne_nil : ∀ piece ∈ pieces, piece ≠ []
  whole : ∀ piece ∈ pieces, split piece = [piece]
  boundary : ∀ i, IsBoundary pieces i ↔ IsCut t i

/-- **A text is split at its cuts.** -/
theorem isSplitInto_split (t : Text) : IsSplitInto t (split t) where
  flatten := flatten_split t
  ne_nil _ := ne_nil_of_mem_split
  whole _ hpiece := split_of_isPiece (isPiece_of_mem_split hpiece)
  boundary _ := isBoundary_split_iff

end Univariate.Summand
