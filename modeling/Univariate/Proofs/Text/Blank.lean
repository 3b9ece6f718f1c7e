import Univariate.Text.Blank

/-! # Texts without blanks, and runs of characters -/

namespace Univariate.Text

theorem isBlank_of_visible {c : Char} (hlow : 0x21 ≤ c.toNat) (hhigh : c.toNat < 0x85) :
    isBlank c = false := by
  have hinside : blanks.changes.takeWhile (· ≤ c.toNat) = [0x9, 0xe, 0x20, 0x21] := by
    have h1 : 0x9 ≤ c.toNat := by omega
    have h2 : 0xe ≤ c.toNat := by omega
    have h3 : 0x20 ≤ c.toNat := by omega
    have h5 : ¬0x85 ≤ c.toNat := by omega
    simp only [blanks, List.takeWhile_cons, h1, h2, h3, hlow, h5, decide_true, decide_false,
      if_true, Bool.false_eq_true, if_false]
  rw [isBlank, CharSet.contains, hinside]
  rfl

@[simp]
theorem isBlank_opening : isBlank '(' = false := isBlank_of_visible (by decide) (by decide)

@[simp]
theorem isBlank_closing : isBlank ')' = false := isBlank_of_visible (by decide) (by decide)

@[simp]
theorem isBlank_caret : isBlank '^' = false := isBlank_of_visible (by decide) (by decide)

@[simp]
theorem isBlank_variable : isBlank 'x' = false := isBlank_of_visible (by decide) (by decide)

theorem isBlank_of_isDigit {c : Char} (h : c.isDigit = true) : isBlank c = false := by
  simp only [Char.isDigit, Bool.and_eq_true, decide_eq_true_eq] at h
  have hlow : 48 ≤ c.val.toNat := UInt32.le_iff_toNat_le.mp h.1
  have hhigh : c.val.toNat ≤ 57 := UInt32.le_iff_toNat_le.mp h.2
  exact isBlank_of_visible (by rw [Char.toNat]; omega) (by rw [Char.toNat]; omega)

/-- A run ends before the first character of another kind. -/
theorem takeWhile_append_of_head {p : Char → Bool} {u : Text} (hu : ∀ c ∈ u, p c = true) {t : Text}
    (ht : ∀ c, t.head? = some c → p c = false) :
    (u ++ t).takeWhile p = u ∧ (u ++ t).dropWhile p = t := by
  rw [List.takeWhile_append_of_pos hu, List.dropWhile_append_of_pos hu]
  cases t with
  | nil => simp
  | cons c t =>
      have hc := ht c rfl
      rw [List.takeWhile_cons_of_neg (by simp [hc]), List.dropWhile_cons_of_neg (by simp [hc])]
      exact ⟨List.append_nil u, rfl⟩

def NoBlanks (t : Text) : Prop := ∀ c ∈ t, isBlank c = false

@[simp]
theorem noBlanks_nil : NoBlanks [] := by simp [NoBlanks]

@[simp]
theorem noBlanks_cons {c : Char} {t : Text} :
    NoBlanks (c :: t) ↔ isBlank c = false ∧ NoBlanks t := by
  simp [NoBlanks]

@[simp]
theorem noBlanks_append {u v : Text} : NoBlanks (u ++ v) ↔ NoBlanks u ∧ NoBlanks v := by
  simp only [NoBlanks, List.mem_append]
  constructor
  · exact fun h => ⟨fun c hc => h c (Or.inl hc), fun c hc => h c (Or.inr hc)⟩
  · exact fun h c hc => hc.elim (h.1 c) (h.2 c)

theorem noBlanks_withoutBlanks (t : Text) : NoBlanks t.withoutBlanks := by
  intro c hc
  simpa using (List.mem_filter.mp hc).2

theorem withoutBlanks_append (u v : Text) :
    (u ++ v).withoutBlanks = u.withoutBlanks ++ v.withoutBlanks :=
  List.filter_append u v

theorem NoBlanks.withoutBlanks_eq {t : Text} (h : NoBlanks t) : t.withoutBlanks = t := by
  refine List.filter_eq_self.mpr fun c hc => ?_
  rw [h c hc]
  rfl

/-- Trimming takes blanks off both ends. -/
theorem exists_blanks_append_trim (t : Text) :
    ∃ u v : Text, t = u ++ t.trim ++ v ∧ (∀ c ∈ u, isBlank c = true) ∧
      ∀ c ∈ v, isBlank c = true := by
  refine ⟨t.takeWhile isBlank, (t.trimStart.reverse.takeWhile isBlank).reverse, ?_, ?_, ?_⟩
  · have hend : t.trim ++ (t.trimStart.reverse.takeWhile isBlank).reverse = t.trimStart := by
      rw [trim, trimEnd, ← List.reverse_append, List.takeWhile_append_dropWhile,
        List.reverse_reverse]
    rw [List.append_assoc, hend]
    exact List.takeWhile_append_dropWhile.symm
  · exact List.all_eq_true.mp List.all_takeWhile
  · exact fun c hc => List.all_eq_true.mp List.all_takeWhile c (List.mem_reverse.mp hc)

theorem infix_trim (t : Text) : t.trim <:+: t := by
  obtain ⟨u, v, ht, -, -⟩ := exists_blanks_append_trim t
  exact ⟨u, v, ht.symm⟩

/-- No blank at either end. -/
structure IsTrimmed (t : Text) : Prop where
  head : ∀ c ∈ t.head?, isBlank c = false
  last : ∀ c ∈ t.getLast?, isBlank c = false

theorem IsTrimmed.trim_eq {t : Text} (h : IsTrimmed t) : t.trim = t := by
  have hdrop : ∀ u : Text, (∀ c ∈ u.head?, isBlank c = false) → u.dropWhile isBlank = u := by
    intro u hu
    cases u with
    | nil => exact List.dropWhile_nil
    | cons c u => exact List.dropWhile_cons_of_neg (by simp [hu c rfl])
  have hreverse : t.reverse.dropWhile isBlank = t.reverse := by
    apply hdrop
    rw [List.head?_reverse]
    exact h.last
  rw [trim, trimStart, trimEnd, hdrop t h.head, hreverse, List.reverse_reverse]

theorem IsTrimmed.cons {c : Char} {t : Text} (hc : isBlank c = false) (h : IsTrimmed t) :
    IsTrimmed (c :: t) where
  head b hb := Option.some.inj hb ▸ hc
  last b hb := by
    rw [List.getLast?_cons, Option.mem_some_iff] at hb
    cases hlast : t.getLast? with
    | none =>
        rw [hlast, Option.getD_none] at hb
        rwa [← hb]
    | some d =>
        rw [hlast, Option.getD_some] at hb
        exact h.last b (by rw [hlast, hb]; exact Option.mem_some_self b)

theorem NoBlanks.isTrimmed {t : Text} (h : NoBlanks t) : IsTrimmed t where
  head c hc := h c (List.mem_of_head? hc)
  last c hc := h c (List.mem_of_getLast? hc)

theorem NoBlanks.trim_eq {t : Text} (h : NoBlanks t) : t.trim = t := h.isTrimmed.trim_eq

end Univariate.Text
