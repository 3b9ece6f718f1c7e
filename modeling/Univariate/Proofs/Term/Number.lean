import Univariate.Proofs.Numeral.Digits
import Univariate.Proofs.Summand.Split
import Univariate.Proofs.Text.Blank
import Univariate.Term.Reader

/-!
# Number texts inside terms

A number of its own is an unsigned one with an optional sign, and a coefficient in front of a letter
ends where the digits do.
-/

namespace Univariate

open Summand (startsSigned isSign)
open Numeral (IsDigits isDigits_takeWhile)

theorem takeSign_of_not_startsSigned {t : Text} (h : startsSigned t = false) :
    t.takeSign = (false, t) := by
  unfold Text.takeSign
  split
  · simp [startsSigned, isSign] at h
  · simp [startsSigned, isSign] at h
  · rfl

theorem startsSigned_of_isUnsigned {t : Text} (h : Numeral.IsUnsigned t) :
    startsSigned t = false := by
  obtain ⟨c, rest, rfl, hc⟩ := h.exists_cons
  have hne : ∀ sign : Char, sign.isDigit = false → c ≠ sign := by
    rintro sign hsign rfl
    rw [hc] at hsign
    exact Bool.noConfusion hsign
  simp [startsSigned, isSign, hne '+' rfl, hne '-' rfl]

theorem noBlanks_of_isUnsigned {t : Text} (h : Numeral.IsUnsigned t) : t.NoBlanks := by
  intro c hc
  rcases h.isDigit_or_eq_point c hc with hdigit | rfl
  · exact Text.isBlank_of_isDigit hdigit
  · decide

namespace Coefficient

variable {isDigit : Char → Bool} {t rest : Text}

theorem span_of_point (h : startsSigned t = false) (hrest : t.dropWhile isDigit = '.' :: rest) :
    span isDigit t =
      (t.takeWhile isDigit ++ '.' :: rest.takeWhile isDigit, rest.dropWhile isDigit) := by
  cases t with
  | nil => simp at hrest
  | cons c t =>
      have hc : ¬(c == '+' || c == '-') = true := by simpa [startsSigned, isSign] using h
      unfold span
      dsimp only
      rw [if_neg hc, List.length_nil, List.drop_zero, hrest]
      simp

theorem span_of_no_point (h : startsSigned t = false)
    (hrest : (t.dropWhile isDigit).head? ≠ some '.') :
    span isDigit t = (t.takeWhile isDigit, t.dropWhile isDigit) := by
  cases t with
  | nil => rfl
  | cons c t =>
      have hc : ¬(c == '+' || c == '-') = true := by simpa [startsSigned, isSign] using h
      unfold span
      dsimp only
      rw [if_neg hc, List.length_nil, List.drop_zero]
      split
      · next hdrop => simp [hdrop] at hrest
      · rfl

def IsUnsigned (t : Text) : Prop := t = [] ∨ Numeral.IsUnsigned t

/-- The first character after a coefficient. -/
def Ends (c : Char) : Prop := c.isDigit = false ∧ c ≠ '.' ∧ isSign c = false

instance (c : Char) : Decidable (Ends c) := inferInstanceAs (Decidable (_ ∧ _))

/-- A coefficient ends where its digits do. -/
theorem span_append_of_isMantissa {k tail : Text} (hk : Numeral.IsMantissa k)
    (hunsigned : startsSigned (k ++ tail) = false) (htail : ∀ c, tail.head? = some c → Ends c) :
    span Char.isDigit (k ++ tail) = (k, tail) := by
  have hdigit : ∀ c, tail.head? = some c → c.isDigit = false := fun c hc => (htail c hc).1
  cases hk with
  | whole hw =>
      obtain ⟨htake, hdrop⟩ := Text.takeWhile_append_of_head hw hdigit
      have hpoint : (List.dropWhile Char.isDigit (k ++ tail)).head? ≠ some '.' := by
        rw [hdrop]
        exact fun hc => (htail _ hc).2.1 rfl
      rw [span_of_no_point hunsigned hpoint, htake, hdrop]
  | @point w f hw hf =>
      obtain ⟨htake, hdrop⟩ := Text.takeWhile_append_of_head hf hdigit
      obtain ⟨htakeWhole, hdropWhole⟩ :=
        Text.takeWhile_append_of_head hw (t := '.' :: (f ++ tail)) (by rintro _ ⟨⟩; rfl)
      rw [List.append_assoc, List.cons_append] at hunsigned ⊢
      rw [span_of_point hunsigned hdropWhole, htakeWhole, htake, hdrop]

variable {k : Text} {c : Char}

theorem IsUnsigned.startsSigned_append (hk : IsUnsigned k) (hc : Ends c) (tail : Text) :
    startsSigned (k ++ c :: tail) = false := by
  rcases hk with rfl | hk
  · exact hc.2.2
  · have hunsigned := startsSigned_of_isUnsigned hk
    obtain ⟨d, rest, rfl, -⟩ := hk.exists_cons
    exact hunsigned

theorem IsUnsigned.noBlanks (hk : IsUnsigned k) : k.NoBlanks := by
  rcases hk with rfl | hk
  · exact Text.noBlanks_nil
  · exact noBlanks_of_isUnsigned hk

theorem IsUnsigned.span_append (hk : IsUnsigned k) (hc : Ends c) (tail : Text) :
    span Char.isDigit (k ++ c :: tail) = (k, c :: tail) := by
  have hunsigned := hk.startsSigned_append hc tail
  have hmantissa : Numeral.IsMantissa k := by
    rcases hk with rfl | hk
    · exact .whole nofun
    · exact hk.isMantissa
  apply span_append_of_isMantissa hmantissa hunsigned
  rintro _ ⟨⟩
  exact hc

theorem ofText?_of_isUnsigned {α : Type} [Scalar α] (hk : Numeral.IsUnsigned k) :
    (ofText? k : Option α) = Scalar.ofText? k := by
  obtain ⟨c, rest, rfl, hc⟩ := hk.exists_cons
  unfold ofText?
  split
  · next heq => simp at heq
  · next heq => simp_all
  · next heq => simp_all
  · rfl

end Coefficient

theorem isSignedNumber_iff {t : Text} :
    isSignedNumber t = true ↔ Numeral.IsUnsigned t.takeSign.2 := by
  unfold isSignedNumber
  generalize t.takeSign = signed
  obtain ⟨negative, u⟩ := signed
  dsimp only
  constructor
  · intro h
    rw [Bool.and_eq_true, Bool.not_eq_true', List.isEmpty_eq_false_iff] at h
    obtain ⟨hwhole, hrest⟩ := h
    have hdigits := isDigits_takeWhile hwhole
    rw [← List.takeWhile_append_dropWhile (p := Char.isDigit) (l := u)]
    split at hrest
    · next hdrop =>
        rw [hdrop, List.append_nil]
        exact .whole hdigits
    · next fraction hdrop =>
        rw [hdrop]
        simp only [Bool.and_eq_true, Bool.not_eq_true', List.isEmpty_eq_false_iff,
          List.all_eq_true] at hrest
        exact .fraction hdigits hrest
    · simp at hrest
  · intro h
    cases h with
    | whole hw =>
        rw [hw.takeWhile_eq, hw.dropWhile_eq]
        simpa using hw.1
    | fraction hw hf =>
        rw [hw.takeWhile_append (by decide), hw.dropWhile_append (by decide)]
        simp [hw.1, hf.1, List.all_eq_true.mpr hf.2]

theorem ne_nil_of_isSignedNumber {t : Text} (h : isSignedNumber t = true) : t ≠ [] := by
  rintro rfl
  simp [isSignedNumber, Text.takeSign] at h

theorem isSign_or_mem_takeSign {t : Text} {c : Char} (hc : c ∈ t) :
    isSign c = true ∨ c ∈ t.takeSign.2 := by
  unfold Text.takeSign
  split
  · exact (List.mem_cons.mp hc).imp_left (by rintro rfl; rfl)
  · exact (List.mem_cons.mp hc).imp_left (by rintro rfl; rfl)
  · exact Or.inr hc

theorem not_mem_of_isSignedNumber {t : Text} (h : isSignedNumber t = true) {c : Char}
    (hc : Coefficient.Ends c) : c ∉ t := by
  obtain ⟨hdigit, hpoint, hsign⟩ := hc
  intro hmem
  rcases isSign_or_mem_takeSign hmem with hsigned | hmem
  · rw [hsign] at hsigned
    cases hsigned
  · rcases (isSignedNumber_iff.mp h).isDigit_or_eq_point c hmem with hnumber | hnumber
    · rw [hdigit] at hnumber
      cases hnumber
    · exact hpoint hnumber

theorem noBlanks_of_isSignedNumber {t : Text} (h : isSignedNumber t = true) : t.NoBlanks := by
  intro c hc
  rcases isSign_or_mem_takeSign hc with hsign | hc
  · rw [isSign, Bool.or_eq_true, beq_iff_eq, beq_iff_eq] at hsign
    rcases hsign with rfl | rfl <;> decide
  · rcases (isSignedNumber_iff.mp h).isDigit_or_eq_point c hc with hdigit | rfl
    · exact Text.isBlank_of_isDigit hdigit
    · decide

theorem isSignedNumber_append {k : Text} {c : Char} (hk : Coefficient.IsUnsigned k)
    (hc : Coefficient.Ends c) (tail : Text) : isSignedNumber (k ++ c :: tail) = false := by
  rw [Bool.eq_false_iff]
  intro h
  have hnumber := isSignedNumber_iff.mp h
  rw [takeSign_of_not_startsSigned (hk.startsSigned_append hc tail)] at hnumber
  rcases hnumber.isDigit_or_eq_point c (by simp) with hdigit | hpoint
  · rw [hc.1] at hdigit
    exact Bool.noConfusion hdigit
  · exact hc.2.1 hpoint

end Univariate
