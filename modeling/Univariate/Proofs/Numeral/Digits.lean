import Mathlib.Data.List.TakeWhile
import Univariate.Numeral.Reader
import Univariate.Numeral.Writer

/-!
# Number texts

What counts as the text of a number, said without the reader: digits, and more digits after a point.
Positional writing gives nothing else, and the reader takes all of it.
-/

namespace Univariate.Numeral

def IsDigits (t : Text) : Prop := t ≠ [] ∧ ∀ c ∈ t, c.isDigit = true

inductive IsUnsigned : Text → Prop where
  | whole {w : Text} (hw : IsDigits w) : IsUnsigned w
  | fraction {w f : Text} (hw : IsDigits w) (hf : IsDigits f) : IsUnsigned (w ++ '.' :: f)

/-- Digits and at most one point, wherever it stands. -/
inductive IsMantissa : Text → Prop where
  | whole {w : Text} (hw : ∀ c ∈ w, c.isDigit = true) : IsMantissa w
  | point {w f : Text} (hw : ∀ c ∈ w, c.isDigit = true) (hf : ∀ c ∈ f, c.isDigit = true) :
    IsMantissa (w ++ '.' :: f)

theorem IsMantissa.isDigit_or_eq_point {t : Text} (h : IsMantissa t) :
    ∀ c ∈ t, c.isDigit = true ∨ c = '.' := by
  cases h with
  | whole hw => exact fun c hc => Or.inl (hw c hc)
  | point hw hf =>
      intro c hc
      rcases List.mem_append.mp hc with hc | hc
      · exact Or.inl (hw c hc)
      · rcases List.mem_cons.mp hc with hc | hc
        · exact Or.inr hc
        · exact Or.inl (hf c hc)

theorem IsUnsigned.isMantissa {t : Text} (h : IsUnsigned t) : IsMantissa t := by
  cases h with
  | whole hw => exact .whole hw.2
  | fraction hw hf => exact .point hw.2 hf.2

theorem isDigits_takeWhile {t : Text} (h : t.takeWhile Char.isDigit ≠ []) :
    IsDigits (t.takeWhile Char.isDigit) :=
  ⟨h, fun _ hc => List.mem_takeWhile_imp hc⟩

namespace IsDigits

variable {t w : Text}

theorem takeWhile_eq (h : IsDigits t) : t.takeWhile Char.isDigit = t :=
  List.takeWhile_eq_self_iff.mpr h.2

theorem dropWhile_eq (h : IsDigits t) : t.dropWhile Char.isDigit = [] :=
  List.dropWhile_eq_nil_iff.mpr h.2

theorem takeWhile_append (hw : IsDigits w) {c : Char} (hc : c.isDigit = false) (t : Text) :
    (w ++ c :: t).takeWhile Char.isDigit = w := by
  rw [List.takeWhile_append_of_pos hw.2, List.takeWhile_cons_of_neg (by simp [hc]), List.append_nil]

theorem dropWhile_append (hw : IsDigits w) {c : Char} (hc : c.isDigit = false) (t : Text) :
    (w ++ c :: t).dropWhile Char.isDigit = c :: t := by
  rw [List.dropWhile_append_of_pos hw.2, List.dropWhile_cons_of_neg (by simp [hc])]

end IsDigits

/-! ## Writing -/

theorem isDigits_naturalText (n : Nat) : IsDigits (naturalText n) :=
  ⟨Nat.toDigits_ne_nil, fun _ => Nat.isDigit_of_mem_toDigits (b := 10) (by decide) (by decide)⟩

theorem isDigit_of_mem_zeros {n : Nat} {c : Char} (h : c ∈ zeros n) : c.isDigit = true := by
  rw [List.eq_of_mem_replicate h]
  decide

/-- Zeros in front leave a digit before the point. -/
theorem exists_withPoint_eq {digits : Text} (h : IsDigits digits) {places : Nat}
    (hplaces : places ≠ 0) :
    ∃ w f n, withPoint digits places = w ++ '.' :: f ∧ IsDigits w ∧ IsDigits f ∧
      f.length = places ∧ w ++ f = zeros n ++ digits := by
  unfold withPoint
  rw [if_neg (by simpa using hplaces)]
  dsimp only
  generalize hpadded : zeros (places + 1 - digits.length) ++ digits = padded
  have hdigit : ∀ c ∈ padded, c.isDigit = true := by
    subst hpadded
    intro c hc
    rcases List.mem_append.mp hc with hc | hc
    · exact isDigit_of_mem_zeros hc
    · exact h.2 c hc
  have hlength : places + 1 ≤ padded.length := by
    subst hpadded
    rw [List.length_append, zeros, List.length_replicate]
    omega
  refine ⟨padded.take (padded.length - places), padded.drop (padded.length - places), _, ?_,
    ⟨?_, fun c hc => hdigit c (List.mem_of_mem_take hc)⟩,
    ⟨?_, fun c hc => hdigit c (List.mem_of_mem_drop hc)⟩, ?_,
    (List.take_append_drop _ _).trans hpadded.symm⟩
  · rw [List.append_assoc, List.singleton_append]
  · rw [List.ne_nil_iff_length_pos, List.length_take]
    omega
  · rw [List.ne_nil_iff_length_pos, List.length_drop]
    omega
  · rw [List.length_drop]
    omega

theorem isUnsigned_withPoint {digits : Text} (h : IsDigits digits) (places : Nat) :
    IsUnsigned (withPoint digits places) := by
  by_cases hplaces : places = 0
  · subst hplaces
    exact .whole h
  · obtain ⟨w, f, -, htext, hw, hf, -⟩ := exists_withPoint_eq h hplaces
    exact htext ▸ .fraction hw hf

theorem isUnsigned_positional (digits : Nat) (exponent : Int) :
    IsUnsigned (positional digits exponent) := by
  cases exponent with
  | ofNat n =>
      change IsUnsigned (if digits == 0 then ['0'] else naturalText digits ++ zeros n)
      split
      · exact .whole ⟨by simp, by simp⟩
      · have hdigits := isDigits_naturalText digits
        refine .whole ⟨by simp [hdigits.1], fun c hc => ?_⟩
        rcases List.mem_append.mp hc with hc | hc
        · exact hdigits.2 c hc
        · exact isDigit_of_mem_zeros hc
  | negSucc n => exact isUnsigned_withPoint (isDigits_naturalText digits) (n + 1)

/-! ## Reading -/

theorem toLower_of_isDigit {c : Char} (h : c.isDigit = true) : c.toLower = c := by
  simp only [Char.isDigit, Bool.and_eq_true, decide_eq_true_eq] at h
  have hle : c.val.toNat ≤ 57 := UInt32.le_iff_toNat_le.mp h.2
  refine dif_neg fun hupper => ?_
  have hge : 65 ≤ c.val.toNat := UInt32.le_iff_toNat_le.mp hupper.1
  omega

namespace IsDigits

variable {w f : Text}

theorem magnitude?_eq (hw : IsDigits w) : magnitude? w = some (digitsValue w, 0) := by
  unfold magnitude?
  rw [hw.takeWhile_eq, hw.dropWhile_eq]
  simp [hw.1, exponent?]

theorem magnitude?_append (hw : IsDigits w) (hf : IsDigits f) :
    magnitude? (w ++ '.' :: f) = some (digitsValue (w ++ f), -(f.length : Int)) := by
  unfold magnitude?
  rw [hw.takeWhile_append (by decide), hw.dropWhile_append (by decide)]
  simp [hf.takeWhile_eq, hf.dropWhile_eq, hw.1, exponent?]

end IsDigits

namespace IsUnsigned

variable {t : Text}

theorem exists_cons (h : IsUnsigned t) : ∃ c rest, t = c :: rest ∧ c.isDigit = true := by
  cases h with
  | whole hw =>
      obtain ⟨c, rest, rfl⟩ := List.exists_cons_of_ne_nil hw.1
      exact ⟨c, rest, rfl, hw.2 c List.mem_cons_self⟩
  | fraction hw hf =>
      obtain ⟨c, rest, rfl⟩ := List.exists_cons_of_ne_nil hw.1
      exact ⟨c, _, rfl, hw.2 c List.mem_cons_self⟩

theorem takeSign_eq (h : IsUnsigned t) : t.takeSign = (false, t) := by
  obtain ⟨c, rest, rfl, hc⟩ := h.exists_cons
  unfold Text.takeSign
  split
  · next heq => simp_all
  · next heq => simp_all
  · rfl

theorem isDigit_or_eq_point (h : IsUnsigned t) : ∀ c ∈ t, c.isDigit = true ∨ c = '.' :=
  h.isMantissa.isDigit_or_eq_point

theorem exists_magnitude?_eq (h : IsUnsigned t) : ∃ size, magnitude? t = some size := by
  cases h with
  | whole hw => exact ⟨_, hw.magnitude?_eq⟩
  | fraction hw hf => exact ⟨_, hw.magnitude?_append hf⟩

theorem ofText?_eq (h : IsUnsigned t) {digits : Nat} {exponent : Int}
    (hsize : magnitude? t = some (digits, exponent)) :
    ofText? t = some (.decimal false digits exponent) ∧
      ofText? ('-' :: t) = some (.decimal true digits exponent) := by
  have hplain := h.takeSign_eq
  obtain ⟨c, rest, rfl, hc⟩ := h.exists_cons
  have hword : ∀ (d : Char) (word : List Char), d.isDigit = false →
      (String.ofList ((c :: rest).map Char.toLower) == String.ofList (d :: word)) = false := by
    intro d word hd
    rw [beq_eq_false_iff_ne]
    intro heq
    have hlist := String.ofList_injective heq
    rw [List.map_cons, toLower_of_isDigit hc, List.cons.injEq] at hlist
    rw [hlist.1, hd] at hc
    exact Bool.noConfusion hc
  have hinf : (String.ofList ((c :: rest).map Char.toLower) == "inf") = false :=
    hword 'i' ['n', 'f'] rfl
  have hinfinity : (String.ofList ((c :: rest).map Char.toLower) == "infinity") = false :=
    hword 'i' "nfinity".toList rfl
  have hnan : (String.ofList ((c :: rest).map Char.toLower) == "nan") = false :=
    hword 'n' ['a', 'n'] rfl
  constructor
  · simp only [ofText?, hplain, hinf, hinfinity, hnan, hsize]
    rfl
  · simp only [ofText?, Text.takeSign, hinf, hinfinity, hnan, hsize]
    rfl

/-- A number text has a value, and a minus sign in front of it only turns the sign. -/
theorem exists_ofText?_eq (h : IsUnsigned t) :
    ∃ digits exponent, ofText? t = some (.decimal false digits exponent) ∧
      ofText? ('-' :: t) = some (.decimal true digits exponent) := by
  obtain ⟨⟨digits, exponent⟩, hsize⟩ := h.exists_magnitude?_eq
  exact ⟨digits, exponent, h.ofText?_eq hsize⟩

theorem ofText?_cons_plus (h : IsUnsigned t) : ofText? ('+' :: t) = ofText? t := by
  unfold ofText?
  rw [h.takeSign_eq]
  rfl

end IsUnsigned

end Univariate.Numeral
