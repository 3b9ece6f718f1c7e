import Univariate.Proofs.Numeral.Scientific
import Univariate.Proofs.Summand.WrittenSum
import Univariate.Proofs.Term.Stars

/-!
# Numbers by their parts

A number in front of a text is a sign, digits, and digits behind a point, each of which may be
missing. Followed by a character that could not go on with it, it has one such spelling, and the
reader takes exactly this spelling for what it says.
-/

namespace Univariate

open Summand (startsSigned isSign)
open Text (isDecimalDigit)

/-- In the range below the first script other than ASCII that has digits of its own. -/
theorem Text.isDecimalDigit_of_lt {c : Char} (h : c.toNat < 0x660) :
    isDecimalDigit c = c.isDigit := by
  have hpast : ¬0x660 ≤ c.toNat := Nat.not_le.mpr h
  have hdigit : c.isDigit = (decide (0x30 ≤ c.toNat) && decide (c.toNat < 0x3a)) := by
    rw [Bool.eq_iff_iff, Bool.and_eq_true, decide_eq_true_eq, decide_eq_true_eq, Char.isDigit,
      Bool.and_eq_true, decide_eq_true_eq, decide_eq_true_eq, UInt32.le_iff_toNat_le,
      ge_iff_le, UInt32.le_iff_toNat_le, Char.toNat]
    change 48 ≤ _ ∧ _ ≤ 57 ↔ _
    omega
  rw [hdigit, isDecimalDigit, CharSet.contains, decimalDigits]
  by_cases hlow : 0x30 ≤ c.toNat
  · by_cases hhigh : 0x3a ≤ c.toNat
    · simp [hlow, hhigh, hpast]
    · simp [hlow, hhigh, Nat.lt_of_not_le hhigh]
  · simp [hlow]

theorem Text.isDecimalDigit_of_isDigit {c : Char} (h : c.isDigit = true) :
    isDecimalDigit c = true := by
  have hle : c.val.toNat ≤ 57 := of_decide_eq_true (Bool.and_eq_true_iff.mp h).2
  rw [isDecimalDigit_of_lt (Nat.lt_of_le_of_lt hle (by decide)), h]

theorem Text.isDecimalDigit_of_isAlpha {c : Char} (h : c.isAlpha = true) :
    isDecimalDigit c = false := by
  have hle : c.val.toNat ≤ 122 := by
    rcases Bool.or_eq_true_iff.mp h with hupper | hlower
    · have hle : c.val.toNat ≤ 90 := (of_decide_eq_true hupper).2
      omega
    · exact of_decide_eq_true (Bool.and_eq_true_iff.mp hlower).2
  rw [isDecimalDigit_of_lt (Nat.lt_of_le_of_lt hle (by decide)), Numeral.isDigit_of_isAlpha h]

theorem Sign.char_injective : Function.Injective Sign.char := by
  intro sign sign' h
  cases sign <;> cases sign'
  · rfl
  · cases h
  · cases h
  · rfl

/-- The sign in front of a text that does not start with one. -/
theorem Sign.text_append_inj {sign sign' : Option Sign} {t t' : Text}
    (ht : startsSigned t = false) (ht' : startsSigned t' = false)
    (h : Sign.text sign ++ t = Sign.text sign' ++ t') : sign = sign' ∧ t = t' := by
  have hsigned : ∀ (sign : Sign) (u : Text), startsSigned (Sign.text (some sign) ++ u) = true :=
    fun sign _ => sign.isSign_char
  rcases sign with _ | sign <;> rcases sign' with _ | sign'
  · exact ⟨rfl, h⟩
  · have hstarts := hsigned sign' t'
    rw [← h, Sign.text, List.nil_append, ht] at hstarts
    cases hstarts
  · have hstarts := hsigned sign t
    rw [h, Sign.text, List.nil_append, ht'] at hstarts
    cases hstarts
  · obtain ⟨hchar, rfl⟩ := List.cons.inj h
    exact ⟨congrArg some (Sign.char_injective hchar), rfl⟩

namespace Numeral

@[ext]
structure Spelling where
  sign : Option Sign
  whole : Text
  fraction : Option Text
deriving DecidableEq, Repr

namespace Spelling

/-- The point and what stands behind it. -/
def pointed (n : Spelling) : Text :=
  match n.fraction with
  | none => []
  | some f => '.' :: f

def unsigned (n : Spelling) : Text := n.whole ++ n.pointed

def text (n : Spelling) : Text := Sign.text n.sign ++ n.unsigned

/-- All digits, those behind the point at the end. -/
def digits (n : Spelling) : Text := n.whole ++ n.fraction.getD []

/-- What the digits say, the last of them counting as many tenths as there are behind the point. -/
def value (n : Spelling) : Numeral :=
  .decimal (n.sign == some .minus) (digitsValue n.digits) (-((n.fraction.getD []).length : Int))

/-- The digits are of one kind. -/
def Uses (isDigit : Char → Bool) (n : Spelling) : Prop := ∀ c ∈ n.digits, isDigit c = true

/-- There are digits, and behind a point there are some as well. -/
def IsNumber (n : Spelling) : Prop := n.whole ≠ [] ∧ n.fraction ≠ some []

/-- No more than a sign. -/
def IsBare (n : Spelling) : Prop := n.whole = [] ∧ n.fraction = none

variable {isDigit : Char → Bool} {n m : Spelling} {u v : Text}

theorem Uses.whole (h : n.Uses isDigit) : ∀ c ∈ n.whole, isDigit c = true :=
  fun c hc => h c (List.mem_append_left _ hc)

theorem Uses.fraction (h : n.Uses isDigit) {f : Text} (hf : n.fraction = some f) :
    ∀ c ∈ f, isDigit c = true := by
  intro c hc
  refine h c (List.mem_append_right _ ?_)
  rwa [hf]

theorem IsNumber.digits_ne_nil (h : n.IsNumber) : n.digits ≠ [] :=
  List.append_ne_nil_of_left_ne_nil h.1 _

theorem mem_unsigned {c : Char} (h : c ∈ n.unsigned) : c ∈ n.digits ∨ c = '.' := by
  rcases List.mem_append.mp h with h | h
  · exact Or.inl (List.mem_append_left _ h)
  · unfold pointed at h
    split at h
    · cases h
    · next f hf =>
        rcases List.mem_cons.mp h with rfl | h
        · exact Or.inr rfl
        · refine Or.inl (List.mem_append_right _ ?_)
          rwa [hf]

theorem mem_unsigned_of_mem_digits {c : Char} (h : c ∈ n.digits) : c ∈ n.unsigned := by
  rcases List.mem_append.mp h with h | h
  · exact List.mem_append_left _ h
  · refine List.mem_append_right _ ?_
    unfold pointed
    split
    · next hf => simp [hf] at h
    · next f hf =>
        rw [hf] at h
        exact List.mem_cons_of_mem _ h

theorem fraction_eq_of_pointed_eq (h : n.pointed = m.pointed) : n.fraction = m.fraction := by
  obtain ⟨_, _, _ | f⟩ := n <;> obtain ⟨_, _, _ | f'⟩ := m
  · rfl
  · cases h
  · cases h
  · exact congrArg some (List.cons.inj h).2

/-! ### One spelling -/

/-- Characters that are taken for digits: no point, no sign and no letter is among them. -/
structure IsDigitKind (isDigit : Char → Bool) : Prop where
  point : isDigit '.' = false
  sign : ∀ c, isSign c = true → isDigit c = false
  letter : ∀ c, c.isAlpha = true → isDigit c = false

theorem isDigitKind_ascii : IsDigitKind Char.isDigit where
  point := by decide
  sign c hc := by
    rw [isSign, Bool.or_eq_true, beq_iff_eq, beq_iff_eq] at hc
    rcases hc with rfl | rfl <;> decide
  letter _ := Numeral.isDigit_of_isAlpha

theorem isDigitKind_decimal : IsDigitKind isDecimalDigit where
  point := by decide
  sign c hc := by
    rw [isSign, Bool.or_eq_true, beq_iff_eq, beq_iff_eq] at hc
    rcases hc with rfl | rfl <;> decide
  letter _ := Text.isDecimalDigit_of_isAlpha

/-- What comes next could not go on with the number: no digit, no point where there is none yet, and
no sign where nothing is written yet. -/
def EndsBefore (isDigit : Char → Bool) (n : Spelling) (u : Text) : Prop :=
  ∀ c, u.head? = some c →
    isDigit c = false ∧ (n.fraction = none → c ≠ '.') ∧ (n.text = [] → isSign c = false)

theorem endsBefore_nil : n.EndsBefore isDigit [] := nofun

theorem endsBefore_letter (hkind : IsDigitKind isDigit) {c : Char} (hc : c.isAlpha = true)
    (u : Text) : n.EndsBefore isDigit (c :: u) := by
  rintro _ ⟨⟩
  refine ⟨hkind.letter c hc, ?_, fun _ => ?_⟩
  · rintro - rfl
    cases hc
  · exact (inert_of_isAlphanum (by rw [Char.isAlphanum, hc, Bool.true_or])).isSign_eq

section

variable (hkind : IsDigitKind isDigit) (hn : n.Uses isDigit)
include hkind hn

theorem startsSigned_unsigned : startsSigned n.unsigned = false := by
  cases hunsigned : n.unsigned with
  | nil => rfl
  | cons c rest =>
      change isSign c = false
      rw [Bool.eq_false_iff]
      intro hc
      have hmem : c ∈ n.unsigned := hunsigned ▸ List.mem_cons_self
      rcases mem_unsigned hmem with hdigit | rfl
      · have hsign := hkind.sign c hc
        rw [hn c hdigit] at hsign
        cases hsign
      · cases hc

variable (hu : n.EndsBefore isDigit u)
include hu

theorem takeWhile_unsigned :
    (n.unsigned ++ u).takeWhile isDigit = n.whole ∧
      (n.unsigned ++ u).dropWhile isDigit = n.pointed ++ u := by
  rw [unsigned, List.append_assoc]
  refine Text.takeWhile_append_of_head hn.whole fun c hc => ?_
  unfold pointed at hc
  split at hc
  · exact (hu c hc).1
  · cases hc
    exact hkind.point

theorem spanUnsigned_unsigned :
    Coefficient.spanUnsigned isDigit (n.unsigned ++ u) = (n.unsigned, u) := by
  obtain ⟨htake, hdrop⟩ := takeWhile_unsigned hkind hn hu
  cases hf : n.fraction with
  | none =>
      have hpointed : n.pointed = [] := by rw [pointed, hf]
      rw [hpointed, List.nil_append] at hdrop
      have hpoint : ((n.unsigned ++ u).dropWhile isDigit).head? ≠ some '.' := by
        rw [hdrop]
        exact fun hc => (hu _ hc).2.1 hf rfl
      rw [Coefficient.spanUnsigned_of_no_point hpoint, htake, hdrop, unsigned, hpointed,
        List.append_nil]
  | some f =>
      have hpointed : n.pointed = '.' :: f := by rw [pointed, hf]
      obtain ⟨htake', hdrop'⟩ :=
        Text.takeWhile_append_of_head (hn.fraction hf) fun c hc => (hu c hc).1
      rw [hpointed, List.cons_append] at hdrop
      rw [Coefficient.spanUnsigned_of_point hdrop, htake, htake', hdrop', unsigned, hpointed]

theorem span_text : Coefficient.span isDigit (n.text ++ u) = (n.text, u) := by
  have hspan := spanUnsigned_unsigned hkind hn hu
  rw [text, List.append_assoc]
  cases hsign : n.sign with
  | none =>
      have hunsigned : startsSigned (n.unsigned ++ u) = false := by
        have hstarts := startsSigned_unsigned hkind hn
        cases hnil : n.unsigned with
        | cons => rwa [hnil] at hstarts
        | nil =>
            cases u with
            | nil => rfl
            | cons c u => exact (hu c rfl).2.2 (by rw [text, hsign, hnil]; rfl)
      change Coefficient.span isDigit (n.unsigned ++ u) = (n.unsigned, u)
      rw [Coefficient.span_of_not_startsSigned isDigit hunsigned, hspan]
  | some sign =>
      change Coefficient.span isDigit (sign.char :: (n.unsigned ++ u)) = _
      rw [Coefficient.span_cons, if_pos sign.isSign_char, hspan]
      rfl

end

/-- **One spelling**: what is written and what comes next tell the parts. -/
theorem text_append_inj (hkind : IsDigitKind isDigit) (hn : n.Uses isDigit) (hm : m.Uses isDigit)
    (hu : n.EndsBefore isDigit u) (hv : m.EndsBefore isDigit v) (h : n.text ++ u = m.text ++ v) :
    n = m ∧ u = v := by
  have hspan := span_text hkind hn hu
  rw [h, span_text hkind hm hv, Prod.mk.injEq] at hspan
  obtain ⟨htext, rfl⟩ := hspan
  obtain ⟨hsign, hparts⟩ := Sign.text_append_inj (startsSigned_unsigned hkind hm)
    (startsSigned_unsigned hkind hn) htext
  obtain ⟨hwhole, hpointed⟩ := takeWhile_unsigned hkind hn endsBefore_nil
  obtain ⟨hwhole', hpointed'⟩ := takeWhile_unsigned hkind hm endsBefore_nil
  rw [hparts, hwhole] at hwhole'
  rw [hparts, hpointed, List.append_nil, List.append_nil] at hpointed'
  exact ⟨Spelling.ext hsign.symm hwhole' (fraction_eq_of_pointed_eq hpointed'), rfl⟩

theorem text_inj (hkind : IsDigitKind isDigit) (hn : n.Uses isDigit) (hm : m.Uses isDigit)
    (h : n.text = m.text) : n = m :=
  (text_append_inj hkind hn hm endsBefore_nil endsBefore_nil (congrArg (· ++ []) h)).1

/-! ### Every text starts with one -/

theorem exists_spanUnsigned_eq (isDigit : Char → Bool) (sign : Option Sign) (t : Text) :
    ∃ n : Spelling, n.sign = sign ∧ n.Uses isDigit ∧
      n.unsigned = (Coefficient.spanUnsigned isDigit t).1 ∧
        ∀ c, (Coefficient.spanUnsigned isDigit t).2.head? = some c →
          isDigit c = false ∧ (n.fraction = none → c ≠ '.') := by
  have htake : ∀ s : Text, ∀ c ∈ s.takeWhile isDigit, isDigit c = true :=
    fun _ _ hc => List.mem_takeWhile_imp hc
  have hdrop : ∀ (s : Text) (c : Char), (s.dropWhile isDigit).head? = some c →
      isDigit c = false := by
    intro s c hc
    have hhead := List.head?_dropWhile_not isDigit s
    rw [hc] at hhead
    simpa using hhead
  by_cases hpoint : (t.dropWhile isDigit).head? = some '.'
  · obtain ⟨rest, hrest⟩ := List.head?_eq_some_iff.mp hpoint
    rw [Coefficient.spanUnsigned_of_point hrest]
    refine ⟨⟨sign, t.takeWhile isDigit, some (rest.takeWhile isDigit)⟩, rfl, fun c hc => ?_, rfl,
      fun c hc => ⟨hdrop rest c hc, nofun⟩⟩
    exact (List.mem_append.mp hc).elim (htake t c) (htake rest c)
  · rw [Coefficient.spanUnsigned_of_no_point hpoint]
    refine ⟨⟨sign, t.takeWhile isDigit, none⟩, rfl, fun c hc => ?_, List.append_nil _,
      fun c hc => ⟨hdrop t c hc, ?_⟩⟩
    · exact htake t c (by simpa [digits] using hc)
    · rintro - rfl
      exact hpoint hc

theorem exists_span_eq (isDigit : Char → Bool) (t : Text) :
    ∃ n : Spelling, n.Uses isDigit ∧ n.text = (Coefficient.span isDigit t).1 ∧
      n.EndsBefore isDigit (Coefficient.span isDigit t).2 := by
  by_cases hsigned : startsSigned t = true
  · obtain ⟨c, rest, rfl⟩ := List.exists_cons_of_ne_nil (l := t) (by rintro rfl; cases hsigned)
    obtain ⟨sign, rfl⟩ := Sign.exists_char_eq hsigned
    obtain ⟨n, hsign, hn, hunsigned, hends⟩ := exists_spanUnsigned_eq isDigit (some sign) rest
    rw [Coefficient.span_cons, if_pos sign.isSign_char]
    have htext : n.text = sign.char :: (Coefficient.spanUnsigned isDigit rest).1 := by
      rw [text, hsign, hunsigned]
      rfl
    refine ⟨n, hn, htext, fun c hc => ⟨(hends c hc).1, (hends c hc).2, fun hnil => ?_⟩⟩
    rw [hnil] at htext
    cases htext
  · rw [Bool.not_eq_true] at hsigned
    obtain ⟨n, hsign, hn, hunsigned, hends⟩ := exists_spanUnsigned_eq isDigit none t
    have hspan := Coefficient.append_span isDigit t
    rw [Coefficient.span_of_not_startsSigned isDigit hsigned] at hspan ⊢
    have htext : n.text = (Coefficient.spanUnsigned isDigit t).1 := by
      rw [text, hsign, hunsigned]
      rfl
    refine ⟨n, hn, htext, fun c hc => ⟨(hends c hc).1, (hends c hc).2, fun hnil => ?_⟩⟩
    obtain ⟨rest, hrest⟩ := List.head?_eq_some_iff.mp hc
    rw [← htext, hnil, hrest, List.nil_append] at hspan
    rwa [← hspan] at hsigned

/-! ### Reading -/

theorem takeSign_text (hkind : IsDigitKind isDigit) (hn : n.Uses isDigit) :
    Text.takeSign n.text = (n.sign == some .minus, n.unsigned) :=
  takeSign_sign_append n.sign (startsSigned_unsigned hkind hn)

theorem magnitude?_unsigned (hn : n.Uses Char.isDigit) :
    magnitude? n.unsigned = if n.digits = [] then none
      else some (digitsValue n.digits, -((n.fraction.getD []).length : Int)) := by
  obtain ⟨htake, hdrop⟩ := takeWhile_unsigned isDigitKind_ascii hn endsBefore_nil
  rw [List.append_nil] at htake hdrop
  rw [List.append_nil] at hdrop
  unfold magnitude?
  rw [htake, hdrop]
  cases hf : n.fraction with
  | none => simp [pointed, digits, hf, exponent?]
  | some f =>
      obtain ⟨htake', hdrop'⟩ := Text.takeWhile_append_of_head (hn.fraction hf) (t := []) (by simp)
      rw [List.append_nil] at htake' hdrop'
      simp [pointed, digits, hf, exponent?, htake', hdrop']

theorem isAlpha_eq_false_of_mem_unsigned (hn : n.Uses isDecimalDigit) {c : Char}
    (hc : c ∈ n.unsigned) : c.isAlpha = false := by
  rw [Bool.eq_false_iff]
  intro hletter
  rcases mem_unsigned hc with hdigit | rfl
  · have hdecimal := hn c hdigit
    rw [Text.isDecimalDigit_of_isAlpha hletter] at hdecimal
    cases hdecimal
  · cases hletter

theorem not_isWord_unsigned (hn : n.Uses isDecimalDigit) : ¬IsWord n.unsigned := by
  intro hword
  obtain ⟨c, rest, hc⟩ := List.exists_cons_of_ne_nil hword.ne_nil
  have hmem : c ∈ n.unsigned := hc ▸ List.mem_cons_self
  have hletter := hword.isAlpha c hmem
  rw [isAlpha_eq_false_of_mem_unsigned hn hmem] at hletter
  cases hletter

theorem Uses.decimal (hn : n.Uses Char.isDigit) : n.Uses isDecimalDigit :=
  fun c hc => Text.isDecimalDigit_of_isDigit (hn c hc)

/-- The reader takes the parts for what they say, and needs a digit. -/
theorem ofText?_text (hn : n.Uses Char.isDigit) :
    ofText? n.text = if n.digits = [] then none else some n.value := by
  have hsign := takeSign_text isDigitKind_ascii hn
  have hword : ¬IsWord n.text.takeSign.2 := by
    rw [hsign]
    exact not_isWord_unsigned hn.decimal
  rw [ofText?_of_not_isWord hword, hsign, magnitude?_unsigned hn]
  split <;> rfl

/-- Digits of other scripts are not read. -/
theorem uses_ascii_of_ofText? (hn : n.Uses isDecimalDigit) {v : Numeral}
    (hv : ofText? n.text = some v) : n.Uses Char.isDigit := by
  have hsign := takeSign_text isDigitKind_decimal hn
  rcases ofText?_cases hv with hword | ⟨size, hsize⟩
  · rw [hsign] at hword
    exact absurd hword (not_isWord_unsigned hn)
  · rw [hsign] at hsize
    obtain ⟨k, tail, htext, hk, htail⟩ := exists_eq_of_magnitude? hsize
    dsimp only at htext
    cases htail with
    | none =>
        intro c hc
        have hmem := mem_unsigned_of_mem_digits hc
        rw [htext, List.append_nil] at hmem
        rcases hk.isDigit_or_eq_point c hmem with hdigit | rfl
        · exact hdigit
        · exact absurd (hn _ hc) (by decide)
    | @mark c t hc ht =>
        have hmem : c ∈ n.unsigned := by simp [htext]
        have hletter := isAlpha_eq_false_of_mem_unsigned hn hmem
        rcases hc with rfl | rfl <;> cases hletter

end Spelling

end Numeral

end Univariate
