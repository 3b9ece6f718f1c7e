import Univariate.Proofs.Scalar.Sign
import Univariate.Proofs.Summand.WrittenSum
import Univariate.Proofs.Term.Reading
import Univariate.Term.Writer

/-!
# Printed terms

The text of a term is an optional minus and a text that reads as the same term without its sign.
-/

namespace Univariate

variable {α : Type} [Scalar α]

/-- The text of a number reads as that number. -/
def Scalar.ReadsBack (x : α) : Prop := ofText? (plain x) = some x

structure Scalar.Prints (x : α) : Prop where
  finite : Scalar.isFinite x = true
  readsBack : Scalar.ReadsBack x

namespace Sign

/-- A plus in front of a first item is left out. -/
def leading : Sign → Option Sign
  | plus => none
  | minus => some minus

variable [Scalar.LawfulSign α]

theorem product_singleton (sign : Sign) : (product [sign] : α) = sign.factor := by
  cases sign with
  | plus => exact Scalar.LawfulSign.mul_one 1
  | minus => exact Scalar.LawfulSign.mul_neg_one 1

end Sign

section Number

variable [Scalar.LawfulSign α] {x : α}

theorem exists_plain_eq (h : Scalar.Prints x) :
    ∃ (sign : Sign) (k : Text) (v : α), Scalar.plain x = Sign.text sign.leading ++ k ∧
      Numeral.IsUnsigned k ∧ Scalar.ofText? k = some v ∧ v * sign.factor = x := by
  obtain ⟨hfinite, hx⟩ := h
  obtain ⟨negative, digits, exponent, hnumeral⟩ := Scalar.LawfulSign.exists_toNumeral_eq hfinite
  have hunsigned := Numeral.isUnsigned_positional digits exponent
  obtain ⟨digits', exponent', hplain, hminus⟩ := hunsigned.exists_ofText?_eq
  have htext : Scalar.plain x =
      (if negative then ['-'] else []) ++ Numeral.positional digits exponent := by
    rw [Scalar.plain, hnumeral]
    rfl
  unfold Scalar.ReadsBack at hx
  rw [htext] at hx
  refine ⟨if negative then .minus else .plus, Numeral.positional digits exponent,
    Scalar.ofNumeral (.decimal false digits' exponent'), ?_, hunsigned, ?_, ?_⟩
  · rw [htext]
    cases negative <;> rfl
  · rw [Scalar.ofText?, hplain]
    rfl
  · cases negative with
    | false =>
        have hvalue : Scalar.ofText? (Numeral.positional digits exponent) = some x := hx
        rw [Scalar.ofText?, hplain, Option.map_some, Option.some.injEq] at hvalue
        exact (Scalar.LawfulSign.mul_one _).trans hvalue
    | true =>
        have hvalue : Scalar.ofText? ('-' :: Numeral.positional digits exponent) = some x := hx
        rw [Scalar.ofText?, hminus, Option.map_some, Option.some.injEq,
          Scalar.LawfulSign.ofNumeral_decimal_true] at hvalue
        exact (Scalar.LawfulSign.mul_neg_one _).trans hvalue

theorem exists_coefficientText_eq (h : Scalar.Prints x) (hzero : (x == 0) = false) :
    ∃ (sign : Sign) (k : Text) (v : α), coefficientText x = Sign.text sign.leading ++ k ∧
      Coefficient.IsUnsigned k ∧ Coefficient.ofText? k = some v ∧
        (v * sign.factor == x) = true := by
  by_cases hone : (x == 1) = true
  · refine ⟨.plus, [], 1, ?_, Or.inl rfl, rfl, ?_⟩
    · rw [coefficientText, if_pos hone]
      rfl
    · rw [Sign.factor, Scalar.LawfulSign.mul_one, Scalar.LawfulSign.beq_comm]
      exact hone
  · by_cases hminus : (x == -1) = true
    · refine ⟨.minus, [], 1, ?_, Or.inl rfl, rfl, ?_⟩
      · rw [coefficientText, if_neg hone, if_pos hminus]
        rfl
      · rw [Sign.factor, Scalar.LawfulSign.mul_neg_one, Scalar.LawfulSign.beq_comm]
        exact hminus
    · obtain ⟨sign, k, v, hplain, hk, hv, hvalue⟩ := exists_plain_eq h
      refine ⟨sign, k, v, ?_, Or.inr hk, ?_, ?_⟩
      · rw [coefficientText, if_neg hone, if_neg hminus, numberText, if_neg (by simp [hzero])]
        exact hplain
      · exact (Coefficient.ofText?_of_isUnsigned hk).trans hv
      · rw [hvalue]
        exact Scalar.LawfulSign.beq_self h.finite

theorem exists_numberText_eq (h : Scalar.Prints x) :
    ∃ v : α, isSignedNumber (numberText x) = true ∧ Scalar.ofText? (numberText x) = some v ∧
      (v == x) = true := by
  by_cases hzero : (x == 0) = true
  · refine ⟨0, ?_, ?_, ?_⟩
    · rw [numberText, if_pos hzero]
      decide
    · rw [numberText, if_pos hzero]
      rfl
    · rw [Scalar.LawfulSign.beq_comm]
      exact hzero
  · obtain ⟨sign, k, v, hplain, hk, -, -⟩ := exists_plain_eq h
    refine ⟨x, ?_, ?_, Scalar.LawfulSign.beq_self h.finite⟩
    · rw [numberText, if_neg hzero, hplain, isSignedNumber_iff]
      cases sign with
      | plus =>
          change Numeral.IsUnsigned k.takeSign.2
          rwa [hk.takeSign_eq]
      | minus => exact hk
    · rw [numberText, if_neg hzero]
      exact h.readsBack

end Number

namespace ExponentArgument

variable {raw : Text}

theorem ofText_eq_variable_or_text_eq (raw : Text) :
    (ofText raw : ExponentArgument α) = .variable ∨
      (ofText raw : ExponentArgument α).text = '(' :: (raw ++ [')']) := by
  unfold ofText
  split
  · exact Or.inl rfl
  · split <;> exact Or.inr rfl

theorem exists_raw?_text_eq (h : IsRaw raw) :
    ∃ raw', raw? (ofText raw : ExponentArgument α).text = some raw' ∧
      (ofText raw' : ExponentArgument α) = ofText raw := by
  rcases ofText_eq_variable_or_text_eq (α := α) raw with hvariable | htext
  · exact ⟨['x'], by rw [hvariable]; rfl, by rw [hvariable]; rfl⟩
  · refine ⟨raw, ?_, rfl⟩
    have hopen : '(' ∉ raw := fun hc => (h.noBrackets _ hc).1 rfl
    have hclose : ')' ∉ raw := fun hc => (h.noBrackets _ hc).2 rfl
    rw [htext]
    unfold raw?
    simp [hopen, hclose]

theorem noBlanks_text (h : IsRaw raw) : (ofText raw : ExponentArgument α).text.NoBlanks := by
  rcases ofText_eq_variable_or_text_eq (α := α) raw with hvariable | htext
  · rw [hvariable]
    exact Text.noBlanks_cons.mpr ⟨by decide, Text.noBlanks_nil⟩
  · rw [htext, Text.noBlanks_cons, Text.noBlanks_append, Text.noBlanks_cons]
    exact ⟨by decide, h.noBlanks, by decide, Text.noBlanks_nil⟩

theorem exists_getLast?_text_eq {α : Type} (argument : ExponentArgument α) :
    ∃ c, argument.text.getLast? = some c ∧ c ≠ '^' := by
  match argument with
  | .variable => exact ⟨'x', rfl, by decide⟩
  | .scaled factor raw => exact ⟨')', List.getLast?_concat, by decide⟩
  | .other raw => exact ⟨')', List.getLast?_concat, by decide⟩

end ExponentArgument

namespace Term

def numbers : Term α → List α
  | power c n => [c, n]
  | linear c | exponential c _ | constant c | wave _ c => [c]
  | unrecognized _ => []

/-- Of the same shape, with numbers that compare equal. -/
def Same : Term α → Term α → Prop
  | power c n, power d m => (c == d) = true ∧ (n == m) = true
  | linear c, linear d => (c == d) = true
  | exponential c argument, exponential d other => (c == d) = true ∧ argument = other
  | constant v, constant w => (v == w) = true
  | wave kind c, wave other d => kind = other ∧ (c == d) = true
  | unrecognized raw, unrecognized other => raw = other
  | _, _ => False

/-- The text is the sign and a body that stands for the term without it. -/
structure IsWrittenAs (sign : Sign) (body : Text) (t : Term α) : Prop where
  text : t.text = Sign.text sign.leading ++ body
  atom : IsAtom α body
  noBlanks : body.NoBlanks
  last : body.getLast? ≠ some '^'
  same : ((ofText body).scaled sign.factor).Same t

theorem getLast?_append_of_forall_ne {u v : Text} {c : Char} (hne : v ≠ []) (h : ∀ d ∈ v, d ≠ c) :
    (u ++ v).getLast? ≠ some c := by
  rw [List.getLast?_append_of_ne_nil u hne]
  exact fun hlast => h c (List.mem_of_getLast? hlast) rfl

/-- What follows a coefficient, together with the shape that it gives to every coefficient. -/
structure IsTail (tail : Text) (shape : α → Term α) : Prop where
  ends : ∃ c rest, tail = c :: rest ∧ Coefficient.Ends c
  read : ∀ v, ofTail? v tail = some (shape v)
  recognized : ∀ v, (shape v).isUnrecognized = false
  scaled : ∀ v factor, (shape v).scaled factor = shape (v * factor)
  noBlanks : tail.NoBlanks
  last : tail.getLast? ≠ some '^'

theorem isTail_linear : IsTail ['x'] (linear : α → Term α) where
  ends := ⟨'x', [], rfl, by decide⟩
  read _ := rfl
  recognized _ := rfl
  scaled _ _ := rfl
  noBlanks := Text.noBlanks_cons.mpr ⟨by decide, Text.noBlanks_nil⟩
  last := by decide

theorem isTail_power {exponent : Text} {n : α} (hnumber : isSignedNumber exponent = true)
    (hn : Scalar.ofText? exponent = some n) : IsTail ('x' :: '^' :: exponent) (power · n) where
  ends := ⟨'x', _, rfl, by decide⟩
  read v := by
    change (if isSignedNumber exponent then _ else none) = _
    rw [if_pos hnumber, hn]
    rfl
  recognized _ := rfl
  scaled _ _ := rfl
  noBlanks := by
    rw [Text.noBlanks_cons, Text.noBlanks_cons]
    exact ⟨by decide, by decide, noBlanks_of_isSignedNumber hnumber⟩
  last := getLast?_append_of_forall_ne (u := ['x', '^']) (ne_nil_of_isSignedNumber hnumber)
    fun _ hc => ne_of_mem_of_not_mem hc (not_mem_of_isSignedNumber hnumber (by decide))

theorem isTail_exponential {raw : Text} (hraw : ExponentArgument.IsRaw raw) :
    IsTail ('e' :: '^' :: (ExponentArgument.ofText raw : ExponentArgument α).text)
      (exponential · (.ofText raw) : α → Term α) where
  ends := ⟨'e', _, rfl, by decide⟩
  read v := by
    obtain ⟨raw', hraw', hargument⟩ := ExponentArgument.exists_raw?_text_eq (α := α) hraw
    change (ExponentArgument.raw? _).map _ = _
    rw [hraw', Option.map_some, hargument]
  recognized _ := rfl
  scaled _ _ := rfl
  noBlanks := by
    rw [Text.noBlanks_cons, Text.noBlanks_cons]
    exact ⟨by decide, by decide, ExponentArgument.noBlanks_text hraw⟩
  last := by
    obtain ⟨d, hlast, hd⟩ :=
      ExponentArgument.exists_getLast?_text_eq (.ofText raw : ExponentArgument α)
    have hne : (.ofText raw : ExponentArgument α).text ≠ [] := by
      intro hnil
      simp [hnil] at hlast
    change (['e', '^'] ++ (.ofText raw : ExponentArgument α).text).getLast? ≠ some '^'
    rw [List.getLast?_append_of_ne_nil _ hne, hlast]
    simpa using hd

theorem isTail_wave (kind : Wave) :
    IsTail (kind.text ++ ['(', 'x', ')']) (wave kind : α → Term α) where
  ends := by cases kind <;> exact ⟨_, _, rfl, by decide⟩
  read _ := by cases kind <;> rfl
  recognized _ := rfl
  scaled _ _ := rfl
  noBlanks := by
    cases kind with
    | sin =>
        simp only [Wave.text, Text.noBlanks_append, Text.noBlanks_cons, Text.noBlanks_nil]
        decide
    | cos =>
        simp only [Wave.text, Text.noBlanks_append, Text.noBlanks_cons, Text.noBlanks_nil]
        decide
  last := by cases kind <;> decide

variable [Scalar.LawfulSign α] {x : α}

theorem exists_isWrittenAs_constant (h : Scalar.Prints x) (hzero : (x == 0) = false) :
    ∃ sign body, (constant x).IsWrittenAs sign body := by
  obtain ⟨sign, k, v, hplain, hk, hv, hvalue⟩ := exists_plain_eq h
  have hblanks := noBlanks_of_isUnsigned hk
  have hnumber : isSignedNumber k = true := isSignedNumber_iff.mpr (by rwa [hk.takeSign_eq])
  have hread : (ofText k : Term α) = .constant v := ofText_of_isUnsigned hk hv
  refine ⟨sign, k, ?_, ⟨by rw [hread]; rfl, startsSigned_of_isUnsigned hk⟩, hblanks, ?_, ?_⟩
  · rw [Term.text, numberText, if_neg (by simp [hzero])]
    exact hplain
  · exact fun hlast =>
      not_mem_of_isSignedNumber hnumber (by decide) (List.mem_of_getLast? hlast)
  · rw [hread]
    change (v * sign.factor == x) = true
    rw [hvalue]
    exact Scalar.LawfulSign.beq_self h.finite

theorem IsTail.exists_isWrittenAs {tail : Text} {shape : α → Term α} (h : IsTail tail shape)
    {t : Term α} (hx : Scalar.Prints x) (hzero : (x == 0) = false)
    (htext : t.text = coefficientText x ++ tail)
    (hsame : ∀ v, (v == x) = true → (shape v).Same t) :
    ∃ sign body, t.IsWrittenAs sign body := by
  obtain ⟨sign, k, v, hcoefficient, hk, hv, hvalue⟩ := exists_coefficientText_eq hx hzero
  have hbody : Text.NoBlanks (k ++ tail) := Text.noBlanks_append.mpr ⟨hk.noBlanks, h.noBlanks⟩
  obtain ⟨c, rest, rfl, hc⟩ := h.ends
  have hread : (ofText (k ++ c :: rest) : Term α) = shape v := by
    refine ofText_of_ofTrimmed? hbody ?_
    rw [ofTrimmed?_append hk hc, hv, Option.bind_some, h.read]
  refine ⟨sign, k ++ c :: rest, ?_, ⟨?_, hk.startsSigned_append hc rest⟩, hbody, ?_, ?_⟩
  · rw [htext, hcoefficient, List.append_assoc]
  · rw [hread]
    exact h.recognized v
  · rw [List.getLast?_append_of_ne_nil _ (List.cons_ne_nil c rest)]
    exact h.last
  · rw [hread, h.scaled]
    exact hsame _ hvalue

/-- A finite term that is not zero is written so that it can be read again. -/
theorem exists_isWrittenAs {t : Term α} (hread : t.IsRead) (hzero : t.isZero = false)
    (hnumbers : ∀ x ∈ t.numbers, Scalar.Prints x) : ∃ sign body, t.IsWrittenAs sign body := by
  cases t with
  | power c n =>
      have hc := hnumbers c List.mem_cons_self
      have hn := hnumbers n (List.mem_cons_of_mem c List.mem_cons_self)
      obtain ⟨m, hnumber, hm, hequal⟩ := exists_numberText_eq hn
      exact (isTail_power hnumber hm).exists_isWrittenAs hc hzero (List.append_assoc _ _ _)
        fun v hv => ⟨hv, hequal⟩
  | linear c =>
      exact isTail_linear.exists_isWrittenAs (hnumbers c List.mem_cons_self) hzero rfl
        fun v hv => hv
  | exponential c argument =>
      obtain ⟨raw, rfl, hraw⟩ := hread
      exact (isTail_exponential hraw).exists_isWrittenAs (hnumbers c List.mem_cons_self) hzero
        (List.append_assoc _ _ _) fun v hv => ⟨hv, rfl⟩
  | constant value =>
      exact exists_isWrittenAs_constant (hnumbers value List.mem_cons_self) hzero
  | wave kind c =>
      exact (isTail_wave kind).exists_isWrittenAs (hnumbers c List.mem_cons_self) hzero
        (List.append_assoc _ _ _) fun v hv => ⟨rfl, hv⟩
  | unrecognized raw => exact hread.elim

end Term

end Univariate
