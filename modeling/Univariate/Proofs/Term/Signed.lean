import Univariate.Proofs.Scalar.Binary64.Factor
import Univariate.Proofs.Term.Factor
import Univariate.Proofs.Term.Parts

/-!
# A sign in front of a term

A term may be read with the sign in front of it, or the sign taken off first and made a factor of
what is read then. Both ways give one term.
-/

namespace Univariate

open Numeral (Spelling)
open Scalar (LawfulFactor)
open Summand (startsSigned)

variable {α : Type} [Scalar α]

/-- The sign becomes part of the coefficient. -/
def Sign.applied (sign : Sign) (t : Term α) : Term α :=
  match sign with
  | plus => t
  | minus => t.scaled (-1)

/-! ### Numbers and parts with another sign -/

namespace Numeral.Spelling

def withSign (n : Spelling) (sign : Option Sign) : Spelling := { n with sign }

variable [LawfulFactor α] (hread : Scalar.ReadsMinus α) (n : Spelling)
include hread

theorem ofNumeral_withSign_minus :
    (Scalar.ofNumeral (n.withSign (some .minus)).value : α) =
      Scalar.ofNumeral (n.withSign none).value * -1 := by
  rw [LawfulFactor.mul_neg_one]
  exact hread _ _

theorem coefficient_withSign_minus :
    ((n.withSign (some .minus)).coefficient : α) = (n.withSign none).coefficient * -1 := by
  by_cases hbare : n.IsBare
  · have hcoefficient : ∀ sign : Option Sign,
        ((n.withSign sign).coefficient : α) = (sign.getD .plus).factor := fun sign => if_pos hbare
    rw [hcoefficient, hcoefficient]
    exact (LawfulFactor.one_mul (-1)).symm
  · have hcoefficient : ∀ sign : Option Sign,
        ((n.withSign sign).coefficient : α) = Scalar.ofNumeral (n.withSign sign).value :=
      fun sign => if_neg hbare
    rw [hcoefficient, hcoefficient]
    exact ofNumeral_withSign_minus hread n

end Numeral.Spelling

namespace Term

theorem Tail.Denotes.scaled {c : α} {tail : Tail} {term : Term α} (h : tail.Denotes c term)
    (factor : α) : tail.Denotes (c * factor) (term.scaled factor) := by
  cases h with
  | linear => exact .linear
  | power n => exact .power n
  | bracketed h => exact .bracketed h
  | bare h => exact .bare h
  | wave kind => exact .wave kind

namespace Parts

def sign : Parts → Option Sign
  | constant n | product n _ => n.sign

def withSign (p : Parts) (sign : Option Sign) : Parts :=
  match p with
  | constant n => constant (n.withSign sign)
  | product n tail => product (n.withSign sign) tail

theorem withSign_sign (p : Parts) : p.withSign p.sign = p := by
  cases p with
  | constant | product => rfl

theorem text_withSign (p : Parts) (sign : Option Sign) :
    (p.withSign sign).text = Sign.text sign ++ (p.withSign none).text := by
  cases p with
  | constant => rfl
  | product n tail => exact List.append_assoc _ _ _

theorem isReadable_withSign {p : Parts} {sign : Option Sign} :
    (p.withSign sign).IsReadable ↔ p.IsReadable := by
  cases p with
  | constant | product => exact Iff.rfl

theorem startsSigned_text_withSign_none {p : Parts} (hp : p.IsReadable) :
    startsSigned (p.withSign none).text = false := by
  cases p with
  | constant n => exact Spelling.startsSigned_unsigned Spelling.isDigitKind_ascii hp.1
  | product n tail =>
      have hunsigned := Spelling.startsSigned_unsigned Spelling.isDigitKind_ascii hp.1.1
      have hends := tail.endsBefore_text Spelling.isDigitKind_ascii (n.withSign none)
      change startsSigned (n.unsigned ++ tail.text) = false
      cases hnil : n.unsigned with
      | cons c rest => rwa [hnil] at hunsigned
      | nil =>
          obtain ⟨c, rest, hc⟩ := List.exists_cons_of_ne_nil tail.text_ne_nil
          rw [List.nil_append, hc]
          exact (hends c (by rw [hc, List.head?_cons])).2.2 hnil

/-- A sign and an unsigned text are readable parts with this sign and without it. -/
theorem sign_eq_and_text_eq {p : Parts} (hp : p.IsReadable) (sign : Option Sign) {t : Text}
    (ht : startsSigned t = false) (htext : p.text = Sign.text sign ++ t) :
    p.sign = sign ∧ (p.withSign none).text = t := by
  apply Sign.text_append_inj (startsSigned_text_withSign_none hp) ht
  rw [← text_withSign, withSign_sign, htext]

theorem Denotes.withSign_plus {p : Parts} {term : Term α} (h : (p.withSign none).Denotes term) :
    (p.withSign (some .plus)).Denotes term := by
  cases p with
  | constant n =>
      cases h
      exact .constant (n.withSign (some .plus))
  | product n tail =>
      cases h with
      | product h => exact .product (n := n.withSign (some .plus)) h

variable [LawfulFactor α] (hread : Scalar.ReadsMinus α)
include hread

theorem Denotes.withSign_minus {p : Parts} {term : Term α} (h : (p.withSign none).Denotes term) :
    (p.withSign (some .minus)).Denotes (term.scaled (-1)) := by
  cases p with
  | constant n =>
      cases h
      rw [scaled, ← Spelling.ofNumeral_withSign_minus hread]
      exact .constant (n.withSign (some .minus))
  | product n tail =>
      cases h with
      | product h =>
          apply Denotes.product
          rw [Spelling.coefficient_withSign_minus hread]
          exact h.scaled (-1)

theorem Denotes.withSign {p : Parts} {term : Term α} (h : (p.withSign none).Denotes term)
    (sign : Sign) : (p.withSign (some sign)).Denotes (sign.applied term) := by
  cases sign with
  | plus => exact h.withSign_plus
  | minus => exact h.withSign_minus hread

end Parts

section Reading

variable [LawfulFactor α] (hread : Scalar.ReadsMinus α)
include hread

/-- The reader takes a sign for a factor of the term behind it. -/
theorem ofTrimmed?_sign_cons {t : Text} (ht : startsSigned t = false) (sign : Sign) :
    (ofTrimmed? (sign.char :: t) : Option (Term α)) = (ofTrimmed? t).map sign.applied := by
  cases hterm : (ofTrimmed? t : Option (Term α)) with
  | none =>
      rw [Option.map_none, Parts.ofTrimmed?_eq_none_iff]
      intro p hp htext
      obtain ⟨-, hunsigned⟩ := Parts.sign_eq_and_text_eq hp (some sign) ht htext
      exact Parts.ofTrimmed?_eq_none_iff.mp hterm _ (Parts.isReadable_withSign.mpr hp) hunsigned
  | some term =>
      obtain ⟨p, hp, htext, hdenotes⟩ := Parts.ofTrimmed?_eq_some_iff.mp hterm
      obtain ⟨hsign, hunsigned⟩ := Parts.sign_eq_and_text_eq hp none ht htext
      rw [Option.map_some, Parts.ofTrimmed?_eq_some_iff]
      refine ⟨p.withSign (some sign), Parts.isReadable_withSign.mpr hp, ?_, ?_⟩
      · rw [Parts.text_withSign, hunsigned]
        exact List.singleton_append
      · apply Parts.Denotes.withSign hread
        rwa [← hsign, Parts.withSign_sign]

theorem ofText_sign_cons {t : Text} (ht : startsSigned t = false) (htrimmed : t.IsTrimmed)
    (sign : Sign) : (ofText (sign.char :: t) : Term α) =
      ((ofTrimmed? t).map sign.applied).getD (.unrecognized (sign.char :: t)) := by
  rw [ofText, (htrimmed.cons sign.isBlank_char).trim_eq, ofTrimmed?_sign_cons hread ht]

end Reading

/-- **A sign read with the term is a sign taken off first.** -/
theorem ofText_minus_and_plus [LawfulFactor α] (hread : Scalar.ReadsMinus α) {t : Text}
    (ht : startsSigned t = false) (htrimmed : t.IsTrimmed) :
    (ofText ('-' :: t) : Term α) = (ofText t).scaled (-1) ∧
      ((ofText t : Term α).isUnrecognized = false → (ofText ('+' :: t) : Term α) = ofText t) := by
  have hunsigned : (ofText t : Term α) = (ofTrimmed? t).getD (.unrecognized t) := by
    rw [ofText, htrimmed.trim_eq]
  constructor
  · calc (ofText ('-' :: t) : Term α)
        = ((ofTrimmed? t).map (scaled (-1))).getD (.unrecognized ('-' :: t)) :=
          ofText_sign_cons hread ht htrimmed .minus
      _ = ((ofTrimmed? t).map (scaled (-1))).getD ((unrecognized t).scaled (-1)) := by
          rw [scaled_neg_one_unrecognized ht]
      _ = ((ofTrimmed? t).getD (.unrecognized t)).scaled (-1) := Option.getD_map _ _ _
      _ = (ofText t).scaled (-1) := by rw [hunsigned]
  · intro hrecognized
    have hplus := ofText_sign_cons hread ht htrimmed .plus
    cases hterm : (ofTrimmed? t : Option (Term α)) with
    | some term =>
        rw [hunsigned, hterm]
        rwa [hterm] at hplus
    | none =>
        rw [hunsigned, hterm] at hrecognized
        cases hrecognized

theorem ofText_minus_and_plus_exponential :
    let t : Text := "2.5e^(3 x)".toList
    let u : Text := "ln(x) 2".toList
    startsSigned t = false ∧ t.IsTrimmed ∧ startsSigned u = false ∧ u.IsTrimmed ∧
      (ofText ('-' :: t) : Term Float) = .exponential (-2.5) (.scaled 3 "3 x".toList) ∧
      (ofText ('+' :: t) : Term Float) = .exponential 2.5 (.scaled 3 "3 x".toList) ∧
      (ofText ('-' :: u) : Term Float) = .unrecognized "-ln(x) 2".toList := by
  intro t u
  have hvisible : ∀ {c : Char}, 0x21 ≤ c.toNat ∧ c.toNat < 0x85 → Text.isBlank c = false :=
    fun h => Text.isBlank_of_visible h.1 h.2
  have ht : t.IsTrimmed := by
    constructor <;> rintro _ ⟨⟩ <;> exact hvisible (by decide)
  have hu : u.IsTrimmed := by
    constructor <;> rintro _ ⟨⟩ <;> exact hvisible (by decide)
  have hterm : (ofText t : Term Float) = .exponential 2.5 (.scaled 3 "3 x".toList) := by
    decide +kernel
  obtain ⟨hminus, hplus⟩ :=
    ofText_minus_and_plus (α := Float) Scalar.readsMinus_of_lawfulSign (t := t) rfl ht
  obtain ⟨hminus', -⟩ :=
    ofText_minus_and_plus (α := Float) Scalar.readsMinus_of_lawfulSign (t := u) rfl hu
  refine ⟨rfl, ht, rfl, hu, ?_, ?_, ?_⟩
  · rw [hminus, hterm]
    decide +kernel
  · rw [hplus (by rw [hterm]; rfl), hterm]
  · rw [hminus']
    decide +kernel

end Term

end Univariate
