import Univariate.Proofs.Expression.Grammar
import Univariate.Proofs.Expression.Taylor

/-!
# Polynomials as they are written

Sums of monomials, with groups in brackets, and the polynomials they amount to. Reading a written sum
gives an expression for that polynomial.
-/

namespace Univariate

open Polynomial

variable {E : Elementary}

namespace Sign

def value : Sign → ℚ
  | plus => 1
  | minus => -1

def values (signs : List Sign) : ℚ := (signs.map value).prod

theorem values_append_singleton (signs : List Sign) (sign : Sign) :
    values (signs ++ [sign]) = values signs * sign.value := by
  simp [values]

theorem factor_eq (sign : Sign) : (sign.factor : Exact E) = .rational sign.value := by
  cases sign with
  | plus => exact (Exact.ofNat_eq 1).trans (congrArg _ Nat.cast_one)
  | minus =>
      change -(1 : Exact E) = .rational (-1)
      rw [Exact.ofNat_eq, Exact.neg_rational, Nat.cast_one]

theorem product_eq (signs : List Sign) : (product signs : Exact E) = .rational (values signs) := by
  induction signs using List.reverseRecOn with
  | nil => exact (Exact.ofNat_eq 1).trans (congrArg _ Nat.cast_one)
  | append_singleton signs sign ih =>
      rw [product_append_singleton, ih, factor_eq, Exact.rational_mul, values_append_singleton]

end Sign

/-- A decimal number without its sign, as it is written. -/
structure Decimal where
  whole : Text
  fraction : Text
  isDigits_whole : Numeral.IsDigits whole
  isDigit_fraction : ∀ c ∈ fraction, c.isDigit = true

namespace Decimal

/-- The point is left out when no digit follows it. -/
def text (d : Decimal) : Text := if d.fraction = [] then d.whole else d.whole ++ '.' :: d.fraction

def value (d : Decimal) : ℚ := Numeral.digitsValue (d.whole ++ d.fraction) / 10 ^ d.fraction.length

theorem isUnsigned_text (d : Decimal) : Numeral.IsUnsigned d.text := by
  unfold text
  split
  · exact .whole d.isDigits_whole
  · next hne => exact .fraction d.isDigits_whole ⟨hne, d.isDigit_fraction⟩

theorem magnitude?_text (d : Decimal) :
    Numeral.magnitude? d.text =
      some (Numeral.digitsValue (d.whole ++ d.fraction), -(d.fraction.length : Int)) := by
  unfold text
  split
  · next hnil => rw [hnil, d.isDigits_whole.magnitude?_eq, List.append_nil]; rfl
  · next hne => exact d.isDigits_whole.magnitude?_append ⟨hne, d.isDigit_fraction⟩

theorem ofText?_text (d : Decimal) : Scalar.ofText? d.text = some (.rational d.value : Exact E) := by
  rw [Scalar.ofText?, (d.isUnsigned_text.ofText?_eq d.magnitude?_text).1, Option.map_some]
  change some (Exact.rational _) = _
  rw [value, zpow_neg, zpow_natCast, div_eq_mul_inv]
  rfl

end Decimal

/-- The coefficient of a power may be left out when it is one. The exponent is a text of digits. -/
inductive Monomial where
  | constant (value : Decimal)
  | linear (factor : Option Decimal)
  | power (factor : Option Decimal) (exponent : Text) (hexponent : Numeral.IsDigits exponent)

namespace Monomial

def factorText (factor : Option Decimal) : Text := (factor.map Decimal.text).getD []

def factorValue (factor : Option Decimal) : ℚ := (factor.map Decimal.value).getD 1

def text : Monomial → Text
  | constant value => value.text
  | linear factor => factorText factor ++ ['x']
  | power factor exponent _ => factorText factor ++ 'x' :: '^' :: exponent

noncomputable def polynomial : Monomial → ℚ[X]
  | constant value => C value.value
  | linear factor => C (factorValue factor) * X
  | power factor exponent _ => C (factorValue factor) * X ^ Numeral.digitsValue exponent

theorem isUnsigned_factorText (factor : Option Decimal) :
    Coefficient.IsUnsigned (factorText factor) := by
  cases factor with
  | none => exact .inl rfl
  | some d => exact .inr d.isUnsigned_text

theorem ofText?_factorText (factor : Option Decimal) :
    Coefficient.ofText? (factorText factor) = some (.rational (factorValue factor) : Exact E) := by
  cases factor with
  | none => exact congrArg some ((Exact.ofNat_eq 1).trans (congrArg _ Nat.cast_one))
  | some d => exact (Coefficient.ofText?_of_isUnsigned d.isUnsigned_text).trans d.ofText?_text

def term : Monomial → Term (Exact E)
  | constant value => .constant (.rational value.value)
  | linear factor => .linear (.rational (factorValue factor))
  | power factor exponent _ =>
    .power (.rational (factorValue factor)) (.rational (Numeral.digitsValue exponent : ℚ))

theorem denotes_term (m : Monomial) : (m.term : Term (Exact E)).Denotes m.polynomial := by
  cases m with
  | constant value => exact .constant _
  | linear factor => exact .linear _
  | power factor exponent hexponent => exact .power _ _

theorem noBlanks_text (m : Monomial) : m.text.NoBlanks := by
  cases m with
  | constant value => exact noBlanks_of_isUnsigned value.isUnsigned_text
  | linear factor =>
      exact Text.noBlanks_append.mpr ⟨(isUnsigned_factorText factor).noBlanks, by simp⟩
  | power factor exponent hexponent =>
      refine Text.noBlanks_append.mpr ⟨(isUnsigned_factorText factor).noBlanks, ?_⟩
      rw [Text.noBlanks_cons, Text.noBlanks_cons]
      exact ⟨Text.isBlank_variable, Text.isBlank_caret, noBlanks_of_isUnsigned (.whole hexponent)⟩

theorem startsSigned_text (m : Monomial) : Summand.startsSigned m.text = false := by
  cases m with
  | constant value => exact startsSigned_of_isUnsigned value.isUnsigned_text
  | linear factor => exact (isUnsigned_factorText factor).startsSigned_append (by decide) []
  | power factor exponent hexponent =>
      exact (isUnsigned_factorText factor).startsSigned_append (by decide) ('^' :: exponent)

theorem getLast?_text_ne (m : Monomial) : m.text.getLast? ≠ some '^' := by
  have hdigit : ∀ {t : Text}, Numeral.IsUnsigned t → t.getLast? ≠ some '^' := by
    intro t ht hlast
    have hmem := List.mem_of_getLast? hlast
    rcases ht.isDigit_or_eq_point '^' hmem with hdigit | hpoint
    · revert hdigit
      decide
    · revert hpoint
      decide
  cases m with
  | constant value => exact hdigit value.isUnsigned_text
  | linear factor =>
      rw [text, List.getLast?_concat]
      decide
  | power factor exponent hexponent =>
      have hsplit : factorText factor ++ 'x' :: '^' :: exponent =
          (factorText factor ++ ['x', '^']) ++ exponent := by simp
      rw [text, hsplit, List.getLast?_append_of_ne_nil _ hexponent.1]
      exact hdigit (.whole hexponent)

theorem ofTrimmed?_text (m : Monomial) : Term.ofTrimmed? m.text = some (m.term : Term (Exact E)) := by
  cases m with
  | constant value =>
      have hnumber : isSignedNumber value.text = true := by
        rw [isSignedNumber_iff, value.isUnsigned_text.takeSign_eq]
        exact value.isUnsigned_text
      rw [text, Term.ofTrimmed?, if_pos hnumber, value.ofText?_text, Option.map_some, term]
  | linear factor =>
      rw [text, Term.ofTrimmed?_append (isUnsigned_factorText factor) (by decide),
        ofText?_factorText, Option.bind_some]
      rfl
  | power factor exponent hexponent =>
      have hunsigned : Numeral.IsUnsigned exponent := .whole hexponent
      have hnumber : isSignedNumber exponent = true := by
        rw [isSignedNumber_iff, hunsigned.takeSign_eq]
        exact hunsigned
      have hvalue : Scalar.ofText? exponent =
          some (.rational (Numeral.digitsValue exponent : ℚ) : Exact E) := by
        rw [Scalar.ofText?, (hunsigned.ofText?_eq hexponent.magnitude?_eq).1, Option.map_some]
        change some (Exact.rational (_ * 10 ^ (0 : Int))) = _
        rw [zpow_zero, mul_one]
      rw [text, Term.ofTrimmed?_append (isUnsigned_factorText factor) (by decide),
        ofText?_factorText, Option.bind_some]
      change (if isSignedNumber exponent then _ else _) = _
      rw [if_pos hnumber, hvalue]
      rfl

theorem ofText_text (m : Monomial) : Term.ofText m.text = (m.term : Term (Exact E)) := by
  rw [Term.ofText, m.noBlanks_text.trim_eq, ofTrimmed?_text, Option.getD_some]

theorem isAtom_text (m : Monomial) : Term.IsAtom (Exact E) m.text where
  recognized := by
    rw [ofText_text]
    cases m <;> rfl
  unsigned := m.startsSigned_text

end Monomial

theorem Term.Denotes.scaled {t : Term (Exact E)} {p : ℚ[X]} (h : t.Denotes p) (q : ℚ) :
    (t.scaled (.rational q)).Denotes (C q * p) := by
  cases h with
  | power c n =>
      rw [← mul_assoc, ← C_mul, mul_comm q c]
      exact .power (c * q) n
  | linear c =>
      rw [← mul_assoc, ← C_mul, mul_comm q c]
      exact .linear (c * q)
  | constant v =>
      rw [← C_mul, mul_comm q v]
      exact .constant (v * q)
  | unrecognized raw =>
      rw [mul_zero]
      unfold Term.scaled
      dsimp only
      split
      · split <;> exact .unrecognized _
      · exact .unrecognized raw

namespace WrittenSum

/-- The polynomial that a written sum of monomials amounts to. Only the first item of a sum may leave
out its sign. -/
inductive AmountsTo : WrittenSum → ℚ[X] → Prop where
  | nil : AmountsTo nil 0
  | lone (sign : Sign) {rest : WrittenSum} {p : ℚ[X]} (hsigned : rest.IsSigned)
      (h : AmountsTo rest p) : AmountsTo (lone sign rest) p
  | monomial (sign : Option Sign) (m : Monomial) {rest : WrittenSum} {p : ℚ[X]}
      (hsigned : rest.IsSigned) (h : AmountsTo rest p) :
      AmountsTo (atom sign m.text rest) (C (sign.getD .plus).value * m.polynomial + p)
  | group (sign : Option Sign) {inner rest : WrittenSum} {q p : ℚ[X]} (hsigned : rest.IsSigned)
      (hinner : AmountsTo inner q) (h : AmountsTo rest p) :
      AmountsTo (group sign inner rest) (C (sign.getD .plus).value * q + p)

namespace AmountsTo

variable {s : WrittenSum} {p : ℚ[X]}

theorem isWellFormed (h : s.AmountsTo p) : s.IsWellFormed (Exact E) := by
  induction h with
  | nil => trivial
  | lone sign hsigned _ ih => exact ⟨hsigned, ih⟩
  | monomial sign m hsigned _ ih =>
      exact ⟨m.isAtom_text, fun hlast => absurd hlast m.getLast?_text_ne, hsigned, ih⟩
  | group sign hsigned _ _ ihinner ih => exact ⟨ihinner, hsigned, ih⟩

/-- The terms of the atoms, under the signs of the groups around them. -/
theorem exists_denotes_atoms (h : s.AmountsTo p) (outer : List Sign) :
    ∃ summands : List ℚ[X],
      List.Forall₂ Term.Denotes ((s.atoms outer).map fun (signs, body) =>
        (Term.ofText body).scaled (Sign.product signs : Exact E)) summands ∧
      summands.sum = C (Sign.values outer) * p := by
  induction h generalizing outer with
  | nil => exact ⟨[], .nil, (mul_zero _).symm⟩
  | lone sign _ _ ih => exact ih outer
  | monomial sign m _ _ ih =>
      obtain ⟨summands, hsummands, hsum⟩ := ih outer
      refine ⟨C (Sign.values (outer ++ [sign.getD .plus])) * m.polynomial :: summands, ?_, ?_⟩
      · refine .cons ?_ hsummands
        dsimp only
        rw [Monomial.ofText_text, Sign.product_eq]
        exact m.denotes_term.scaled _
      · rw [List.sum_cons, hsum, Sign.values_append_singleton, C_mul]
        ring
  | group sign _ _ _ ihinner ih =>
      obtain ⟨summands, hsummands, hsum⟩ := ih outer
      obtain ⟨inner, hinner, hinnerSum⟩ := ihinner (outer ++ [sign.getD .plus])
      refine ⟨inner ++ summands, ?_, ?_⟩
      · rw [atoms, List.map_append]
        exact List.rel_append hinner hsummands
      · rw [List.sum_append, hsum, hinnerSum, Sign.values_append_singleton, C_mul]
        ring

end AmountsTo

/-- From left to right, without groups. -/
def ofMonomials : List (Option Sign × Monomial) → WrittenSum
  | [] => nil
  | (sign, m) :: rest => atom sign m.text (ofMonomials rest)

theorem amountsTo_ofMonomials {sign : Option Sign} {m : Monomial}
    {rest : List (Option Sign × Monomial)} (hsigned : ∀ item ∈ rest, item.1.isSome) :
    (ofMonomials ((sign, m) :: rest)).AmountsTo
      (((sign, m) :: rest).map fun (sign, m) => C (sign.getD .plus).value * m.polynomial).sum := by
  induction rest generalizing sign m with
  | nil => exact .monomial sign m trivial .nil
  | cons item rest ih =>
      refine .monomial sign m (hsigned item List.mem_cons_self) ?_
      exact ih fun item hitem => hsigned item (List.mem_cons_of_mem _ hitem)

/-- The text of `a x^2 + b x + c` with all three numbers written out. -/
def parabola (a : Option Sign × Decimal) (b c : Sign × Decimal) : WrittenSum :=
  ofMonomials [(a.1, .power (some a.2) ['2'] ⟨by simp, by simp⟩),
    (some b.1, .linear (some b.2)), (some c.1, .constant c.2)]

theorem amountsTo_parabola (a : Option Sign × Decimal) (b c : Sign × Decimal) :
    (parabola a b c).AmountsTo (C ((a.1.getD .plus).value * a.2.value) * X ^ 2 +
      C (b.1.value * b.2.value) * X + C (c.1.value * c.2.value)) := by
  have hsum : (parabola a b c).AmountsTo _ := amountsTo_ofMonomials (by simp)
  have htwo : Numeral.digitsValue ['2'] = 2 := by decide
  simp only [List.map_cons, List.map_nil, List.sum_cons, List.sum_nil, Monomial.polynomial,
    Monomial.factorValue, Option.map_some, Option.getD_some, htwo, ← mul_assoc, ← C_mul, add_zero,
    ← add_assoc] at hsum
  exact hsum

end WrittenSum

/-- **Reading a written polynomial** gives an expression for it. -/
theorem Expression.denotes_ofText {t : Text} {s : WrittenSum} {p : ℚ[X]} (h : s.AmountsTo p)
    (htext : s.text = t.withoutBlanks) : (ofText t : Expression (Exact E)).Denotes p := by
  obtain ⟨summands, hsummands, hsum⟩ := h.exists_denotes_atoms (E := E) []
  refine ⟨summands, ?_, ?_⟩
  · rwa [terms_ofText h.isWellFormed htext]
  · rw [hsum, Sign.values, List.map_nil, List.prod_nil, C_1, one_mul]

end Univariate
