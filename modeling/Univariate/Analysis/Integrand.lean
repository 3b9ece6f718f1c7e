import Univariate.Summand
import Univariate.Term.Reader

/-! Other spellings of integrands: `**` for powers, and `e` alone for `e^x`. -/

namespace Univariate.Integrand

def caretsForStars : Text → Text
  | '*' :: '*' :: rest => '^' :: caretsForStars rest
  | c :: rest => c :: caretsForStars rest
  | [] => []

theorem caretsForStars_cons {c : Char} {t : Text} (h : c = '*' → t.head? ≠ some '*') :
    caretsForStars (c :: t) = c :: caretsForStars t := by
  rw [caretsForStars.eq_def]
  split
  · next heq =>
      obtain ⟨rfl, rfl⟩ := List.cons.inj heq
      exact absurd rfl (h rfl)
  · next heq =>
      obtain ⟨rfl, rfl⟩ := List.cons.inj heq
      rfl
  · next heq => cases heq

theorem caretsForStars_cons_of_ne {c : Char} (h : c ≠ '*') (t : Text) :
    caretsForStars (c :: t) = c :: caretsForStars t :=
  caretsForStars_cons fun hc => absurd hc h

theorem mem_or_eq_of_mem_caretsForStars {t : Text} {c : Char} (h : c ∈ caretsForStars t) :
    c ∈ t ∨ c = '^' := by
  fun_induction caretsForStars t with
  | case1 rest ih =>
      rcases List.mem_cons.mp h with rfl | h
      · exact Or.inr rfl
      · exact (ih h).imp_left fun hc => List.mem_cons_of_mem _ (List.mem_cons_of_mem _ hc)
  | case2 d rest _ ih =>
      rcases List.mem_cons.mp h with rfl | h
      · exact Or.inl List.mem_cons_self
      · exact (ih h).imp_left (List.mem_cons_of_mem d)
  | case3 => cases h

theorem head?_caretsForStars_ne {t : Text} {c : Char} (hc : c ≠ '^') (h : t.head? ≠ some c) :
    (caretsForStars t).head? ≠ some c := by
  fun_cases caretsForStars t with
  | case1 rest => exact fun heq => hc (Option.some.inj heq).symm
  | case2 d rest => exact h
  | case3 => exact h

/-- A coefficient, possibly empty, directly followed by `e` and nothing else. -/
def isBareExponential (piece : Text) : Bool :=
  (Coefficient.span Text.isDecimalDigit piece).2 == ['e']

def completeExponential (piece : Text) : Text :=
  if isBareExponential piece then piece ++ ['^', 'x'] else piece

/-- The text without its blanks, in the spelling of expressions. -/
def respell (t : Text) : Text :=
  (Summand.split (caretsForStars t.withoutBlanks)).flatMap completeExponential

end Univariate.Integrand
