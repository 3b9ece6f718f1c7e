import Mathlib.Data.List.Forall2
import Univariate.Proofs.Term.Factor

/-!
# Negated expressions

A minus sign before a group turns the sign of every leaf. Over exact arithmetic the value of the
expression is then negated, and so are those of its derivatives.
-/

namespace Univariate

variable {E : Elementary}

namespace Exact

theorem neg_mul_neg (x y : Exact E) : -x * -y = x * y := by
  cases x <;> cases y <;> try rfl
  simp

theorem neg_add (x y : Exact E) : -(x + y) = -x + -y := by
  cases x <;> cases y <;> try rfl
  simp [add_comm]

theorem neg_zero : -(0 : Exact E) = 0 := by
  rw [ofNat_eq, neg_rational, Nat.cast_zero, Rat.neg_zero]

theorem sum_map_neg (values : List (Exact E)) :
    Scalar.sum (values.map (-·)) = -Scalar.sum values := by
  have hfold : ∀ (values : List (Exact E)) (total : Exact E),
      (values.map (-·)).foldl (· + ·) (-total) = -values.foldl (· + ·) total := by
    intro values
    induction values with
    | nil => exact fun _ => rfl
    | cons v values ih =>
        intro total
        rw [List.map_cons, List.foldl_cons, List.foldl_cons, ← neg_add, ih]
  have hzero : (Scalar.negativeZero : Exact E) = -Scalar.negativeZero := by
    rw [negativeZero_eq]
    simp
  unfold Scalar.sum
  rw [← hfold, ← hzero]

end Exact

namespace Text

def negated (t : Text) : Text := '-' :: '(' :: (t ++ [')'])

theorem NoBlanks.negated {t : Text} (h : t.NoBlanks) : t.negated.NoBlanks := by
  have hminus : isBlank '-' = false := Sign.isBlank_char .minus
  unfold Text.negated
  simp [h, hminus]

end Text

namespace Term

/-- The second term is the first with the other sign. Of an unrecognized term the sign is text, and
its value does not depend on it. -/
inductive Opposite : Term (Exact E) → Term (Exact E) → Prop
  | power (c n : Exact E) : Opposite (.power c n) (.power (-c) n)
  | linear (c : Exact E) : Opposite (.linear c) (.linear (-c))
  | exponential (c : Exact E) (argument : ExponentArgument (Exact E)) :
    Opposite (.exponential c argument) (.exponential (-c) argument)
  | constant (c : Exact E) : Opposite (.constant c) (.constant (-c))
  | wave (kind : Wave) (c : Exact E) : Opposite (.wave kind c) (.wave kind (-c))
  | unrecognized (raw raw' : Text) : Opposite (.unrecognized raw) (.unrecognized raw')

namespace Opposite

variable {t u : Term (Exact E)}

theorem constant_zero : Opposite (.constant (0 : Exact E)) (.constant 0) := by
  have h := constant (0 : Exact E)
  rwa [Exact.neg_zero] at h

theorem scaled (t : Term (Exact E)) (factor : Exact E) :
    Opposite (t.scaled factor) (t.scaled (-factor)) := by
  cases t with
  | unrecognized raw =>
      obtain ⟨raw₁, h₁⟩ := exists_scaled_unrecognized raw factor
      obtain ⟨raw₂, h₂⟩ := exists_scaled_unrecognized raw (-factor)
      rw [h₁, h₂]
      exact unrecognized raw₁ raw₂
  | power c n =>
      have h := power (c * factor) n
      rwa [← Exact.mul_neg] at h
  | linear c =>
      have h := linear (c * factor)
      rwa [← Exact.mul_neg] at h
  | exponential c argument =>
      have h := exponential (c * factor) argument
      rwa [← Exact.mul_neg] at h
  | constant c =>
      have h := constant (c * factor)
      rwa [← Exact.mul_neg] at h
  | wave kind c =>
      have h := wave kind (c * factor)
      rwa [← Exact.mul_neg] at h

theorem eval_eq (h : Opposite t u) (x : Exact E) : u.eval x = -t.eval x := by
  cases h with
  | power c n =>
      unfold Term.eval
      dsimp only
      split
      · rfl
      · exact Exact.neg_mul _ _
  | linear c => exact Exact.neg_mul _ _
  | exponential c argument => exact Exact.neg_mul _ _
  | constant c => rfl
  | wave kind c => exact Exact.neg_mul _ _
  | unrecognized raw raw' => exact Exact.neg_zero.symm

theorem ofPower (c n : Exact E) : Opposite (Term.ofPower c n) (Term.ofPower (-c) n) := by
  unfold Term.ofPower
  split
  · exact constant c
  · split
    · exact linear c
    · exact power c n

theorem derivative (h : Opposite t u) : Opposite t.derivative u.derivative := by
  cases h with
  | power c n =>
      unfold Term.derivative
      dsimp only
      split
      · exact constant_zero
      · rw [Exact.neg_mul]
        exact ofPower _ _
  | linear c => exact constant c
  | exponential c argument => exact exponential c argument
  | constant c => exact constant_zero
  | wave kind c =>
      cases kind with
      | sin => exact wave .cos c
      | cos => exact wave .sin (-c)
  | unrecognized raw raw' => exact constant_zero

end Opposite

end Term

namespace Expression

/-- Term by term of the other sign. -/
def Opposite (e e' : Expression (Exact E)) : Prop := List.Forall₂ Term.Opposite e.terms e'.terms

namespace Opposite

variable {e e' : Expression (Exact E)}

theorem eval_eq (h : Opposite e e') : e'.eval = fun x => -e.eval x := by
  funext x
  obtain ⟨terms⟩ := e
  obtain ⟨terms'⟩ := e'
  have hvalues : terms'.map (·.eval x) = (terms.map (·.eval x)).map (-·) := by
    change List.Forall₂ Term.Opposite terms terms' at h
    induction h with
    | nil => rfl
    | cons hterm _ ih => rw [List.map_cons, List.map_cons, List.map_cons, hterm.eval_eq, ih]
  change Scalar.sum (terms'.map (·.eval x)) = -Scalar.sum (terms.map (·.eval x))
  rw [hvalues, Exact.sum_map_neg]

theorem derivative (h : Opposite e e') : Opposite e.derivative e'.derivative :=
  List.forall₂_map_left_iff.mpr (List.forall₂_map_right_iff.mpr (h.imp fun _ _ => .derivative))

theorem isEmpty_eq (h : Opposite e e') : e'.terms.isEmpty = e.terms.isEmpty := by
  obtain ⟨terms⟩ := e
  obtain ⟨terms'⟩ := e'
  change List.Forall₂ Term.Opposite terms terms' at h
  cases h <;> rfl

end Opposite

/-- **A minus sign before a text in brackets negates it.** -/
theorem ofText_negated {t : Text} (hblanks : t.NoBlanks) (hbalanced : t.Closes 0) :
    Opposite (ofText t : Expression (Exact E)) (ofText t.negated) := by
  unfold Opposite ofText pieces
  rw [hblanks.withoutBlanks_eq, hblanks.negated.withoutBlanks_eq]
  unfold ofPieces Text.negated
  rw [Summand.expand_group_minus hblanks hbalanced, List.map_map, List.forall₂_map_left_iff,
    List.forall₂_map_right_iff]
  exact List.forall₂_same.mpr fun leaf _ => .scaled _ _

end Expression

end Univariate
