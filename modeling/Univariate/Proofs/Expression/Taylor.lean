import Mathlib.Algebra.Polynomial.Taylor
import Univariate.Expression
import Univariate.Proofs.Scalar.Exact

/-!
# Taylor's formula

Over exact arithmetic the terms with natural exponents stand for polynomials, and differentiation of
terms is differentiation of polynomials.
-/

namespace Univariate

open Polynomial

variable {E : Elementary}

/-- The polynomial that a term stands for. An unrecognized term counts nothing. -/
inductive Term.Denotes : Term (Exact E) → ℚ[X] → Prop where
  | power (c : ℚ) (n : ℕ) : Denotes (.power (.rational c) (.rational n)) (C c * X ^ n)
  | linear (c : ℚ) : Denotes (.linear (.rational c)) (C c * X)
  | constant (v : ℚ) : Denotes (.constant (.rational v)) (C v)
  | unrecognized (raw : Text) : Denotes (.unrecognized raw) 0

namespace Term

/-- The shapes that stand for polynomials, with exponents up to a bound. -/
inductive IsPolynomial (bound : ℕ) : Term (Exact E) → Prop where
  | power (c : ℚ) {n : ℕ} (hn : n ≤ bound) :
      IsPolynomial bound (.power (.rational c) (.rational n))
  | linear (c : ℚ) : IsPolynomial bound (.linear (.rational c))
  | constant (v : ℚ) : IsPolynomial bound (.constant (.rational v))
  | unrecognized (raw : Text) : IsPolynomial bound (.unrecognized raw)

theorem IsPolynomial.exists_denotes {bound : ℕ} {t : Term (Exact E)} (h : t.IsPolynomial bound)
    (hbound : 1 ≤ bound) : ∃ p, t.Denotes p ∧ p.natDegree ≤ bound := by
  cases h with
  | power c hn => exact ⟨_, .power c _, (natDegree_C_mul_X_pow_le c _).trans hn⟩
  | linear c =>
      have hdegree : (C c * X : ℚ[X]).natDegree ≤ 1 := by
        simpa using natDegree_C_mul_X_pow_le c 1
      exact ⟨_, .linear c, hdegree.trans hbound⟩
  | constant v => exact ⟨_, .constant v, (natDegree_C v).le.trans (Nat.zero_le bound)⟩
  | unrecognized raw => exact ⟨0, .unrecognized raw, natDegree_zero.le.trans (Nat.zero_le bound)⟩

theorem denotes_ofPower (c : ℚ) (n : ℕ) :
    (ofPower (.rational c : Exact E) (.rational n)).Denotes (C c * X ^ n) := by
  unfold ofPower
  rw [Exact.ofNat_eq, Exact.ofNat_eq, Exact.rational_beq_rational, Exact.rational_beq_rational]
  match n with
  | 0 =>
      rw [if_pos (by simp), pow_zero, mul_one]
      exact .constant c
  | 1 =>
      rw [if_neg (by simp), if_pos (by simp), pow_one]
      exact .linear c
  | n + 2 =>
      have hzero : ((n + 2 : ℕ) : ℚ) ≠ ((0 : ℕ) : ℚ) := by exact_mod_cast (by omega : n + 2 ≠ 0)
      have hone : ((n + 2 : ℕ) : ℚ) ≠ ((1 : ℕ) : ℚ) := by exact_mod_cast (by omega : n + 2 ≠ 1)
      rw [decide_eq_false hzero, decide_eq_false hone]
      exact .power c (n + 2)

namespace Denotes

variable {t : Term (Exact E)} {p : ℚ[X]}

theorem eval_eq (h : t.Denotes p) (x : ℚ) : t.eval (.rational x) = .rational (p.eval x) := by
  cases h with
  | power c n => simp [Term.eval]
  | linear c => simp [Term.eval]
  | constant v => simp [Term.eval]
  | unrecognized raw => simp [Term.eval]

theorem derivative (h : t.Denotes p) : t.derivative.Denotes (Polynomial.derivative p) := by
  have hzero : (Term.constant 0 : Term (Exact E)).Denotes 0 := by
    rw [Exact.ofNat_eq, Nat.cast_zero, ← C_0]
    exact .constant 0
  cases h with
  | power c n =>
      change (if (.rational n : Exact E) == 0 then Term.constant 0
        else ofPower (.rational c * .rational n) (.rational n - 1)).Denotes _
      cases n with
      | zero =>
          rw [if_pos (by simp), pow_zero, mul_one, derivative_C]
          exact hzero
      | succ n =>
          have hexponent : ((n + 1 : ℕ) : ℚ) - ((1 : ℕ) : ℚ) = n := by
            rw [Nat.cast_succ, Nat.cast_one, add_sub_cancel_right]
          have hpower := denotes_ofPower (E := E) (c * ((n + 1 : ℕ) : ℚ)) n
          have hne : ((n + 1 : ℕ) : ℚ) ≠ ((0 : ℕ) : ℚ) := by exact_mod_cast Nat.succ_ne_zero n
          rw [Exact.ofNat_eq, Exact.ofNat_eq, Exact.rational_beq_rational, decide_eq_false hne,
            Exact.rational_mul, Exact.rational_sub, hexponent, derivative_C_mul_X_pow,
            Nat.add_sub_cancel]
          exact hpower
  | linear c =>
      rw [derivative_C_mul_X]
      exact .constant c
  | constant v =>
      rw [derivative_C]
      exact hzero
  | unrecognized raw =>
      rw [Polynomial.derivative_zero]
      exact hzero

end Denotes

end Term

namespace Expression

def Denotes (e : Expression (Exact E)) (p : ℚ[X]) : Prop :=
  ∃ summands : List ℚ[X], List.Forall₂ Term.Denotes e.terms summands ∧ summands.sum = p

namespace Denotes

variable {e : Expression (Exact E)} {p : ℚ[X]}

theorem eval_eq (h : e.Denotes p) (x : ℚ) : e.eval (.rational x) = .rational (p.eval x) := by
  obtain ⟨terms⟩ := e
  obtain ⟨summands, hterms, rfl⟩ := h
  change List.Forall₂ Term.Denotes terms summands at hterms
  have hvalues : terms.map (·.eval (.rational x)) =
      (summands.map (Polynomial.eval x)).map Exact.rational := by
    induction hterms with
    | nil => rfl
    | cons hterm _ ih => rw [List.map_cons, hterm.eval_eq, ih]; rfl
  rw [Expression.eval, hvalues, Exact.sum_map_rational, eval_listSum]

theorem derivative (h : e.Denotes p) : e.derivative.Denotes (Polynomial.derivative p) := by
  obtain ⟨summands, hterms, rfl⟩ := h
  refine ⟨summands.map Polynomial.derivative, ?_, ?_⟩
  · exact List.forall₂_map_left_iff.mpr
      (List.forall₂_map_right_iff.mpr (hterms.imp fun _ _ hterm => hterm.derivative))
  · exact (map_list_sum Polynomial.derivative summands).symm

theorem nthDerivative (h : e.Denotes p) (n : ℕ) :
    (e.nthDerivative n).Denotes (Polynomial.derivative^[n] p) := by
  induction n generalizing e p with
  | zero => exact h
  | succ n ih => exact ih h.derivative

end Denotes

theorem exists_denotes {bound : ℕ} (hbound : 1 ≤ bound) {e : Expression (Exact E)}
    (h : ∀ t ∈ e.terms, t.IsPolynomial bound) : ∃ p, e.Denotes p ∧ p.natDegree ≤ bound := by
  obtain ⟨terms⟩ := e
  change ∀ t ∈ terms, t.IsPolynomial bound at h
  induction terms with
  | nil => exact ⟨0, ⟨[], .nil, rfl⟩, natDegree_zero.le.trans (Nat.zero_le bound)⟩
  | cons t terms ih =>
      obtain ⟨p, hp, hdegree⟩ := (h t List.mem_cons_self).exists_denotes hbound
      obtain ⟨q, ⟨summands, hsummands, rfl⟩, hdegrees⟩ :=
        ih fun t ht => h t (List.mem_cons_of_mem _ ht)
      exact ⟨p + summands.sum, ⟨p :: summands, .cons hp hsummands, rfl⟩,
        (natDegree_add_le p _).trans (max_le hdegree hdegrees)⟩

/-- Taylor's formula for polynomials, with the iterated derivative that terms have. -/
theorem eval_add_eq_sum {p : ℚ[X]} {bound : ℕ} (hdegree : p.natDegree ≤ bound) (x h : ℚ) :
    p.eval (x + h) = ∑ k ∈ Finset.range (bound + 1),
      h ^ k / k.factorial * (Polynomial.derivative^[k] p).eval x := by
  have hcoeff : ∀ k, (taylor x p).coeff k =
      (Polynomial.derivative^[k] p).eval x / k.factorial := by
    intro k
    have hfactorial : (k.factorial : ℚ) ≠ 0 := by exact_mod_cast k.factorial_ne_zero
    rw [← factorial_smul_hasseDeriv, taylor_coeff, LinearMap.smul_apply, eval_smul, nsmul_eq_mul,
      mul_div_cancel_left₀ _ hfactorial]
  have hlt : (taylor x p).natDegree < bound + 1 := by
    rw [natDegree_taylor]
    exact Nat.lt_succ_of_le hdegree
  calc p.eval (x + h) = (taylor x p).eval h := by rw [taylor_eval, add_comm]
    _ = ∑ k ∈ Finset.range (bound + 1), (taylor x p).coeff k * h ^ k := eval_eq_sum_range' hlt h
    _ = ∑ k ∈ Finset.range (bound + 1),
          h ^ k / k.factorial * (Polynomial.derivative^[k] p).eval x := by
        refine Finset.sum_congr rfl fun k _ => ?_
        rw [hcoeff]
        ring

/-- **Taylor's formula.** For a sum of terms that stand for polynomials, the values of the
derivatives at one point give the value at every other one. -/
theorem eval_add_eq_taylor (e : Expression (Exact E)) (bound : ℕ) (hbound : 1 ≤ bound)
    (he : ∀ t ∈ e.terms, t.IsPolynomial bound) (x h : ℚ) :
    ∃ values : ℕ → ℚ,
      (∀ k, (e.nthDerivative k).eval (.rational x) = .rational (values k)) ∧
        e.eval (.rational (x + h)) =
          .rational (∑ k ∈ Finset.range (bound + 1), h ^ k / k.factorial * values k) := by
  obtain ⟨p, hp, hdegree⟩ := exists_denotes hbound he
  refine ⟨fun k => (Polynomial.derivative^[k] p).eval x, ?_, ?_⟩
  · intro k
    exact (hp.nthDerivative k).eval_eq x
  · rw [hp.eval_eq, eval_add_eq_sum hdegree]

theorem eval_add_eq_taylor_cubic :
    let e : Expression (Exact .rationalPart) := ofText "2x^3 - x + 5".toList
    ∃ values : ℕ → ℚ,
      (∀ k, (e.nthDerivative k).eval (.rational (1 / 2)) = .rational (values k)) ∧
        e.eval (.rational (1 / 2 + 3)) =
          .rational (∑ k ∈ Finset.range (3 + 1), 3 ^ k / k.factorial * values k) := by
  intro e
  have hterms : e.terms =
      [.power (.rational 2) (.rational (3 : ℕ)), .linear (.rational (-1)),
        .constant (.rational 5)] := by
    decide +kernel
  have he : ∀ t ∈ e.terms, t.IsPolynomial 3 := by
    rw [hterms]
    simp only [List.forall_mem_cons]
    exact ⟨.power 2 (le_refl 3), .linear (-1), .constant 5, List.forall_mem_nil _⟩
  exact eval_add_eq_taylor e 3 (by decide) he (1 / 2) 3

end Expression

end Univariate
