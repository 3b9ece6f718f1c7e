import Univariate.Expression
import Univariate.Proofs.Scalar.Binary64.Factor
import Univariate.Proofs.Term.Factor

/-!
# Straight from the text

What is computed from the leaves of a text, with their signs outside, is what its expression gives:
the same values, the same derivatives, and the same text of every derivative.
-/

namespace Univariate

open Scalar (Agree LawfulAgree LawfulFactor)

variable {α : Type} [Scalar α]

theorem Term.isUnrecognized_derivative (t : Term α) : t.derivative.isUnrecognized = false := by
  have hpower : ∀ c n : α, (ofPower c n).isUnrecognized = false := by
    intro c n
    unfold ofPower
    split
    · rfl
    · split <;> rfl
  cases t with
  | power c n =>
      unfold derivative
      dsimp only
      split
      · rfl
      · exact hpower _ _
  | wave kind c => cases kind <;> rfl
  | _ => rfl

namespace Expression

theorem iterate_derivative (n : Nat) (e : Expression α) :
    (List.map Term.derivative)^[n] e.terms = (e.nthDerivative n).terms := by
  induction n generalizing e with
  | zero => rfl
  | succ n ih =>
      rw [Function.iterate_succ_apply]
      exact ih e.derivative

theorem derivatives_eq (pieces : List Text) :
    (Summand.derivatives pieces : List (Term α)) = (ofPieces pieces).derivative.terms := by
  unfold Summand.derivatives derivative ofPieces
  rw [List.map_map]
  rfl

/-- Differentiating leaves no unrecognized term. -/
theorem isUnrecognized_nthDerivative (n : Nat) (e : Expression α) :
    ∀ t ∈ (e.nthDerivative (n + 1)).terms, t.isUnrecognized = false := by
  induction n generalizing e with
  | zero =>
      intro t ht
      obtain ⟨u, -, rfl⟩ := List.mem_map.mp ht
      exact u.isUnrecognized_derivative
  | succ n ih => exact ih e.derivative

theorem recognizedText_eq {e : Expression α} (h : ∀ t ∈ e.terms, t.isUnrecognized = false) :
    e.recognizedText = e.text := by
  have hfilter : e.terms.filter (!·.isUnrecognized) = e.terms := by
    apply List.filter_eq_self.mpr
    intro t ht
    rw [h t ht]
    rfl
  unfold recognizedText
  rw [hfilter]
  rfl

variable [LawfulFactor α] [LawfulAgree α]

theorem agree_evalPieces (pieces : List Text) (x : α) :
    Agree (Summand.evalPieces pieces x) ((ofPieces pieces).eval x) := by
  unfold Summand.evalPieces eval ofPieces
  rw [List.map_map]
  apply Agree.sum
  rw [List.forall₂_map_left_iff, List.forall₂_map_right_iff, List.forall₂_same]
  intro leaf hleaf
  exact (Term.ofText leaf.2).agree_eval_scaled (Summand.isFactor_of_mem_expand hleaf) x

/-- **The text and its expression agree.** The value computed from the leaves of a text is the value
of its expression, and differentiating the leaves, again and again, gives the terms and the text of
the derivatives of the expression. -/
theorem agree_ofText (t : Text) :
    (∀ x : α, Agree (Summand.evalText t x) ((ofText t).eval x)) ∧
      ∀ n, (List.map Term.derivative)^[n] (Summand.derivatives (pieces t) : List (Term α)) =
          ((ofText t : Expression α).nthDerivative (n + 1)).terms ∧
        (⟨(List.map Term.derivative)^[n] (Summand.derivatives (pieces t))⟩ :
            Expression α).recognizedText =
          ((ofText t : Expression α).nthDerivative (n + 1)).text := by
  refine ⟨agree_evalPieces (pieces t), fun n => ?_⟩
  have hterms : (List.map Term.derivative)^[n] (Summand.derivatives (pieces t) : List (Term α)) =
      ((ofText t : Expression α).nthDerivative (n + 1)).terms := by
    rw [derivatives_eq, iterate_derivative]
    rfl
  refine ⟨hterms, ?_⟩
  rw [hterms]
  exact recognizedText_eq (isUnrecognized_nthDerivative n (ofText t))

theorem agree_ofText_nested :
    let t : Text := "3 - (2x - (y - 0.1x)) + 4x^3".toList
    Agree (Summand.evalText t (0.7 : Float)) ((ofText t).eval 0.7) ∧
      (ofText t : Expression Float).terms =
        [.constant 3, .linear (-2), .unrecognized ['y'], .linear (-0.1), .power 4 3] ∧
      List.map Term.derivative (Summand.derivatives (pieces t)) =
        ((ofText t : Expression Float).nthDerivative 2).terms ∧
      (⟨List.map Term.derivative (Summand.derivatives (pieces t))⟩ :
        Expression Float).recognizedText = "24x".toList := by
  intro t
  obtain ⟨hvalue, hderivatives⟩ := agree_ofText (α := Float) t
  obtain ⟨hterms, htext⟩ := hderivatives 1
  exact ⟨hvalue 0.7, by decide +kernel, hterms, htext.trans (by decide +kernel)⟩

end Expression

end Univariate
