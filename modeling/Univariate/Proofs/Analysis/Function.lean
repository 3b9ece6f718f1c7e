import Univariate.Analysis.Derivative

/-!
# The function of an analysis

An analysis reads its function from text, and asks that it has a term.
-/

namespace Univariate.Analysis

variable {α : Type} [Scalar α]

theorem read_of_readFunction {mode : Strictness} {t : Text} {pieces : List Text} {e : Expression α}
    (h : readFunction mode t = .ok (pieces, e)) : Expression.read mode t = .ok e := by
  unfold readFunction at h
  split at h
  · cases h
  · split at h
    · cases h
    · next hread =>
        split at h
        · cases h
        · cases h
          exact hread

theorem terms_ne_nil_of_readFunction {mode : Strictness} {t : Text} {pieces : List Text}
    {e : Expression α} (h : readFunction mode t = .ok (pieces, e)) : e.terms ≠ [] := by
  unfold readFunction at h
  split at h
  · cases h
  · split at h
    · cases h
    · split at h
      · cases h
      · next hterms =>
          cases h
          simpa using hterms

theorem read_of_derivatives {s : Settings α} {t : Text} {start stop : α}
    {report : DerivativeReport α} (h : derivatives s t start stop = .ok report) :
    Expression.read s.strictness t = .ok report.function := by
  unfold derivatives at h
  split at h
  · cases h
  · next hread =>
      split at h
      · cases h
      · dsimp only at h
        split at h
        · cases h
        · cases h
          exact read_of_readFunction hread

/-- A text that gives a term is not blank. -/
theorem readFunction_of_terms_ne_nil {t : Text}
    (h : (Expression.ofText t : Expression α).terms ≠ []) :
    (readFunction .permissive t : Except (Error α) _) =
      .ok (Expression.pieces t, Expression.ofText t) := by
  have hblanks : t.withoutBlanks ≠ [] := by
    intro hnil
    apply h
    change (Summand.expand (Summand.split t.withoutBlanks)).map _ = []
    rw [hnil]
    rfl
  unfold readFunction
  rw [if_neg (by simpa using hblanks)]
  exact if_neg (by simpa using h)

end Univariate.Analysis
