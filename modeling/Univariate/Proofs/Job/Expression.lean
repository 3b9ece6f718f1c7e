import Univariate.Proofs.Expression.Meaning
import Univariate.Proofs.Job.Template

/-!
# Expressions in jobs

An expression in a document is typed before it is kept as a text again. Every text gives a job, but
what reads as a number comes back in another spelling, which can be another expression.
-/

namespace Univariate

/-! ### The job of an expression -/

namespace Job

/-- The section with nothing but an expression. -/
def expressionSection (s : Text) : Document.WrittenSection :=
  ⟨"function".toList, [("expression".toList, [s])]⟩

def expressionDocument (s : Text) : Text := "function\nexpression: ".toList ++ s

theorem isLayout_expressionDocument (s : Text) :
    Document.IsLayout [expressionSection s] (expressionDocument s) := by
  have hspace : ∀ c ∈ [' '], Document.IsSpace c := by decide
  have hpair : Document.WritesPair ("expression".toList, [s]) ("expression: ".toList ++ s) :=
    .mk "expression".toList Document.forall_isSpace_nil hspace (.single s)
  have hwrites : Document.WritesSections [expressionSection s]
      ["function".toList, "expression: ".toList ++ s] :=
    .cons (s := expressionSection s) (.cons hpair .nil) .nil
  have hspaced : Document.Spaced Document.IsGap ["function".toList, "expression: ".toList ++ s]
      (expressionDocument s) := by
    have hword : Document.Spaced Document.IsGap ["expression: ".toList ++ s]
        ("expression: ".toList ++ s ++ []) := .word nofun .nil
    rw [List.append_nil] at hword
    exact .word_append ['\n'] (by decide) (by decide) hword
  exact ⟨_, _, _, hwrites, hspaced, .refl _, (List.intercalate_splitOn '\n').symm⟩

theorem isWritable_expressionSection {s : Text} (h : Document.IsValueText s) :
    Document.IsWritable (expressionSection s) := by
  have htitle : Document.IsName "function".toList := by decide
  have hkey : Document.IsName "expression".toList := by decide
  refine ⟨htitle, List.cons_ne_nil _ _, List.forall_mem_singleton.mpr ?_⟩
  exact ⟨hkey, List.cons_ne_nil _ _, List.forall_mem_singleton.mpr h⟩

/-- **Every expression gives a job**, with the text of its value. -/
theorem ofText_expressionDocument {α : Type} [Scalar α] {s : Text} (h : Document.IsValueText s) :
    (ofText (expressionDocument s) : Except Error (Job α)) =
      .ok ⟨(Document.Value.ofText s : Document.Value α).render, .permissive, none, none, none,
        false⟩ := by
  have hdocument : (Document.ofText (expressionDocument s) : Except Document.Error (Document α)) =
      .ok (.ofSections [expressionSection s]) :=
    Document.ofText_of_isLayout (List.cons_ne_nil _ _)
      (List.forall_mem_singleton.mpr (isWritable_expressionSection h))
      (isLayout_expressionDocument s)
  refine ofText_eq_ok_iff.mpr ⟨_, hdocument, ?_⟩
  rfl

end Job

/-! ### Its meaning -/

namespace Document.Value

/-- Whether the text of a value has the meaning of the text that it was read from. A finite number
must have been spelled with digits, and a point between digits. What is no finite number is written
as an unknown term, and so must have been one, with at most a zero behind a sign in its exponent. -/
def KeepsMeaning (s : Text) : Value Float → Prop
  | .number x =>
    if x.isFinite then isSignedNumber s = true
    else isSignedNumber s = false ∧ ∀ piece ∈ (Expression.pieces s).tail,
      (Scalar.ofText? piece : Option Float).any (· == 0) = true
  | .integer _ | .truth _ | .text _ => True

instance (s : Text) : DecidablePred (KeepsMeaning s)
  | .number x => inferInstanceAs (Decidable (if x.isFinite then _ else _ ∧ ∀ piece ∈ _, _))
  | .integer _ | .truth _ | .text _ => isTrue trivial

theorem sameMeaning_render_iff {s : Text} (hblanks : s.NoBlanks) :
    Expression.SameMeaning Float (ofText s : Value Float).render s ↔
      KeepsMeaning s (ofText s) := by
  unfold ofText
  split
  · next n hn => exact iff_of_true (Expression.sameMeaning_integerText hn) trivial
  · next x _ hx =>
      dsimp only [KeepsMeaning]
      by_cases hfinite : x.isFinite = true
      · rw [if_pos hfinite]
        exact Expression.sameMeaning_iff_isSignedNumber (isSignedNumber_plain hfinite)
          (Binary64.readsBack hfinite) hx hblanks
      · rw [if_neg hfinite]
        rw [Bool.not_eq_true] at hfinite
        exact Expression.sameMeaning_iff_of_mem_notFiniteTexts (plain_mem_notFiniteTexts hfinite)
          hx hblanks
  · by_cases htrue : (s == "true".toList) = true
    · rw [if_pos htrue]
      rw [beq_iff_eq] at htrue
      subst htrue
      exact iff_of_true (.refl _) trivial
    · rw [if_neg htrue]
      by_cases hfalse : (s == "false".toList) = true
      · rw [if_pos hfalse]
        rw [beq_iff_eq] at hfalse
        subst hfalse
        exact iff_of_true (.refl _) trivial
      · rw [if_neg hfalse]
        exact iff_of_true (.refl _) trivial

end Document.Value

namespace Job

open Document.Value (KeepsMeaning)

/-- **The expression of a job.** Every text without blanks, `,` and `;` gives a job with an
expression. It has the meaning of the text exactly when the text is spelled as its value is kept. -/
theorem exists_job_sameMeaning_iff {s : Text} (h : Document.IsValueText s) :
    ∃ t, (ofText (expressionDocument s) : Except Error (Job Float)) =
        .ok ⟨t, .permissive, none, none, none, false⟩ ∧
      (Expression.SameMeaning Float t s ↔ KeepsMeaning s (.ofText s)) := by
  refine ⟨_, ofText_expressionDocument h, Document.Value.sameMeaning_render_iff ?_⟩
  exact fun c hc => (h.visible c hc).1

/-- A number with a sign and zeros that are not printed. -/
theorem exists_job_sameMeaning_signed :
    Document.IsValueText "+02.50".toList ∧
      ∃ t, (ofText (expressionDocument "+02.50".toList) : Except Error (Job Float)) =
          .ok ⟨t, .permissive, none, none, none, false⟩ ∧
        Expression.SameMeaning Float t "+02.50".toList := by
  have htext : Document.IsValueText "+02.50".toList := by decide
  obtain ⟨t, hjob, hmeaning⟩ := exists_job_sameMeaning_iff htext
  exact ⟨htext, t, hjob, hmeaning.mpr (by decide +kernel)⟩

/-- An unknown term, which counts nothing and is refused in strict mode, becomes a constant. -/
theorem not_sameMeaning_exponent :
    Document.IsValueText "1e3".toList ∧
      (ofText (expressionDocument "1e3".toList) : Except Error (Job Float)) =
        .ok ⟨"1000".toList, .permissive, none, none, none, false⟩ ∧
      (Expression.ofText "1000".toList).eval (2 : Float) = 1000 ∧
      (Expression.ofText "1e3".toList).eval (2 : Float) = 0 ∧
      Expression.ofTextStrict "1000".toList = .ok (⟨[.constant 1000]⟩ : Expression Float) ∧
      (Expression.ofTextStrict "1e3".toList : Except ParseError (Expression Float)) =
        .error (.unrecognizedTerm "1e3".toList 0) ∧
      ¬Expression.SameMeaning Float "1000".toList "1e3".toList := by
  have htext : Document.IsValueText "1e3".toList := by decide
  have hprinted : (Document.Value.ofText "1e3".toList : Document.Value Float).render =
      "1000".toList := by decide +kernel
  have hstrict : Expression.ofTextStrict "1000".toList =
      .ok (⟨[.constant 1000]⟩ : Expression Float) := by decide +kernel
  have hrefused : (Expression.ofTextStrict "1e3".toList : Except ParseError (Expression Float)) =
      .error (.unrecognizedTerm "1e3".toList 0) := by decide +kernel
  refine ⟨htext, ?_, by decide +kernel, by decide +kernel, hstrict, hrefused, ?_⟩
  · rw [ofText_expressionDocument htext, hprinted]
  · intro hsame
    obtain ⟨e, he⟩ := hsame.strict.mp ⟨_, hstrict⟩
    rw [hrefused] at he
    cases he

end Job

end Univariate
