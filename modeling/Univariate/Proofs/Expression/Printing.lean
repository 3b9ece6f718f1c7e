import Univariate.Proofs.Expression.Grammar
import Univariate.Proofs.Scalar.Binary64
import Univariate.Proofs.Scalar.Binary64.Printing
import Univariate.Proofs.Term.Printing

/-!
# Printed expressions

The text of an expression is a written sum, one atom for each term that is not zero. The sign of the
first atom is its own; the sign of every later one is the operator before it.
-/

namespace Univariate

variable {α : Type} [Scalar α]

namespace Term

theorem joinTexts_cons {t : Text} (ht : t ≠ []) (texts : List Text) :
    joinTexts (t :: texts) = t ++ texts.flatMap joined := by
  have hfold : ∀ (texts : List Text) {sum : Text}, sum ≠ [] →
      texts.foldl (fun sum t => if sum.isEmpty then t else sum ++ joined t) sum =
        sum ++ texts.flatMap joined := by
    intro texts
    induction texts with
    | nil => simp
    | cons u texts ih =>
        intro sum hsum
        rw [List.foldl_cons, if_neg (by simpa using hsum), ih (by simp [hsum]), List.flatMap_cons,
          List.append_assoc]
  exact hfold texts ht

theorem IsWrittenAs.text_ne_nil {sign : Sign} {body : Text} {t : Term α}
    (h : t.IsWrittenAs sign body) : t.text ≠ [] := by
  rw [h.text]
  exact List.append_ne_nil_of_right_ne_nil _ h.atom.ne_nil

theorem IsWrittenAs.withoutBlanks_text {sign : Sign} {body : Text} {t : Term α}
    (h : t.IsWrittenAs sign body) : t.text.withoutBlanks = Sign.text sign.leading ++ body := by
  have hsign : (Sign.text sign.leading).NoBlanks := by
    cases sign with
    | plus => exact Text.noBlanks_nil
    | minus => exact Text.noBlanks_cons.mpr ⟨by decide, Text.noBlanks_nil⟩
  rw [h.text]
  exact (Text.noBlanks_append.mpr ⟨hsign, h.noBlanks⟩).withoutBlanks_eq

/-- After another term the sign is always there. -/
theorem IsWrittenAs.withoutBlanks_joined {sign : Sign} {body : Text} {t : Term α}
    (h : t.IsWrittenAs sign body) : (joined t.text).withoutBlanks = sign.char :: body := by
  have hbody := h.noBlanks.withoutBlanks_eq
  rw [h.text]
  cases sign with
  | plus =>
      obtain ⟨c, rest, rfl⟩ := List.exists_cons_of_ne_nil h.atom.ne_nil
      have hc : Summand.isSign c = false := h.atom.unsigned
      have hjoined : joined (c :: rest) = [' ', '+', ' '] ++ (c :: rest) := by
        unfold joined
        split
        · next heq => simp_all [Summand.isSign]
        · rfl
      change (joined (c :: rest)).withoutBlanks = _
      rw [hjoined, Text.withoutBlanks_append, hbody]
      rfl
  | minus =>
      change Text.withoutBlanks ([' ', '-', ' '] ++ body) = _
      rw [Text.withoutBlanks_append, hbody]
      rfl

/-- The terms that the text of a sum shows: those that are not zero, or a zero. -/
def shown (terms : List (Term α)) : List (Term α) :=
  let kept := terms.filter (!·.isZero)
  if kept.isEmpty then [.constant 0] else kept

variable [Scalar.LawfulSign α]

/-- The terms after the first are a sum in which every item has its sign. -/
theorem exists_signedSum {terms : List (Term α)}
    (h : ∀ t ∈ terms, ∃ sign body, t.IsWrittenAs sign body) :
    ∃ s : WrittenSum, s.IsWellFormed α ∧ s.IsSigned ∧
      s.text = Text.withoutBlanks ((terms.map text).flatMap joined) ∧
        List.Forall₂ Same s.terms terms := by
  induction terms with
  | nil => exact ⟨.nil, trivial, trivial, rfl, .nil⟩
  | cons t terms ih =>
      obtain ⟨sign, body, ht⟩ := h t List.mem_cons_self
      obtain ⟨rest, hrest, hsigned, htext, hsame⟩ := ih fun t ht => h t (List.mem_cons_of_mem _ ht)
      refine ⟨.atom (some sign) body rest, ⟨ht.atom, fun hlast => absurd hlast ht.last, hsigned,
        hrest⟩, rfl, ?_, .cons ?_ hsame⟩
      · rw [List.map_cons, List.flatMap_cons, Text.withoutBlanks_append, ht.withoutBlanks_joined,
          ← htext]
        rfl
      · change ((ofText body).scaled (Sign.product [sign])).Same t
        rw [Sign.product_singleton]
        exact ht.same

theorem exists_sum {terms : List (Term α)} (hne : terms ≠ [])
    (h : ∀ t ∈ terms, ∃ sign body, t.IsWrittenAs sign body) :
    ∃ s : WrittenSum, s.IsWellFormed α ∧ s.text = (joinTexts (terms.map text)).withoutBlanks ∧
      List.Forall₂ Same s.terms terms := by
  obtain ⟨t, terms, rfl⟩ := List.exists_cons_of_ne_nil hne
  obtain ⟨sign, body, ht⟩ := h t List.mem_cons_self
  obtain ⟨rest, hrest, hsigned, htext, hsame⟩ :=
    exists_signedSum fun t ht => h t (List.mem_cons_of_mem _ ht)
  refine ⟨.atom sign.leading body rest, ⟨ht.atom, fun hlast => absurd hlast ht.last, hsigned,
    hrest⟩, ?_, .cons ?_ hsame⟩
  · rw [List.map_cons, joinTexts_cons ht.text_ne_nil, Text.withoutBlanks_append,
      ht.withoutBlanks_text, ← htext]
    rfl
  · have hsign : sign.leading.getD .plus = sign := by cases sign <;> rfl
    change ((ofText body).scaled (Sign.product [sign.leading.getD .plus])).Same t
    rw [hsign, Sign.product_singleton]
    exact ht.same

theorem exists_zeroSum : ∃ s : WrittenSum, s.IsWellFormed α ∧ s.text = ['0'] ∧
    List.Forall₂ Same s.terms [(.constant 0 : Term α)] := by
  have hzero : ((0 : α) == 0) = true := Scalar.LawfulSign.beq_self Scalar.LawfulSign.isFinite_zero
  refine ⟨.atom none ['0'] .nil, ⟨⟨rfl, rfl⟩, fun _ => rfl, trivial, trivial⟩, rfl, .cons ?_ .nil⟩
  change ((0 : α) * Sign.product [.plus] == 0) = true
  rw [Sign.product_singleton, Sign.factor, Scalar.LawfulSign.mul_one]
  exact hzero

end Term

namespace Expression

def numbers (e : Expression α) : List α := e.terms.flatMap Term.numbers

theorem isRead_nthDerivative {e : Expression α} (h : ∀ t ∈ e.terms, t.IsRead) (n : Nat) :
    ∀ t ∈ (e.nthDerivative n).terms, t.IsRead := by
  induction n generalizing e with
  | zero => exact h
  | succ n ih =>
      apply ih
      intro t ht
      obtain ⟨u, hu, rfl⟩ := List.mem_map.mp ht
      exact (h u hu).derivative

variable [Scalar.LawfulSign α]

theorem exists_ofTextStrict_text_eq {e : Expression α} (hread : ∀ t ∈ e.terms, t.IsRead)
    (hnumbers : ∀ x ∈ e.numbers, Scalar.Prints x) :
    ∃ e' : Expression α, ofTextStrict e.text = .ok e' ∧
      List.Forall₂ Term.Same e'.terms (Term.shown e.terms) := by
  have hwritten : ∀ t ∈ e.terms.filter (!·.isZero), ∃ sign body, t.IsWrittenAs sign body := by
    intro t ht
    obtain ⟨ht, hzero⟩ := List.mem_filter.mp ht
    exact Term.exists_isWrittenAs (hread t ht) (by simpa using hzero)
      fun x hx => hnumbers x (List.mem_flatMap.mpr ⟨t, ht, hx⟩)
  unfold text Term.sumText Term.shown
  dsimp only
  by_cases hnone : e.terms.filter (!·.isZero) = []
  · rw [hnone]
    obtain ⟨s, hs, htext, hsame⟩ := Term.exists_zeroSum (α := α)
    exact ⟨⟨s.terms⟩, ofTextStrict_of_writtenSum hs htext, hsame⟩
  · obtain ⟨s, hs, htext, hsame⟩ := Term.exists_sum hnone hwritten
    have hne : (Term.joinTexts ((e.terms.filter (!·.isZero)).map Term.text)).isEmpty = false := by
      obtain ⟨t, terms, hkept⟩ := List.exists_cons_of_ne_nil hnone
      obtain ⟨sign, body, ht⟩ := hwritten t (hkept ▸ List.mem_cons_self)
      rw [hkept, List.map_cons, Term.joinTexts_cons ht.text_ne_nil, List.isEmpty_eq_false_iff]
      exact List.append_ne_nil_of_left_ne_nil ht.text_ne_nil _
    rw [if_neg (by simp [hne]), if_neg (by simpa using hnone)]
    exact ⟨⟨s.terms⟩, ofTextStrict_of_writtenSum hs htext, hsame⟩

/-- **Printed derivatives read back.** The text of a derivative of a strictly read sum is read
strictly again, as the terms that are not zero. -/
theorem exists_ofTextStrict_text_nthDerivative (t : Text) (n : Nat) (e : Expression Float)
    (h : ofTextStrict t = .ok e)
    (hfinite : ∀ x ∈ (e.nthDerivative n).numbers, Scalar.isFinite x = true) :
    ∃ e' : Expression Float, ofTextStrict (e.nthDerivative n).text = .ok e' ∧
      List.Forall₂ Term.Same e'.terms (Term.shown (e.nthDerivative n).terms) :=
  exists_ofTextStrict_text_eq (isRead_nthDerivative (isRead_of_ofTextStrict h) n)
    fun x hx => ⟨hfinite x hx, Binary64.readsBack (hfinite x hx)⟩

theorem ofTextStrict_text_derivative_cubic : ∃ e e' : Expression Float,
    ofTextStrict "-2.5x^3 - (0.5e^(2x) - sin(x)) + 7".toList = .ok e ∧
      (e.nthDerivative 1).text = "-7.5x^2 - 0.5e^(2x) + cos(x)".toList ∧
        ofTextStrict (e.nthDerivative 1).text = .ok e' ∧
          List.Forall₂ Term.Same e'.terms (Term.shown (e.nthDerivative 1).terms) := by
  have hread : ofTextStrict "-2.5x^3 - (0.5e^(2x) - sin(x)) + 7".toList =
      .ok (ofText "-2.5x^3 - (0.5e^(2x) - sin(x)) + 7".toList : Expression Float) := by
    decide +kernel
  obtain ⟨e', he', hsame⟩ := exists_ofTextStrict_text_nthDerivative _ 1 _ hread
    (by decide +kernel)
  exact ⟨_, e', hread, by decide +kernel, he', hsame⟩

end Expression

end Univariate
