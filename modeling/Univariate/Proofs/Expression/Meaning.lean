import Univariate.Proofs.Expression.Number
import Univariate.Proofs.Numeral.Positional
import Univariate.Proofs.Scalar.Binary64.Printing

/-!
# Expressions of the same meaning

What a number means as an expression does not depend on its value alone: printed again it is spelled
with digits, and a point between digits, or it is a word that is no term.
-/

namespace Univariate

open Scalar (Agree LawfulAgree LawfulFactor LawfulSign)

variable {α : Type} [Scalar α]

/-! ### Printed numbers -/

theorem isSignedNumber_integerText (n : Int) : isSignedNumber (Numeral.integerText n) = true := by
  have hdigits := Numeral.isDigits_naturalText n.natAbs
  unfold Numeral.integerText
  by_cases hneg : n < 0
  · rw [if_pos hneg]
    exact isSignedNumber_sign_append (some .minus) (.whole hdigits)
  · rw [if_neg hneg]
    exact isSignedNumber_sign_append none (.whole hdigits)

/-- Only the sign of a zero is lost with an integer. -/
theorem Scalar.agree_ofInt [LawfulSign α] [LawfulAgree α] (negative : Bool) (digits : Nat) :
    Agree (ofInt (if negative then -(digits : Int) else digits) : α)
      (ofNumeral (.decimal negative digits 0)) := by
  cases negative with
  | false => exact LawfulAgree.refl (α := α) _
  | true =>
      cases digits with
      | zero =>
          have hzero : Agree (-0 : α) 0 := LawfulAgree.neg_zero
          rw [LawfulSign.ofNumeral_decimal_true]
          exact hzero.imp And.symm fun h => (LawfulSign.beq_comm ..).trans h
      | succ digits =>
          have hneg : -((digits + 1 : Nat) : Int) < 0 := Int.negSucc_lt_zero digits
          have hnumeral : Numeral.ofInt (-(digits + 1 : Nat) : Int) =
              .decimal true (digits + 1) 0 := by
            rw [Numeral.ofInt, decide_eq_true hneg]
            rfl
          change Agree (ofNumeral (Numeral.ofInt (-(digits + 1 : Nat) : Int)) : α) _
          rw [hnumeral]
          exact LawfulAgree.refl _

theorem isSignedNumber_plain {x : Float} (h : x.isFinite = true) :
    isSignedNumber (Scalar.plain x) = true := by
  obtain ⟨sign, k, -, hplain, hk, -, -⟩ := exists_plain_eq ⟨h, Binary64.readsBack h⟩
  rw [hplain]
  exact isSignedNumber_sign_append sign.leading hk

/-- How values that are not finite are written. -/
def notFiniteTexts : List Text := ["NaN".toList, "inf".toList, "-inf".toList]

theorem plain_mem_notFiniteTexts {x : Float} (h : x.isFinite = false) :
    Scalar.plain x ∈ notFiniteTexts := by
  change (Binary64.toNumeral x).plain ∈ notFiniteTexts
  unfold Binary64.toNumeral
  rw [h]
  by_cases hnan : x.isNaN = true
  · rw [if_pos hnan]
    decide
  · rw [if_neg hnan]
    dsimp only
    rw [if_neg Bool.false_ne_true]
    cases (Binary64.parts x).negative <;> decide

/-! ### Expressions of the same meaning -/

namespace Expression

/-- The same values, and both or neither in strict mode. -/
structure SameMeaning (α : Type) [Scalar α] (t u : Text) : Prop where
  agree : ∀ x : α, Agree ((ofText t).eval x) ((ofText u).eval x)
  strict : (∃ e : Expression α, ofTextStrict t = .ok e) ↔ ∃ e : Expression α, ofTextStrict u = .ok e

theorem SameMeaning.refl [LawfulAgree α] (t : Text) : SameMeaning α t t :=
  ⟨fun _ => LawfulAgree.refl _, Iff.rfl⟩

variable [LawfulSign α] [LawfulFactor α] {t u : Text} {x y : α}

theorem sameMeaning_of_isSignedNumber [LawfulAgree α] (ht : isSignedNumber t = true)
    (hu : isSignedNumber u = true) (hx : Scalar.ofText? t = some x)
    (hy : Scalar.ofText? u = some y) (h : Agree x y) : SameMeaning α t u where
  agree _ := by
    unfold eval
    rw [terms_ofText_of_isSignedNumber ht hx, terms_ofText_of_isSignedNumber hu hy]
    exact Agree.sum (.cons h .nil)
  strict := iff_of_true (exists_ofTextStrict_of_isSignedNumber ht)
    (exists_ofTextStrict_of_isSignedNumber hu)

theorem not_exists_ofTextStrict_of_not_isSignedNumber (ht : Scalar.ofText? t = some x)
    (hblanks : t.NoBlanks) (hnumber : isSignedNumber t = false) :
    ¬∃ e : Expression α, ofTextStrict t = .ok e := by
  have hmem : ∃ raw, Term.unrecognized raw ∈ (ofText t : Expression α).terms := by
    obtain ⟨raw, ⟨-, hterms⟩ | ⟨_, _, -, -, hterms⟩⟩ :=
      terms_ofText_of_not_isSignedNumber ht hblanks hnumber
    · exact ⟨raw, hterms ▸ List.mem_cons_self⟩
    · exact ⟨raw, hterms ▸ List.mem_cons_self⟩
  rintro ⟨e, he⟩
  obtain ⟨raw, hmem⟩ := hmem
  exact ofTextStrict_ne_ok_of_unrecognized hmem e he

/-- Beside a signed number that reads as the same value. -/
theorem sameMeaning_iff_isSignedNumber [LawfulAgree α] (ht : isSignedNumber t = true)
    (hx : Scalar.ofText? t = some x) (hu : Scalar.ofText? u = some x) (hblanks : u.NoBlanks) :
    SameMeaning α t u ↔ isSignedNumber u = true := by
  constructor
  · intro h
    by_contra hnumber
    rw [Bool.not_eq_true] at hnumber
    exact not_exists_ofTextStrict_of_not_isSignedNumber hu hblanks hnumber
      (h.strict.mp (exists_ofTextStrict_of_isSignedNumber ht))
  · intro h
    exact sameMeaning_of_isSignedNumber ht h hx hu (LawfulAgree.refl x)

theorem sameMeaning_integerText [LawfulAgree α] {s : Text} {n : Int}
    (h : Numeral.integer? s = some n) : SameMeaning α (Numeral.integerText n) s := by
  obtain ⟨hdigits, hn⟩ := Numeral.integer?_eq_some h
  obtain ⟨sign, hs, hnegative⟩ := exists_sign_append_takeSign s
  have hvalue : (Scalar.ofText? s : Option α) =
      some (Scalar.ofNumeral (.decimal s.takeSign.1 (Numeral.digitsValue s.takeSign.2) 0)) := by
    have hread := Numeral.ofText?_sign_append sign (.whole hdigits) hdigits.magnitude?_eq
    rw [← hs, ← hnegative] at hread
    exact congrArg (Option.map Scalar.ofNumeral) hread
  have hprinted : (Scalar.ofText? (Numeral.integerText n) : Option α) = some (Scalar.ofInt n) :=
    congrArg (Option.map Scalar.ofNumeral) (Numeral.ofText?_integerText n)
  have hsigned : isSignedNumber s = true := isSignedNumber_iff.mpr (.whole hdigits)
  rw [hn] at hprinted ⊢
  exact sameMeaning_of_isSignedNumber (isSignedNumber_integerText _) hsigned hprinted hvalue
    (Scalar.agree_ofInt _ _)

/-! ### Values that are not finite -/

/-- Behind an unknown first piece only the rest of the exponent counts. -/
theorem eval_of_not_isSignedNumber {t : Text} {x : Float} (h : Scalar.ofText? t = some x)
    (hblanks : t.NoBlanks) (hnumber : isSignedNumber t = false) :
    ((pieces t).tail = [] ∧ ∀ point : Float, (ofText t).eval point = 0) ∨
      ∃ piece y, (pieces t).tail = [piece] ∧ Scalar.ofText? piece = some y ∧
        ∀ point : Float, (ofText t).eval point = 0 + y := by
  have hzero : Scalar.sum [(0 : Float)] = 0 := by decide
  obtain ⟨raw, ⟨htail, hterms⟩ | ⟨piece, y, htail, hpiece, hterms⟩⟩ :=
    terms_ofText_of_not_isSignedNumber h hblanks hnumber
  · refine .inl ⟨htail, fun _ => ?_⟩
    unfold eval
    rw [hterms]
    exact hzero
  · refine .inr ⟨piece, y, htail, hpiece, fun _ => ?_⟩
    unfold eval
    rw [hterms]
    exact congrArg (· + y) hzero

theorem agree_zero_eval_iff {t : Text} {x : Float} (h : Scalar.ofText? t = some x)
    (hblanks : t.NoBlanks) (hnumber : isSignedNumber t = false) :
    (∀ point : Float, Agree 0 ((ofText t).eval point)) ↔
      ∀ piece ∈ (pieces t).tail, (Scalar.ofText? piece : Option Float).any (· == 0) = true := by
  obtain ⟨htail, heval⟩ | ⟨piece, y, htail, hpiece, heval⟩ :=
    eval_of_not_isSignedNumber h hblanks hnumber
  · rw [htail]
    refine iff_of_true (fun point => ?_) nofun
    rw [heval]
    exact LawfulAgree.refl 0
  · have hagree : Agree 0 (0 + y) ↔ (y == 0) = true := by
      rw [← Binary64.zero_beq_zero_add]
      refine ⟨fun hy => hy.resolve_left fun hnan => ?_, .inr⟩
      cases hnan.1
    simp only [heval, htail, hpiece, List.forall_mem_singleton, Option.any_some, hagree,
      forall_const]

/-- Such a text is an unknown term, which counts nothing. -/
theorem sameMeaning_iff_of_mem_notFiniteTexts {t : Text} (ht : t ∈ notFiniteTexts) {x : Float}
    (hu : Scalar.ofText? u = some x) (hblanks : u.NoBlanks) :
    SameMeaning Float t u ↔ isSignedNumber u = false ∧
      ∀ piece ∈ (pieces u).tail, (Scalar.ofText? piece : Option Float).any (· == 0) = true := by
  have hword : ∀ t ∈ notFiniteTexts, (Scalar.ofText? t : Option Float).isSome = true ∧
      t.any Text.isBlank = false ∧ isSignedNumber t = false ∧ (pieces t).tail = [] := by
    decide +kernel
  obtain ⟨hsome, hvisible, htnumber, htail⟩ := hword t ht
  have htblanks : t.NoBlanks := by simpa [Text.NoBlanks] using hvisible
  obtain ⟨y, hy⟩ := Option.isSome_iff_exists.mp hsome
  have hstrict := not_exists_ofTextStrict_of_not_isSignedNumber hy htblanks htnumber
  have hzero : ∀ point : Float, (ofText t).eval point = 0 := by
    obtain ⟨-, heval⟩ | ⟨piece, _, hpiece, -⟩ := eval_of_not_isSignedNumber hy htblanks htnumber
    · exact heval
    · rw [htail] at hpiece
      cases hpiece
  by_cases hnumber : isSignedNumber u = true
  · refine iff_of_false (fun h => hstrict ?_) fun h => Bool.noConfusion (hnumber.symm.trans h.1)
    exact h.strict.mpr (exists_ofTextStrict_of_isSignedNumber hnumber)
  · rw [Bool.not_eq_true] at hnumber
    rw [← agree_zero_eval_iff hu hblanks hnumber]
    constructor
    · intro h
      exact ⟨hnumber, fun point => hzero point ▸ h.agree point⟩
    · rintro ⟨-, h⟩
      refine ⟨fun point => ?_, ?_⟩
      · rw [hzero]
        exact h point
      · exact iff_of_false hstrict
          (not_exists_ofTextStrict_of_not_isSignedNumber hu hblanks hnumber)

end Expression

end Univariate
