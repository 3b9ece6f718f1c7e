import Univariate.Proofs.Expression.FromText
import Univariate.Proofs.Expression.Grammar
import Univariate.Proofs.Expression.Groups
import Univariate.Proofs.Expression.Negation

/-!
# Adjacent signs

Of two signs in a row the first is a piece of its own, which has no leaf, and the second belongs to
what follows it. The last sign alone decides: two minus signs subtract, and a plus after a minus
adds.
-/

namespace Univariate

open Scalar (LawfulFactor)

namespace Exact

variable {E : Elementary}

theorem add_assoc (x y z : Exact E) : x + y + z = x + (y + z) := by
  cases x <;> cases y <;> cases z <;> try rfl
  simp [Rat.add_assoc]

theorem add_negativeZero (x : Exact E) : x + Scalar.negativeZero = x := by
  rw [negativeZero_eq]
  cases x <;> try rfl
  simp

theorem sub_eq_add_neg (x y : Exact E) : x - y = x + -y := by
  cases x <;> cases y <;> try rfl
  simp [Rat.sub_eq_add_neg]

theorem sum_append (values others : List (Exact E)) :
    Scalar.sum (values ++ others) = Scalar.sum values + Scalar.sum others := by
  have hfold : ∀ (others : List (Exact E)) (x y : Exact E),
      others.foldl (· + ·) (x + y) = x + others.foldl (· + ·) y := by
    intro others
    induction others with
    | nil => exact fun _ _ => rfl
    | cons v others ih =>
        intro x y
        rw [List.foldl_cons, List.foldl_cons, add_assoc, ih]
  unfold Scalar.sum
  rw [List.foldl_append, ← hfold, add_negativeZero]

end Exact

variable {α : Type} [Scalar α]

namespace Summand

/-- One term or one group, with no sign in front. -/
structure IsUnsignedPiece (t : Text) : Prop where
  whole : split t = [t]
  unsigned : startsSigned t = false

theorem IsUnsignedPiece.isPiece {t : Text} (h : IsUnsignedPiece t) : IsPiece t := by
  apply isPiece_of_mem_split (t := t)
  rw [h.whole]
  exact List.mem_singleton_self t

/-- The first of the two signs is dropped. -/
theorem expand_split_append_signs {u : Text} (hu : IsCutAfter u) (first last : Sign) (v : Text) :
    (expand (split (u ++ first.char :: last.char :: v)) : List (α × Text)) =
      expand (split u) ++ expand (split (last.char :: v)) := by
  have hlone : split ([first.char] ++ last.char :: v) = [first.char] :: split (last.char :: v) :=
    split_append (isPiece_char first) (.inr ⟨last.isSign_char, isCutAfter_char first⟩)
  rw [List.singleton_append] at hlone
  have hstarts : startsSigned (first.char :: last.char :: v) = true := first.isSign_char
  rw [expand_split_append (.inr hu) hstarts, hlone]
  congr 1
  rw [expand, List.flatMap_cons, leaves_lone, List.nil_append, expand]

theorem IsUnsignedPiece.split_sign_cons {t : Text} (h : IsUnsignedPiece t) (sign : Sign) :
    split (sign.char :: t) = [sign.char :: t] := by
  apply split_of_isPiece
  change Uncut (depthAfter 0 sign.char) sign.char t
  rw [depthAfter_of_isSign sign.isSign_char]
  cases t with
  | nil => exact h.isPiece.elim
  | cons c rest => exact ⟨cuts_of_not_isSign h.unsigned _ _, h.isPiece⟩

variable [LawfulFactor α]

theorem leaves_sign_cons {t : Text} (hblanks : t.NoBlanks) (hunsigned : startsSigned t = false)
    (sign : Sign) (outer : α) :
    leaves outer (sign.char :: t) = leaves (outer * sign.factor) t := by
  have hsigned : (Sign.text (some sign) ++ t).NoBlanks := by simp [Sign.text, hblanks]
  have htaken : takeSign (α := α) (sign.char :: t) = (sign.factor, t) :=
    takeSign_append hsigned hunsigned
  have hplain : (Sign.text none ++ t).NoBlanks := hblanks
  have hbare : takeSign (α := α) t = (1, t) := takeSign_append hplain hunsigned
  rw [leaves_eq, leaves_eq _ t, htaken, hbare, LawfulFactor.mul_one]

/-- A sign in front is a factor of every leaf. -/
theorem IsUnsignedPiece.expand_sign_cons {t : Text} (h : IsUnsignedPiece t) (hblanks : t.NoBlanks)
    (sign : Sign) :
    (expand (split (sign.char :: t)) : List (α × Text)) = leaves sign.factor t := by
  rw [h.split_sign_cons, expand, List.flatMap_singleton, leaves_sign_cons hblanks h.unsigned,
    LawfulFactor.one_mul]

end Summand

namespace Expression

open Summand

theorem withoutBlanks_append_signs (first last : Sign) (u v : Text) :
    (u ++ first.char :: last.char :: v).withoutBlanks =
      u.withoutBlanks ++ first.char :: last.char :: v.withoutBlanks := by
  simp [Text.withoutBlanks]

section

variable [LawfulFactor α]

theorem terms_ofText_append_signs {u v : Text} (hu : IsCutAfter u.withoutBlanks)
    (hv : IsUnsignedPiece v.withoutBlanks) (first last : Sign) :
    (ofText (u ++ first.char :: last.char :: v) : Expression α).terms =
      (ofText u).terms ++ (ofText v).terms.map (Term.scaled last.factor) := by
  have hblanks := Text.noBlanks_withoutBlanks v
  unfold ofText pieces ofPieces
  dsimp only
  rw [withoutBlanks_append_signs, expand_split_append_signs hu, List.map_append, List.map_map,
    hv.expand_sign_cons hblanks]
  congr 1
  have hleaves : (leaves 1 v.withoutBlanks : List (α × Text)) = expand (split v.withoutBlanks) := by
    rw [hv.whole, expand, List.flatMap_singleton]
  cases last with
  | plus =>
      change (leaves 1 v.withoutBlanks).map _ = _
      rw [hleaves]
      exact List.map_congr_left fun leaf _ => (Term.scaled_one _).symm
  | minus =>
      change (leaves (-1) v.withoutBlanks).map _ = _
      rw [leaves_neg, List.map_map, hleaves]
      exact List.map_congr_left fun leaf hleaf => scaled_neg_of_mem_expand hblanks hleaf

theorem balanced_append_signs {u v : Text} (hu : u.balanced = true) (hv : v.balanced = true)
    (first last : Sign) : (u ++ first.char :: last.char :: v).balanced = true := by
  rw [Text.balanced_iff] at hu hv ⊢
  exact hu.append ((hv.sign_cons last).sign_cons first)

/-- Strict reading accepts two signs in a row. -/
theorem ofTextStrict_append_signs {u v : Text} {e e' : Expression α} (hu : ofTextStrict u = .ok e)
    (hv : ofTextStrict v = .ok e') (hcaret : u.withoutBlanks.getLast? ≠ some '^')
    (hpiece : IsUnsignedPiece v.withoutBlanks) (first last : Sign) :
    ofTextStrict (u ++ first.char :: last.char :: v) =
      .ok ⟨e.terms ++ e'.terms.map (Term.scaled last.factor)⟩ := by
  obtain ⟨hbalanced, hknown, rfl⟩ := ofTextStrict_eq_ok.mp hu
  obtain ⟨hbalanced', hknown', rfl⟩ := ofTextStrict_eq_ok.mp hv
  have hcut : IsCutAfter u.withoutBlanks :=
    ⟨depthThrough_of_closes (Text.balanced_iff.mp hbalanced) 0, hcaret⟩
  rw [ofTextStrict_eq_ok]
  refine ⟨?_, ?_, ?_⟩
  · rw [withoutBlanks_append_signs]
    exact balanced_append_signs hbalanced hbalanced' first last
  · intro term hterm
    rcases List.mem_append.mp hterm with hterm | hterm
    · exact hknown term hterm
    · obtain ⟨term', hterm', rfl⟩ := List.mem_map.mp hterm
      rw [Term.isUnrecognized_scaled]
      exact hknown' term' hterm'
  · rw [← terms_ofText_append_signs hcut hpiece]

end

section Exact

variable {E : Elementary}

theorem evalText_eq_eval (t : Text) (x : Exact E) : evalText t x = (ofText t).eval x :=
  Exact.agree_iff.mp (agree_evalPieces (pieces t) x)

theorem eval_append (terms others : List (Term (Exact E))) (x : Exact E) :
    eval ⟨terms ++ others⟩ x = eval ⟨terms⟩ x + eval ⟨others⟩ x := by
  unfold eval
  rw [List.map_append, Exact.sum_append]

theorem eval_map_scaled (terms : List (Term (Exact E))) (sign : Sign) (x : Exact E) :
    eval ⟨terms.map (Term.scaled sign.factor)⟩ x = sign.factor * eval ⟨terms⟩ x := by
  cases sign with
  | plus =>
      change eval ⟨terms.map (Term.scaled 1)⟩ x = 1 * _
      rw [List.map_congr_left fun t _ => t.scaled_one, List.map_id', Exact.one_mul]
  | minus =>
      change eval ⟨terms.map (Term.scaled (-1))⟩ x = -1 * _
      have hopposite : Opposite ⟨terms⟩ ⟨terms.map (Term.scaled (-1))⟩ := by
        refine List.forall₂_map_right_iff.mpr (List.forall₂_same.mpr fun t _ => ?_)
        have h := Term.Opposite.scaled t 1
        rwa [Term.scaled_one] at h
      rw [hopposite.eval_eq, LawfulFactor.neg_one_mul]

/-- **The last of two signs decides.** Strict reading accepts a term or a group after two signs, and
the value follows the second sign whatever the first one is. -/
theorem evalText_append_signs {u v : Text} {e e' : Expression (Exact E)}
    (hu : ofTextStrict u = .ok e) (hv : ofTextStrict v = .ok e')
    (hcaret : u.withoutBlanks.getLast? ≠ some '^') (hpiece : IsUnsignedPiece v.withoutBlanks)
    (first : Sign) :
    (∀ last : Sign, ∃ e'' : Expression (Exact E),
        ofTextStrict (u ++ [first.char, last.char] ++ v) = .ok e'') ∧
      ∀ x : Exact E,
        evalText (u ++ [first.char, '-'] ++ v) x = evalText u x - evalText v x ∧
          evalText (u ++ [first.char, '+'] ++ v) x = evalText u x + evalText v x := by
  have hsigns : ∀ last : Sign, u ++ [first.char, last.char] ++ v =
      u ++ first.char :: last.char :: v := fun last => List.append_assoc ..
  have haccepted := ofTextStrict_append_signs hu hv hcaret hpiece first
  have hvalue : ∀ (last : Sign) (x : Exact E), evalText (u ++ [first.char, last.char] ++ v) x =
      evalText u x + last.factor * evalText v x := by
    intro last x
    rw [hsigns, evalText_eq_eval, evalText_eq_eval, evalText_eq_eval,
      (ofTextStrict_eq_ok.mp hu).2.2, (ofTextStrict_eq_ok.mp hv).2.2,
      (ofTextStrict_eq_ok.mp (haccepted last)).2.2, eval_append, eval_map_scaled]
  refine ⟨fun last => ⟨_, (congrArg _ (hsigns last)).trans (haccepted last)⟩, fun x => ⟨?_, ?_⟩⟩
  · rw [Exact.sub_eq_add_neg, ← LawfulFactor.neg_one_mul]
    exact hvalue .minus x
  · refine (hvalue .plus x).trans ?_
    exact congrArg (evalText u x + ·) (LawfulFactor.one_mul _)

theorem evalText_append_signs_group :
    let u : Text := "x^2 - (3 - x)".toList
    let v : Text := "(2x - 1)".toList
    let x : Exact .rationalPart := 4
    let e : Expression (Exact .rationalPart) := ⟨[.power 1 2, .constant (-3), .linear 1]⟩
    let e' : Expression (Exact .rationalPart) := ⟨[.linear 2, .constant (-1)]⟩
    ofTextStrict u = .ok e ∧ ofTextStrict v = .ok e' ∧
      u.withoutBlanks.getLast? ≠ some '^' ∧ IsUnsignedPiece v.withoutBlanks ∧
      evalText u x = 17 ∧ evalText v x = 7 ∧
      evalText (u ++ ['-', '-'] ++ v) x = 10 ∧ evalText (u ++ ['-', '+'] ++ v) x = 24 := by
  intro u v x e e'
  have hu : ofTextStrict u = .ok e := by decide +kernel
  have hv : ofTextStrict v = .ok e' := by decide +kernel
  have hcaret : u.withoutBlanks.getLast? ≠ some '^' := by decide +kernel
  have hpiece : IsUnsignedPiece v.withoutBlanks := ⟨by decide +kernel, by decide +kernel⟩
  have hfirst : evalText u x = 17 := by decide +kernel
  have hsecond : evalText v x = 7 := by decide +kernel
  obtain ⟨-, hvalue⟩ := evalText_append_signs hu hv hcaret hpiece .minus
  obtain ⟨hminus, hplus⟩ := hvalue x
  refine ⟨hu, hv, hcaret, hpiece, hfirst, hsecond, hminus.trans ?_, hplus.trans ?_⟩
  · rw [hfirst, hsecond]
    decide +kernel
  · rw [hfirst, hsecond]
    decide +kernel

/-- Two minus signs make no plus, and a minus and a plus make no minus. -/
theorem not_rule_of_signs :
    let u : Text := ['x']
    let v : Text := ['2']
    let x : Exact .rationalPart := 5
    let e : Expression (Exact .rationalPart) := ⟨[.linear 1]⟩
    let e' : Expression (Exact .rationalPart) := ⟨[.constant 2]⟩
    ofTextStrict u = .ok e ∧ ofTextStrict v = .ok e' ∧ u.withoutBlanks.getLast? = some 'x' ∧
      IsUnsignedPiece v.withoutBlanks ∧
      evalText (u ++ ['-', '-'] ++ v) x ≠ evalText u x + evalText v x ∧
      evalText (u ++ ['-', '+'] ++ v) x ≠ evalText u x - evalText v x := by
  refine ⟨?_, ?_, ?_, ⟨?_, ?_⟩, ?_, ?_⟩ <;> decide +kernel

end Exact

end Expression

end Univariate
