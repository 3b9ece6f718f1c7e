import Univariate.Analysis.Integrand
import Univariate.Proofs.Term.Reading

/-!
# Two stars in a term

A term of known shape with two stars in a row is an exponential, and they stand between the brackets
of its argument. With a caret in their place it has the same value, since the leading number of the
argument ends before them.
-/

namespace Univariate

open Text (isDecimalDigit)

namespace Integrand

/-- Stars of the two texts do not meet. -/
theorem caretsForStars_append (u : Text) {v : Text} (hv : v.head? ≠ some '*') :
    caretsForStars (u ++ v) = caretsForStars u ++ caretsForStars v := by
  fun_induction caretsForStars u with
  | case1 rest ih => exact congrArg ('^' :: ·) ih
  | case2 c rest hstars ih =>
      rw [List.cons_append, caretsForStars_cons, ih, List.cons_append]
      rintro rfl
      cases rest with
      | nil => exact hv
      | cons d rest =>
          intro hd
          exact hstars rest rfl (congrArg (· :: rest) (Option.some.inj hd))
  | case3 => rfl

theorem caretsForStars_of_not_infix {t : Text} (h : ¬['*', '*'] <:+: t) : caretsForStars t = t := by
  fun_induction caretsForStars t with
  | case1 rest ih => exact absurd ⟨[], rest, rfl⟩ h
  | case2 c rest _ ih => exact congrArg (c :: ·) (ih fun hrest => h (List.infix_cons hrest))
  | case3 => rfl

theorem caretsForStars_of_not_mem {t : Text} (h : '*' ∉ t) : caretsForStars t = t := by
  apply caretsForStars_of_not_infix
  rintro ⟨u, v, rfl⟩
  simp at h

theorem noBlanks_caretsForStars {t : Text} (h : t.NoBlanks) : (caretsForStars t).NoBlanks := by
  intro c hc
  rcases mem_or_eq_of_mem_caretsForStars hc with hc | rfl
  · exact h c hc
  · exact Text.isBlank_caret

theorem caret_mem_of_caretsForStars_ne {t : Text} (h : caretsForStars t ≠ t) :
    '^' ∈ caretsForStars t := by
  fun_induction caretsForStars t with
  | case1 rest ih => exact List.mem_cons_self
  | case2 c rest _ ih => exact List.mem_cons_of_mem c (ih fun heq => h (congrArg (c :: ·) heq))
  | case3 => exact absurd rfl h

/-- Characters that are neither a star nor a caret can be taken off before or after. -/
theorem takeWhile_caretsForStars {p : Char → Bool} (hstar : p '*' = false) (hcaret : p '^' = false)
    (t : Text) : (caretsForStars t).takeWhile p = t.takeWhile p ∧
      (caretsForStars t).dropWhile p = caretsForStars (t.dropWhile p) := by
  fun_induction caretsForStars t with
  | case1 rest ih =>
      simp only [List.takeWhile_cons, List.dropWhile_cons, hstar, hcaret]
      exact ⟨rfl, rfl⟩
  | case2 c rest hstars ih =>
      have hcons : caretsForStars (c :: rest) = c :: caretsForStars rest := by
        apply caretsForStars_cons
        rintro rfl hhead
        obtain ⟨tail, rfl⟩ := List.head?_eq_some_iff.mp hhead
        exact hstars tail rfl rfl
      cases hc : p c with
      | false =>
          simp only [List.takeWhile_cons, List.dropWhile_cons, hc]
          exact ⟨rfl, hcons.symm⟩
      | true =>
          simp only [List.takeWhile_cons, List.dropWhile_cons, hc, if_true]
          exact ⟨congrArg (c :: ·) ih.1, ih.2⟩
  | case3 => exact ⟨rfl, rfl⟩

theorem not_infix_caretsForStars (t : Text) : ¬['*', '*'] <:+: caretsForStars t := by
  fun_induction caretsForStars t with
  | case1 rest ih =>
      rw [List.infix_cons_iff, not_or]
      refine ⟨fun hprefix => ?_, ih⟩
      obtain ⟨hstar, -⟩ := List.cons_prefix_cons.mp hprefix
      exact absurd hstar (by decide)
  | case2 c rest hstars ih =>
      rw [List.infix_cons_iff, not_or]
      refine ⟨fun hprefix => ?_, ih⟩
      obtain ⟨rfl, hrest⟩ := List.cons_prefix_cons.mp hprefix
      have hhead : rest.head? ≠ some '*' := by
        intro hhead
        obtain ⟨tail, rfl⟩ := List.head?_eq_some_iff.mp hhead
        exact hstars tail rfl rfl
      apply head?_caretsForStars_ne (by decide) hhead
      obtain ⟨tail, htail⟩ := hrest
      rw [← htail]
      rfl
  | case3 => simp

theorem startsSigned_caretsForStars (t : Text) :
    Summand.startsSigned (caretsForStars t) = Summand.startsSigned t := by
  fun_cases caretsForStars t <;> rfl

end Integrand

open Integrand

namespace Coefficient

/-- Digits, and digits after an optional point. -/
def spanUnsigned (isDigit : Char → Bool) (t : Text) : Text × Text :=
  match t.dropWhile isDigit with
  | '.' :: rest => (t.takeWhile isDigit ++ '.' :: rest.takeWhile isDigit, rest.dropWhile isDigit)
  | rest => (t.takeWhile isDigit, rest)

theorem spanUnsigned_of_point {isDigit : Char → Bool} {t rest : Text}
    (h : t.dropWhile isDigit = '.' :: rest) :
    spanUnsigned isDigit t =
      (t.takeWhile isDigit ++ '.' :: rest.takeWhile isDigit, rest.dropWhile isDigit) := by
  unfold spanUnsigned
  rw [h]
  rfl

theorem spanUnsigned_of_no_point {isDigit : Char → Bool} {t : Text}
    (h : (t.dropWhile isDigit).head? ≠ some '.') :
    spanUnsigned isDigit t = (t.takeWhile isDigit, t.dropWhile isDigit) := by
  unfold spanUnsigned
  split
  · next hrest =>
      rw [hrest] at h
      exact absurd rfl h
  · rfl

theorem span_cons (isDigit : Char → Bool) (c : Char) (t : Text) :
    span isDigit (c :: t) =
      if Summand.isSign c then
        (c :: (spanUnsigned isDigit t).1, (spanUnsigned isDigit t).2)
      else spanUnsigned isDigit (c :: t) := by
  unfold span spanUnsigned Summand.isSign
  dsimp only
  by_cases hsign : (c == '+' || c == '-') = true
  · simp only [hsign, if_true]
    rw [List.length_singleton, List.drop_succ_cons, List.drop_zero]
    split <;> simp_all
  · simp only [hsign]
    simp only [Bool.false_eq_true, if_false, List.length_nil, List.drop_zero, List.nil_append]
    split <;> simp_all

theorem span_of_not_startsSigned (isDigit : Char → Bool) {t : Text}
    (h : Summand.startsSigned t = false) : span isDigit t = spanUnsigned isDigit t := by
  cases t with
  | nil => rfl
  | cons c t =>
      change Summand.isSign c = false at h
      rw [span_cons, h]
      rfl

variable {isDigit : Char → Bool}

theorem spanUnsigned_caretsForStars (hstar : isDigit '*' = false) (hcaret : isDigit '^' = false)
    (t : Text) : spanUnsigned isDigit (caretsForStars t) =
      ((spanUnsigned isDigit t).1, caretsForStars (spanUnsigned isDigit t).2) := by
  obtain ⟨htake, hdrop⟩ := takeWhile_caretsForStars hstar hcaret t
  by_cases hpoint : (t.dropWhile isDigit).head? = some '.'
  · obtain ⟨rest, hrest⟩ := List.head?_eq_some_iff.mp hpoint
    obtain ⟨htakeRest, hdropRest⟩ := takeWhile_caretsForStars hstar hcaret rest
    rw [hrest, caretsForStars_cons_of_ne (by decide)] at hdrop
    rw [spanUnsigned_of_point hdrop, spanUnsigned_of_point hrest, htake, htakeRest, hdropRest]
  · have hpoint' : ((caretsForStars t).dropWhile isDigit).head? ≠ some '.' := by
      rw [hdrop]
      exact head?_caretsForStars_ne (by decide) hpoint
    rw [spanUnsigned_of_no_point hpoint', spanUnsigned_of_no_point hpoint, htake, hdrop]

theorem span_caretsForStars (hstar : isDigit '*' = false) (hcaret : isDigit '^' = false)
    (t : Text) : span isDigit (caretsForStars t) =
      ((span isDigit t).1, caretsForStars (span isDigit t).2) := by
  have hunsigned := spanUnsigned_caretsForStars hstar hcaret
  by_cases hsign : Summand.startsSigned t = true
  · obtain ⟨c, t, rfl⟩ := List.exists_cons_of_ne_nil (l := t) (by rintro rfl; cases hsign)
    have hc : c ≠ '*' := by
      rintro rfl
      cases hsign
    change Summand.isSign c = true at hsign
    rw [caretsForStars_cons_of_ne hc, span_cons, span_cons, if_pos hsign, if_pos hsign, hunsigned]
  · rw [Bool.not_eq_true] at hsign
    have hsign' := startsSigned_caretsForStars t ▸ hsign
    rw [span_of_not_startsSigned isDigit hsign, span_of_not_startsSigned isDigit hsign', hunsigned]

end Coefficient

variable {α : Type} [Scalar α]

theorem leadingNumber?_caretsForStars (t : Text) :
    (leadingNumber? (caretsForStars t) : Option α) = leadingNumber? t := by
  unfold leadingNumber?
  rw [Coefficient.span_caretsForStars (by decide) (by decide)]

namespace ExponentArgument

theorem eval_ofText (raw : Text) (x : α) :
    (ofText raw : ExponentArgument α).eval x = ((leadingNumber? raw).map (· * x)).getD x := by
  unfold ofText
  split
  · next hvariable =>
      have hnumber : (leadingNumber? raw : Option α) = none := by
        rw [Bool.or_eq_true, List.isEmpty_iff, beq_iff_eq] at hvariable
        rcases hvariable with rfl | rfl <;> rfl
      rw [hnumber]
      rfl
  · split
    · next hnumber =>
        rw [hnumber]
        rfl
    · next hnumber =>
        rw [hnumber]
        rfl

theorem eval_ofText_caretsForStars (raw : Text) (x : α) :
    (ofText (caretsForStars raw) : ExponentArgument α).eval x =
      (ofText raw : ExponentArgument α).eval x := by
  rw [eval_ofText, eval_ofText, leadingNumber?_caretsForStars]

theorem raw?_group {raw : Text} (h : ∀ c ∈ raw, c ≠ '(' ∧ c ≠ ')') :
    raw? ('(' :: (raw ++ [')'])) = some raw := by
  have hopen : '(' ∉ raw := fun hc => (h _ hc).1 rfl
  have hclose : ')' ∉ raw := fun hc => (h _ hc).2 rfl
  unfold raw?
  simp [hopen, hclose]

end ExponentArgument

namespace Term

/-- Of the same shape and the same value, whatever the factor. -/
inductive Alike : Term α → Term α → Prop
  | refl (t : Term α) : Alike t t
  | exponential (c : α) {argument argument' : ExponentArgument α}
    (h : ∀ x, argument.eval x = argument'.eval x) :
    Alike (.exponential c argument) (.exponential c argument')

namespace Alike

variable {t u : Term α}

theorem scaled (h : Alike t u) (factor : α) : Alike (t.scaled factor) (u.scaled factor) := by
  cases h with
  | refl => exact refl _
  | exponential c h => exact exponential (c * factor) h

theorem eval_eq (h : Alike t u) (x : α) : t.eval x = u.eval x := by
  cases h with
  | refl => rfl
  | exponential c h => exact congrArg (fun v => c * Scalar.exp v) (h x)

theorem isUnrecognized_eq (h : Alike t u) : t.isUnrecognized = u.isUnrecognized := by
  cases h <;> rfl

end Alike

/-- An exponential with its argument in brackets. -/
def exponentialTail (raw : Text) : Text := 'e' :: '^' :: '(' :: (raw ++ [')'])

theorem caretsForStars_exponentialTail (raw : Text) :
    caretsForStars (exponentialTail raw) = exponentialTail (caretsForStars raw) := by
  unfold exponentialTail
  rw [caretsForStars_cons_of_ne (by decide), caretsForStars_cons_of_ne (by decide),
    caretsForStars_cons_of_ne (by decide), caretsForStars_append raw (v := [')']) (by decide)]
  rfl

theorem span_caretsForStars_of_exponentialTail {t k raw : Text}
    (h : Coefficient.span Char.isDigit t = (k, exponentialTail raw)) :
    Coefficient.span Char.isDigit (caretsForStars t) =
      (k, exponentialTail (caretsForStars raw)) := by
  rw [Coefficient.span_caretsForStars rfl rfl, h, caretsForStars_exponentialTail]

theorem star_not_mem_of_isBare {t : Text} (h : ExponentArgument.isBare t = true) : '*' ∉ t := by
  intro hstar
  rcases isSign_or_mem_takeSign hstar with hsign | hstar
  · cases hsign
  · exact absurd (List.all_eq_true.mp h '*' hstar) (by decide)

/-- Two stars in a row stand between the brackets of an exponential. -/
theorem eq_or_exponentialTail_of_ofTail? {c : α} {tail : Text} {t : Term α}
    (h : ofTail? c tail = some t) :
    caretsForStars tail = tail ∨ ∃ raw, tail = exponentialTail raw ∧
      (∀ b ∈ raw, b ≠ '(' ∧ b ≠ ')') ∧ t = .exponential c (.ofText raw) := by
  unfold ofTail? at h
  split at h
  · exact Or.inl rfl
  · next exponent =>
      split at h
      · next hnumber =>
          apply Or.inl
          apply caretsForStars_of_not_mem
          simpa using not_mem_of_isSignedNumber hnumber (c := '*') (by decide)
      · cases h
  · next argument =>
      obtain ⟨raw, hraw, rfl⟩ := Option.map_eq_some_iff.mp h
      rcases ExponentArgument.eq_or_of_raw? hraw with ⟨rfl, hbrackets⟩ | ⟨rfl, hbare⟩
      · exact Or.inr ⟨raw, rfl, hbrackets, rfl⟩
      · apply Or.inl
        apply caretsForStars_of_not_mem
        simpa using star_not_mem_of_isBare hbare
  · exact Or.inl rfl
  · exact Or.inl rfl
  · cases h

variable {t : Text} {term : Term α}

theorem eq_or_exponentialTail_of_ofTrimmed? (h : ofTrimmed? t = some term) :
    caretsForStars t = t ∨ ∃ k c raw, Coefficient.span Char.isDigit t = (k, exponentialTail raw) ∧
      Coefficient.ofText? k = some c ∧ (∀ b ∈ raw, b ≠ '(' ∧ b ≠ ')') ∧
        term = .exponential c (.ofText raw) := by
  unfold ofTrimmed? at h
  split at h
  · next hnumber =>
      exact Or.inl (caretsForStars_of_not_mem (not_mem_of_isSignedNumber hnumber (by decide)))
  · cases hspan : Coefficient.span Char.isDigit t with
    | mk k tail =>
        rw [hspan] at h
        obtain ⟨c, hc, hterm⟩ := Option.bind_eq_some_iff.mp h
        rcases eq_or_exponentialTail_of_ofTail? hterm with htail | ⟨raw, rfl, hbrackets, rfl⟩
        · apply Or.inl
          rw [← Coefficient.append_span Char.isDigit (caretsForStars t),
            Coefficient.span_caretsForStars rfl rfl, hspan, htail]
          exact (congrArg (fun s => s.1 ++ s.2) hspan.symm).trans (Coefficient.append_span _ t)
        · exact Or.inr ⟨k, c, raw, rfl, hc, hbrackets, rfl⟩

theorem exists_ofTrimmed?_caretsForStars (h : ofTrimmed? t = some term) :
    ∃ term', ofTrimmed? (caretsForStars t) = some term' ∧ Alike term' term := by
  by_cases hcarets : caretsForStars t = t
  · exact ⟨term, by rw [hcarets, h], .refl term⟩
  rcases eq_or_exponentialTail_of_ofTrimmed? h with heq | ⟨k, c, raw, hspan, hc, hbrackets, rfl⟩
  · exact absurd heq hcarets
  have hnumber : isSignedNumber (caretsForStars t) = false := by
    rw [Bool.eq_false_iff]
    intro hnumber
    exact not_mem_of_isSignedNumber hnumber (by decide) (caret_mem_of_caretsForStars_ne hcarets)
  have hbrackets' : ∀ b ∈ caretsForStars raw, b ≠ '(' ∧ b ≠ ')' := by
    intro b hb
    rcases mem_or_eq_of_mem_caretsForStars hb with hb | rfl
    · exact hbrackets b hb
    · decide
  refine ⟨.exponential c (.ofText (caretsForStars raw)), ?_,
    .exponential c (ExponentArgument.eval_ofText_caretsForStars raw)⟩
  unfold ofTrimmed?
  rw [hnumber, span_caretsForStars_of_exponentialTail hspan]
  change (Coefficient.ofText? k).bind _ = _
  rw [hc]
  change (ExponentArgument.raw? ('(' :: (caretsForStars raw ++ [')']))).map _ = _
  rw [ExponentArgument.raw?_group hbrackets']
  rfl

/-- A caret that replaces stars is not the last character. -/
theorem eq_or_getLast?_of_ofTrimmed? (h : ofTrimmed? t = some term) :
    caretsForStars t = t ∨ (caretsForStars t).getLast? = some ')' := by
  refine (eq_or_exponentialTail_of_ofTrimmed? h).imp_right ?_
  rintro ⟨k, c, raw, hspan, -⟩
  rw [← Coefficient.append_span Char.isDigit (caretsForStars t),
    span_caretsForStars_of_exponentialTail hspan, exponentialTail, ← List.cons_append,
    ← List.cons_append, ← List.cons_append, ← List.append_assoc, List.getLast?_concat]

namespace IsAtom

variable (h : IsAtom α t) (hblanks : t.NoBlanks)
include h hblanks

theorem alike_caretsForStars :
    Alike (ofText (caretsForStars t) : Term α) (ofText t) := by
  obtain ⟨term, hterm⟩ := h.exists_ofTrimmed?_eq hblanks
  obtain ⟨term', hterm', halike⟩ := exists_ofTrimmed?_caretsForStars hterm
  unfold ofText
  rwa [hblanks.trim_eq, (noBlanks_caretsForStars hblanks).trim_eq, hterm, hterm']

theorem caretsForStars : IsAtom α (caretsForStars t) where
  recognized := (h.alike_caretsForStars hblanks).isUnrecognized_eq.trans h.recognized
  unsigned := (startsSigned_caretsForStars t).trans h.unsigned

theorem getLast?_of_caretsForStars (hlast : (Integrand.caretsForStars t).getLast? = some '^') :
    t.getLast? = some '^' := by
  obtain ⟨term, hterm⟩ := h.exists_ofTrimmed?_eq hblanks
  rcases eq_or_getLast?_of_ofTrimmed? hterm with heq | hbracket
  · rwa [heq] at hlast
  · rw [hbracket] at hlast
    cases hlast

end IsAtom

end Term

end Univariate
