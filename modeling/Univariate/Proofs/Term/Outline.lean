import Univariate.Proofs.Summand.Split
import Univariate.Proofs.Term.Number
import Univariate.Proofs.Text.Brackets

/-!
# The outline of a term

A recognized term holds a sign only in front, directly after `^` or inside its one pair of brackets.
So a sum is never cut inside a term, and a term closes the brackets it opens.
-/

namespace Univariate

/-- Neither a sign nor a bracket. -/
def Inert (c : Char) : Prop := c ≠ '+' ∧ c ≠ '-' ∧ c ≠ '(' ∧ c ≠ ')'

theorem Inert.isSign_eq {c : Char} (h : Inert c) : Summand.isSign c = false := by
  simp [Summand.isSign, h.1, h.2.1]

theorem closes_of_inert {u : Text} (h : ∀ c ∈ u, Inert c) : u.Closes 0 :=
  Text.closes_of_forall_ne fun c hc => (h c hc).2.2

theorem inert_of_isAlphanum {c : Char} (h : c.isAlphanum = true) : Inert c := by
  refine ⟨?_, ?_, ?_, ?_⟩ <;> rintro rfl <;> revert h <;> decide

theorem inert_of_isDigit {c : Char} (h : c.isDigit = true) : Inert c :=
  inert_of_isAlphanum (by simp [Char.isAlphanum, h])

theorem inert_point : Inert '.' := ⟨by decide, by decide, by decide, by decide⟩

namespace Summand

theorem depthThrough_of_inert {t : Text} (h : ∀ c ∈ t, Inert c) (depth : Int) :
    depthThrough depth t = depth := by
  simpa using depthThrough_of_closes (closes_of_inert h) depth

theorem uncut_of_inert {t : Text} (h : ∀ c ∈ t, Inert c) (depth : Int) (previous : Char) :
    Uncut depth previous t := by
  induction t generalizing depth previous with
  | nil => trivial
  | cons c t ih =>
      refine ⟨cuts_of_not_isSign (h c List.mem_cons_self).isSign_eq depth previous, ?_⟩
      exact ih (fun b hb => h b (List.mem_cons_of_mem c hb)) _ c

end Summand

namespace ExponentArgument

variable {t raw : Text}

theorem inert_of_isBare (h : isBare t = true) : ∀ c ∈ t.takeSign.2, Inert c := by
  intro c hc
  have hletter := List.all_eq_true.mp h c hc
  rw [Bool.or_eq_true, beq_iff_eq] at hletter
  rcases hletter with hletter | rfl
  · exact inert_of_isAlphanum hletter
  · exact inert_point

theorem eq_or_of_raw? (h : raw? t = some raw) :
    (t = '(' :: (raw ++ [')']) ∧ ∀ c ∈ raw, c ≠ '(' ∧ c ≠ ')') ∨ (t = raw ∧ isBare raw = true) := by
  unfold raw? at h
  split at h
  · next rest =>
      dsimp only at h
      split at h
      · next hclosed =>
          simp only [Bool.and_eq_true, beq_iff_eq, Bool.not_eq_true', List.contains_eq_mem,
            decide_eq_false_iff_not] at hclosed
          obtain ⟨⟨hlast, hopen⟩, hclose⟩ := hclosed
          obtain ⟨inner, rfl⟩ := List.getLast?_eq_some_iff.mp hlast
          rw [List.dropLast_concat] at h hopen hclose
          cases h
          refine Or.inl ⟨rfl, fun c hc => ⟨?_, ?_⟩⟩
          · rintro rfl
            exact hopen hc
          · rintro rfl
            exact hclose hc
      · simp at h
  · split at h
    · next hbare =>
        cases h
        exact Or.inr ⟨rfl, hbare⟩
    · simp at h

end ExponentArgument

namespace Term

open Summand

inductive Outline : Text → Prop where
  | inert {u : Text} (hne : u ≠ []) (hu : ∀ c ∈ u, Inert c) : Outline u
  | signed {u w : Text} {sign : Char} (hu : ∀ c ∈ u, Inert c) (hsign : isSign sign = true)
      (hw : ∀ c ∈ w, Inert c) : Outline (u ++ '^' :: sign :: w)
  | bracketed {u inner : Text} (hne : u ≠ []) (hu : ∀ c ∈ u, Inert c)
      (hinner : ∀ c ∈ inner, c ≠ '(' ∧ c ≠ ')') : Outline (u ++ '(' :: (inner ++ [')']))

namespace Outline

variable {t : Text}

theorem exists_cons (h : Outline t) : ∃ c rest, t = c :: rest ∧ isSign c = false ∧ c ≠ '(' := by
  cases h with
  | inert hne hu =>
      obtain ⟨c, rest, rfl⟩ := List.exists_cons_of_ne_nil hne
      have hc := hu c List.mem_cons_self
      exact ⟨c, rest, rfl, hc.isSign_eq, hc.2.2.1⟩
  | @signed u w sign hu hsign hw =>
      cases u with
      | nil => exact ⟨'^', _, rfl, by decide, by decide⟩
      | cons c u =>
          have hc := hu c List.mem_cons_self
          exact ⟨c, _, rfl, hc.isSign_eq, hc.2.2.1⟩
  | bracketed hne hu hinner =>
      obtain ⟨c, rest, rfl⟩ := List.exists_cons_of_ne_nil hne
      have hc := hu c List.mem_cons_self
      exact ⟨c, _, rfl, hc.isSign_eq, hc.2.2.1⟩

theorem ne_nil (h : Outline t) : t ≠ [] := by
  obtain ⟨c, rest, rfl, -⟩ := h.exists_cons
  simp

theorem closes (h : Outline t) : t.Closes 0 := by
  cases h with
  | inert hne hu => exact closes_of_inert hu
  | @signed u w sign hu hsign hw =>
      have hsign' : sign ≠ '(' ∧ sign ≠ ')' := by
        constructor <;> rintro rfl <;> revert hsign <;> decide
      exact (closes_of_inert hu).append
        (.other (by decide) (by decide) (.other hsign'.1 hsign'.2 (closes_of_inert hw)))
  | bracketed hne hu hinner =>
      exact (closes_of_inert hu).append (Text.closes_of_forall_ne hinner).group

theorem depthThrough_eq (h : Outline t) : depthThrough 0 t = 0 := by
  simpa using depthThrough_of_closes h.closes 0

theorem uncut (h : Outline t) (previous : Char) : Uncut 0 previous t := by
  cases h with
  | inert hne hu => exact uncut_of_inert hu 0 previous
  | @signed u w sign hu hsign hw =>
      refine uncut_append.mpr ⟨uncut_of_inert hu 0 previous, ?_⟩
      rw [depthThrough_of_inert hu]
      exact ⟨cuts_of_not_isSign (by decide) _ _, by simp [cuts, depthAfter], uncut_of_inert hw _ _⟩
  | bracketed hne hu hinner =>
      refine uncut_append.mpr ⟨uncut_of_inert hu 0 previous, ?_⟩
      rw [depthThrough_of_inert hu]
      exact uncut_group (Text.closes_of_forall_ne hinner) _

end Outline

variable {t : Text}

theorem inert_of_isUnsigned (h : Numeral.IsUnsigned t) : ∀ c ∈ t, Inert c := by
  intro c hc
  rcases h.isDigit_or_eq_point c hc with hdigit | rfl
  · exact inert_of_isDigit hdigit
  · exact inert_point

/-- An optional sign in front, and no other. -/
theorem eq_or_eq_cons_of_takeSign (h : ∀ c ∈ t.takeSign.2, Inert c) :
    (∀ c ∈ t, Inert c) ∨ ∃ sign w, t = sign :: w ∧ isSign sign = true ∧ ∀ c ∈ w, Inert c := by
  unfold Text.takeSign at h
  split at h
  · exact Or.inr ⟨_, _, rfl, by decide, h⟩
  · exact Or.inr ⟨_, _, rfl, by decide, h⟩
  · exact Or.inl h

theorem outline_append_caret {u t : Text} (hu : ∀ c ∈ u, Inert c)
    (ht : ∀ c ∈ t.takeSign.2, Inert c) : Outline (u ++ '^' :: t) := by
  rcases eq_or_eq_cons_of_takeSign ht with ht | ⟨sign, w, rfl, hsign, hw⟩
  · refine .inert (by simp) fun c hc => ?_
    rcases List.mem_append.mp hc with hc | hc
    · exact hu c hc
    · rcases List.mem_cons.mp hc with rfl | hc
      · exact ⟨by decide, by decide, by decide, by decide⟩
      · exact ht c hc
  · exact .signed hu hsign hw

theorem inert_coefficient (h : startsSigned t = false) :
    ∀ c ∈ (Coefficient.span Char.isDigit t).1, Inert c := by
  have hdigits : ∀ s : Text, ∀ c ∈ s.takeWhile Char.isDigit, Inert c :=
    fun s c hc => inert_of_isDigit (List.mem_takeWhile_imp hc)
  by_cases hpoint : (t.dropWhile Char.isDigit).head? = some '.'
  · obtain ⟨rest, hrest⟩ := List.head?_eq_some_iff.mp hpoint
    rw [Coefficient.span_of_point h hrest]
    intro c hc
    rcases List.mem_append.mp hc with hc | hc
    · exact hdigits t c hc
    · rcases List.mem_cons.mp hc with rfl | hc
      · exact inert_point
      · exact hdigits rest c hc
  · rw [Coefficient.span_of_no_point h hpoint]
    exact hdigits t

variable {α : Type} [Scalar α]

theorem inert_append {u v : Text} (hu : ∀ c ∈ u, Inert c) (hv : ∀ c ∈ v, Inert c) :
    ∀ c ∈ u ++ v, Inert c :=
  fun c hc => (List.mem_append.mp hc).elim (hu c) (hv c)

theorem outline_append_argument {u t raw : Text} (hu : ∀ c ∈ u, Inert c)
    (h : ExponentArgument.raw? t = some raw) : Outline (u ++ 'e' :: '^' :: t) := by
  rcases ExponentArgument.eq_or_of_raw? h with ⟨rfl, hbrackets⟩ | ⟨rfl, hbare⟩
  · have hbracketed : Outline ((u ++ ['e', '^']) ++ '(' :: (raw ++ [')'])) :=
      .bracketed (by simp) (inert_append hu (by simp [Inert])) hbrackets
    simpa using hbracketed
  · have he : ∀ c ∈ u ++ ['e'], Inert c := inert_append hu (by simp [Inert])
    simpa using outline_append_caret he (ExponentArgument.inert_of_isBare hbare)

theorem outline_append_tail {u tail : Text} {c : α} {term : Term α} (hu : ∀ c ∈ u, Inert c)
    (h : ofTail? c tail = some term) : Outline (u ++ tail) := by
  unfold ofTail? at h
  split at h
  · exact .inert (by simp) (inert_append hu (by simp [Inert]))
  · next exponent =>
      split at h
      · next hnumber =>
          have hx : ∀ c ∈ u ++ ['x'], Inert c := inert_append hu (by simp [Inert])
          have hexponent := inert_of_isUnsigned (isSignedNumber_iff.mp hnumber)
          simpa using outline_append_caret hx hexponent
      · simp at h
  · obtain ⟨raw, hraw, -⟩ := Option.map_eq_some_iff.mp h
    exact outline_append_argument hu hraw
  · have hsin : Outline ((u ++ ['s', 'i', 'n']) ++ '(' :: (['x'] ++ [')'])) :=
      .bracketed (by simp) (inert_append hu (by simp [Inert])) (by simp)
    simpa using hsin
  · have hcos : Outline ((u ++ ['c', 'o', 's']) ++ '(' :: (['x'] ++ [')'])) :=
      .bracketed (by simp) (inert_append hu (by simp [Inert])) (by simp)
    simpa using hcos
  · simp at h

theorem outline_of_ofTrimmed? {term : Term α} (h : ofTrimmed? t = some term)
    (hsign : startsSigned t = false) : Outline t := by
  unfold ofTrimmed? at h
  split at h
  · next hnumber =>
      have hunsigned := isSignedNumber_iff.mp hnumber
      rw [takeSign_of_not_startsSigned hsign] at hunsigned
      exact .inert (ne_nil_of_isSignedNumber hnumber) (inert_of_isUnsigned hunsigned)
  · obtain ⟨value, -, htail⟩ := Option.bind_eq_some_iff.mp h
    rw [← Coefficient.append_span Char.isDigit t]
    exact outline_append_tail (inert_coefficient hsign) htail

/-- A text that reads as a term of known shape, without its sign. -/
structure IsAtom (α : Type) [Scalar α] (t : Text) : Prop where
  recognized : (ofText t : Term α).isUnrecognized = false
  unsigned : startsSigned t = false

theorem IsAtom.ne_nil (h : IsAtom α t) : t ≠ [] := by
  rintro rfl
  have hrecognized : (true : Bool) = false := h.recognized
  exact Bool.noConfusion hrecognized

theorem IsAtom.exists_ofTrimmed?_eq (h : IsAtom α t) (hblanks : t.NoBlanks) :
    ∃ term : Term α, ofTrimmed? t = some term := by
  have hrecognized := h.recognized
  unfold ofText at hrecognized
  rw [hblanks.trim_eq] at hrecognized
  cases hterm : (ofTrimmed? t : Option (Term α)) with
  | none => simp [hterm, isUnrecognized] at hrecognized
  | some term => exact ⟨term, rfl⟩

theorem IsAtom.outline (h : IsAtom α t) (hblanks : t.NoBlanks) : Outline t := by
  obtain ⟨term, hterm⟩ := h.exists_ofTrimmed?_eq hblanks
  exact outline_of_ofTrimmed? hterm h.unsigned

end Term

end Univariate
