import Univariate.Proofs.Term.Outline
import Univariate.Term.Calculus

/-!
# Terms that come from reading

Reading gives the argument of an exponential from a text without brackets, and neither a factor nor
differentiation touches it.
-/

namespace Univariate

variable {α : Type} [Scalar α]

/-- A text that can stand between the brackets of an argument. -/
structure ExponentArgument.IsRaw (raw : Text) : Prop where
  noBrackets : ∀ c ∈ raw, c ≠ '(' ∧ c ≠ ')'
  noBlanks : raw.NoBlanks

namespace Term

/-- Of known shape, and the argument of an exponential is what its text says. -/
def IsRead : Term α → Prop
  | exponential _ argument => ∃ raw, argument = .ofText raw ∧ ExponentArgument.IsRaw raw
  | unrecognized _ => False
  | _ => True

theorem isRead_ofPower (c n : α) : (ofPower c n).IsRead := by
  unfold ofPower
  split
  · trivial
  · split <;> trivial

theorem IsRead.derivative {t : Term α} (h : t.IsRead) : t.derivative.IsRead := by
  cases t with
  | power c n =>
      change (if n == 0 then constant 0 else ofPower (c * n) (n - 1)).IsRead
      split
      · trivial
      · exact isRead_ofPower _ _
  | exponential c argument => exact h
  | unrecognized raw => exact h.elim
  | wave kind c => cases kind <;> trivial
  | _ => trivial

theorem IsRead.scaled {t : Term α} (h : t.IsRead) (factor : α) : (t.scaled factor).IsRead := by
  cases t with
  | exponential c argument => exact h
  | unrecognized raw => exact h.elim
  | _ => trivial

theorem IsRead.isUnrecognized_eq {t : Term α} (h : t.IsRead) : t.isUnrecognized = false := by
  cases t with
  | unrecognized raw => exact h.elim
  | _ => rfl

theorem isRead_of_ofTail? {c : α} {tail : Text} {t : Term α} (h : ofTail? c tail = some t)
    (hblanks : tail.NoBlanks) : t.IsRead := by
  unfold ofTail? at h
  split at h
  · cases h
    trivial
  · split at h
    · obtain ⟨n, -, rfl⟩ := Option.map_eq_some_iff.mp h
      trivial
    · simp at h
  · next argument =>
      obtain ⟨raw, hraw, rfl⟩ := Option.map_eq_some_iff.mp h
      have hargument : Text.NoBlanks argument :=
        (Text.noBlanks_cons.mp (Text.noBlanks_cons.mp hblanks).2).2
      refine ⟨raw, rfl, ?_⟩
      rcases ExponentArgument.eq_or_of_raw? hraw with ⟨rfl, hbrackets⟩ | ⟨rfl, hbare⟩
      · have hinner := (Text.noBlanks_cons.mp hargument).2
        exact ⟨hbrackets, (Text.noBlanks_append.mp hinner).1⟩
      · refine ⟨fun c hc => ?_, hargument⟩
        rcases eq_or_eq_cons_of_takeSign (ExponentArgument.inert_of_isBare hbare) with
          hinert | ⟨sign, w, rfl, hsign, hw⟩
        · exact (hinert c hc).2.2
        · rcases List.mem_cons.mp hc with rfl | hc
          · constructor <;> rintro rfl <;> revert hsign <;> decide
          · exact (hw c hc).2.2
  · cases h
    trivial
  · cases h
    trivial
  · simp at h

theorem isRead_of_ofTrimmed? {t : Text} {term : Term α} (h : ofTrimmed? t = some term)
    (hblanks : t.NoBlanks) : term.IsRead := by
  unfold ofTrimmed? at h
  split at h
  · obtain ⟨value, -, rfl⟩ := Option.map_eq_some_iff.mp h
    trivial
  · obtain ⟨value, -, htail⟩ := Option.bind_eq_some_iff.mp h
    refine isRead_of_ofTail? htail ?_
    rw [← Coefficient.append_span Char.isDigit t] at hblanks
    exact (Text.noBlanks_append.mp hblanks).2

theorem isRead_ofText {t : Text} (hblanks : t.NoBlanks)
    (h : (ofText t : Term α).isUnrecognized = false) : (ofText t : Term α).IsRead := by
  unfold ofText at h ⊢
  rw [hblanks.trim_eq] at h ⊢
  cases hterm : (ofTrimmed? t : Option (Term α)) with
  | none => simp [hterm, isUnrecognized] at h
  | some term => exact isRead_of_ofTrimmed? hterm hblanks

theorem ofText_of_ofTrimmed? {body : Text} {t : Term α} (hblanks : body.NoBlanks)
    (h : ofTrimmed? body = some t) : ofText body = t := by
  rw [ofText, hblanks.trim_eq, h, Option.getD_some]

theorem ofText_of_isUnsigned {k : Text} {v : α} (hk : Numeral.IsUnsigned k)
    (hv : Scalar.ofText? k = some v) : (ofText k : Term α) = .constant v := by
  apply ofText_of_ofTrimmed? (noBlanks_of_isUnsigned hk)
  rw [ofTrimmed?, if_pos (isSignedNumber_iff.mpr (by rwa [hk.takeSign_eq])), hv]
  rfl

/-- An unrecognized term is kept as it is written. -/
theorem eq_of_ofText_eq_unrecognized {t raw : Text} (hblanks : t.NoBlanks)
    (h : (ofText t : Term α) = unrecognized raw) : raw = t := by
  unfold ofText at h
  rw [hblanks.trim_eq] at h
  cases hterm : (ofTrimmed? t : Option (Term α)) with
  | none =>
      rw [hterm] at h
      cases h
      rfl
  | some term =>
      rw [hterm] at h
      cases h
      exact (isRead_of_ofTrimmed? hterm hblanks).elim

/-- The coefficient is read on its own, and what follows it decides the shape. -/
theorem ofTrimmed?_append {k : Text} {c : Char} (hk : Coefficient.IsUnsigned k)
    (hc : Coefficient.Ends c) (tail : Text) :
    (ofTrimmed? (k ++ c :: tail) : Option (Term α)) =
      (Coefficient.ofText? k).bind (ofTail? · (c :: tail)) := by
  unfold ofTrimmed?
  rw [isSignedNumber_append hk hc, hk.span_append hc]
  rfl

end Term

end Univariate
