import Univariate.Proofs.Expression.Grammar
import Univariate.Proofs.Numeral.Scientific
import Univariate.Proofs.Scalar.Sign
import Univariate.Proofs.Term.Factor

/-!
# Numbers as expressions

A text that reads as a number is an expression too. With digits, and a point between digits, it is
the constant; in any other spelling its first piece is no known term, and only the digits behind a
sign in the exponent count.
-/

namespace Univariate

variable {α : Type} [Scalar α]

/-! ### Signs -/

theorem isSignedNumber_sign_append (sign : Option Sign) {k : Text} (hk : Numeral.IsUnsigned k) :
    isSignedNumber (Sign.text sign ++ k) = true := by
  rw [isSignedNumber_iff]
  rcases sign with _ | _ | _
  · change Numeral.IsUnsigned k.takeSign.2
    rw [hk.takeSign_eq]
    exact hk
  · exact hk
  · exact hk

theorem Numeral.ofText?_sign_append (sign : Option Sign) {k : Text} (hk : IsUnsigned k)
    {digits : Nat} {exponent : Int} (hsize : magnitude? k = some (digits, exponent)) :
    ofText? (Sign.text sign ++ k) = some (.decimal (sign == some .minus) digits exponent) := by
  obtain ⟨hplain, hminus⟩ := hk.ofText?_eq hsize
  rcases sign with _ | _ | _
  · exact hplain
  · exact hk.ofText?_cons_plus.trans hplain
  · exact hminus

theorem ofNumeral_decimal_sign [Scalar.LawfulSign α] (sign : Option Sign) (digits : Nat)
    (exponent : Int) :
    (Scalar.ofNumeral (.decimal (sign == some .minus) digits exponent) : α) =
      Scalar.ofNumeral (.decimal false digits exponent) * (sign.getD .plus).factor := by
  rcases sign with _ | _ | _
  · exact (Scalar.LawfulSign.mul_one _).symm
  · exact (Scalar.LawfulSign.mul_one _).symm
  · change _ = _ * -1
    rw [Scalar.LawfulSign.mul_neg_one, ← Scalar.LawfulSign.ofNumeral_decimal_true]
    rfl

theorem exists_ofText?_of_isSignedNumber {t : Text} (h : isSignedNumber t = true) :
    ∃ x : α, Scalar.ofText? t = some x := by
  obtain ⟨sign, ht, -⟩ := exists_sign_append_takeSign t
  have hk := isSignedNumber_iff.mp h
  obtain ⟨⟨digits, exponent⟩, hsize⟩ := hk.exists_magnitude?_eq
  rw [ht, Scalar.ofText?, Numeral.ofText?_sign_append sign hk hsize]
  exact ⟨_, rfl⟩

namespace Term

/-! ### Unknown spellings -/

/-- Digits before a text that is no tail of a term. -/
theorem ofText_eq_unrecognized {k u : Text} (hk : Numeral.IsMantissa k)
    (hunsigned : Summand.startsSigned (k ++ u) = false) (hblanks : Text.NoBlanks (k ++ u))
    (hends : ∀ c, u.head? = some c → Coefficient.Ends c)
    (hnumber : isSignedNumber (k ++ u) = false) (hnone : ∀ c : α, ofTail? c u = none) :
    (ofText (k ++ u) : Term α) = .unrecognized (k ++ u) := by
  have hterm : (ofTrimmed? (k ++ u) : Option (Term α)) = none := by
    unfold ofTrimmed?
    rw [hnumber, Coefficient.span_append_of_isMantissa hk hunsigned hends]
    dsimp only
    rw [if_neg Bool.false_ne_true, Option.bind_eq_none_iff]
    exact fun c _ => hnone c
  rw [ofText, hblanks.trim_eq, hterm]
  rfl

theorem ofTail?_mark {c : Char} (hc : c = 'e' ∨ c = 'E') {t : Text} (ht : t.head? ≠ some '^')
    (v : α) : ofTail? v (c :: t) = none := by
  unfold ofTail?
  rcases hc with rfl | rfl
  · split
    · next heq => cases heq
    · next heq => cases heq
    · next heq =>
        cases heq
        exact absurd rfl ht
    · next heq => cases heq
    · next heq => cases heq
    · rfl
  · rfl

theorem ofText_of_isWord {t : Text} (h : Numeral.IsWord t) (hblanks : t.NoBlanks) :
    (ofText t : Term α) = .unrecognized t := by
  obtain ⟨c, rest, rfl⟩ := List.exists_cons_of_ne_nil h.ne_nil
  have hc : c.isAlpha = true := h.isAlpha c List.mem_cons_self
  have hinert : Inert c := inert_of_isAlphanum (by simp [Char.isAlphanum, hc])
  have hpoint : c ≠ '.' := by
    rintro rfl
    cases hc
  have hends : Coefficient.Ends c := ⟨Numeral.isDigit_of_isAlpha hc, hpoint, hinert.isSign_eq⟩
  have hempty : Numeral.IsMantissa [] := .whole (List.forall_mem_nil _)
  apply ofText_eq_unrecognized (u := c :: rest) hempty hinert.isSign_eq hblanks
  · rintro _ ⟨⟩
    exact hends
  · exact isSignedNumber_append (.inl rfl) hends rest
  · intro v
    unfold ofTail?
    split
    all_goals
      first
      | rfl
      | next heq =>
          rw [heq] at h
          unfold Numeral.IsWord at h
          simp at h

/-- No sign, bracket or caret: a part of the text of a number. -/
def Smooth (t : Text) : Prop := ∀ c ∈ t, Inert c ∧ c ≠ '^'

theorem smooth_append {t u : Text} (ht : Smooth t) (hu : Smooth u) : Smooth (t ++ u) := by
  intro c hc
  rcases List.mem_append.mp hc with hc | hc
  · exact ht c hc
  · exact hu c hc

theorem smooth_of_isAlphanum {t : Text} (h : ∀ c ∈ t, c.isAlphanum = true) : Smooth t := by
  intro c hc
  refine ⟨inert_of_isAlphanum (h c hc), ?_⟩
  rintro rfl
  cases h _ hc

theorem smooth_of_isMantissa {t : Text} (h : Numeral.IsMantissa t) : Smooth t := by
  intro c hc
  rcases h.isDigit_or_eq_point c hc with hdigit | rfl
  · refine ⟨inert_of_isDigit hdigit, ?_⟩
    rintro rfl
    cases hdigit
  · exact ⟨inert_point, by decide⟩

theorem startsSigned_of_smooth {t : Text} (h : Smooth t) : Summand.startsSigned t = false := by
  cases t with
  | nil => rfl
  | cons c t => exact (h c List.mem_cons_self).1.isSign_eq

theorem ofText_of_isMantissa {k : Text} (hk : Numeral.IsMantissa k) (hblanks : k.NoBlanks)
    (hunsigned : ¬Numeral.IsUnsigned k) : (ofText k : Term α) = .unrecognized k := by
  have hstarts := startsSigned_of_smooth (smooth_of_isMantissa hk)
  have hnumber : isSignedNumber k = false := by
    rw [← Bool.not_eq_true, isSignedNumber_iff, takeSign_of_not_startsSigned hstarts]
    exact hunsigned
  have hempty : ∀ c, ([] : Text).head? = some c → Coefficient.Ends c := by
    intro c hc
    cases hc
  have hunknown := ofText_eq_unrecognized (α := α) (u := []) hk
  rw [List.append_nil] at hunknown
  exact hunknown hstarts hblanks hempty hnumber fun _ => rfl

section Mark

variable {k w : Text} {c : Char}

theorem smooth_mark (hk : Numeral.IsMantissa k) (hc : c = 'e' ∨ c = 'E')
    (hw : ∀ d ∈ w, d.isDigit = true) : Smooth (k ++ c :: w) := by
  apply smooth_append (smooth_of_isMantissa hk)
  apply smooth_of_isAlphanum
  intro d hd
  rcases List.mem_cons.mp hd with rfl | hd
  · rcases hc with rfl | rfl <;> decide
  · simp [Char.isAlphanum, hw d hd]

/-- Digits directly behind the mark belong to the piece. -/
theorem ofText_mark (hk : Numeral.IsMantissa k) (hc : c = 'e' ∨ c = 'E')
    (hw : ∀ d ∈ w, d.isDigit = true) (hblanks : Text.NoBlanks (k ++ c :: w)) :
    (ofText (k ++ c :: w) : Term α) = .unrecognized (k ++ c :: w) := by
  have hends : Coefficient.Ends c := by rcases hc with rfl | rfl <;> decide
  apply ofText_eq_unrecognized hk (startsSigned_of_smooth (smooth_mark hk hc hw)) hblanks
  · rintro _ ⟨⟩
    exact hends
  · rw [Bool.eq_false_iff]
    exact fun hnumber => not_mem_of_isSignedNumber hnumber hends (by simp)
  · apply ofTail?_mark hc
    intro hcaret
    have hdigit := hw '^' (List.mem_of_mem_head? hcaret)
    cases hdigit

end Mark

/-- The first piece of a number in an unusual spelling, with the rest of its exponent. -/
theorem exists_unrecognized_append {t : Text} (hblanks : t.NoBlanks)
    (h : Numeral.IsWord t ∨ ∃ size, Numeral.magnitude? t = some size)
    (hunsigned : ¬Numeral.IsUnsigned t) :
    ∃ u v, t = u ++ v ∧ u ≠ [] ∧ Smooth u ∧ (ofText u : Term α) = .unrecognized u ∧
      (v = [] ∨ ∃ (sign : Sign) (w : Text), v = sign.char :: w ∧ Numeral.IsDigits w) := by
  rcases h with hword | ⟨size, hsize⟩
  · have hsmooth : Smooth t :=
      smooth_of_isAlphanum fun c hc => by simp [Char.isAlphanum, hword.isAlpha c hc]
    exact ⟨t, [], (List.append_nil t).symm, hword.ne_nil, hsmooth, ofText_of_isWord hword hblanks,
      .inl rfl⟩
  · obtain ⟨k, tail, rfl, hk, htail⟩ := Numeral.exists_eq_of_magnitude? hsize
    cases htail with
    | none =>
        rw [List.append_nil] at hblanks hunsigned hsize ⊢
        have hne : k ≠ [] := by
          rintro rfl
          cases hsize
        exact ⟨k, [], (List.append_nil k).symm, hne, smooth_of_isMantissa hk,
          ofText_of_isMantissa hk hblanks hunsigned, .inl rfl⟩
    | @mark c rest hc hrest =>
        obtain ⟨sign, hsign, -⟩ := exists_sign_append_takeSign rest
        generalize rest.takeSign.2 = w at hsign hrest
        subst hsign
        cases sign with
        | none =>
            exact ⟨k ++ c :: w, [], (List.append_nil _).symm, by simp, smooth_mark hk hc hrest.2,
              ofText_mark hk hc hrest.2 hblanks, .inl rfl⟩
        | some sign =>
            -- The sign is cut off, and the mark ends the first piece.
            have hsplit : k ++ c :: (Sign.text (some sign) ++ w) =
                (k ++ [c]) ++ sign.char :: w := by simp [Sign.text]
            have hnone : ∀ d ∈ ([] : Text), d.isDigit = true := List.forall_mem_nil _
            rw [hsplit] at hblanks ⊢
            exact ⟨k ++ [c], sign.char :: w, rfl, by simp, smooth_mark hk hc hnone,
              ofText_mark hk hc hnone (Text.noBlanks_append.mp hblanks).1,
              .inr ⟨sign, w, rfl, hrest⟩⟩

end Term

namespace Expression

/-- An optional sign before a text without signs and brackets is one piece and one term. -/
theorem pieces_sign_append (sign : Option Sign) {body : Text} (hne : body ≠ [])
    (hinert : ∀ c ∈ body, Inert c) (hblanks : (Sign.text sign ++ body).NoBlanks) :
    pieces (Sign.text sign ++ body) = [Sign.text sign ++ body] := by
  unfold pieces
  rw [hblanks.withoutBlanks_eq]
  exact Summand.split_of_isPiece
    (Summand.isPiece_append hne (Summand.uncut_of_inert hinert 0))

/-- Behind a text that a sign would be cut off from, the other pieces and terms follow. -/
theorem ofText_append {u v : Text} (hblanks : (u ++ v).NoBlanks) (hu : Summand.IsCutAfter u)
    (hv : Summand.startsSigned v = true) :
    pieces (u ++ v) = pieces u ++ pieces v ∧
      (ofText (u ++ v) : Expression α).terms = (ofText u).terms ++ (ofText v).terms := by
  obtain ⟨hublanks, hvblanks⟩ := Text.noBlanks_append.mp hblanks
  have hpieces : pieces (u ++ v) = pieces u ++ pieces v := by
    unfold pieces
    rw [hblanks.withoutBlanks_eq, hublanks.withoutBlanks_eq, hvblanks.withoutBlanks_eq]
    exact Summand.split_append_of_isCutAfter (.inr hu) hv
  refine ⟨hpieces, ?_⟩
  unfold ofText ofPieces Summand.expand
  rw [hpieces, List.flatMap_append, List.map_append]

theorem terms_ofText_sign_append [Scalar.LawfulFactor α] (sign : Option Sign) {body : Text}
    (hne : body ≠ []) (hinert : ∀ c ∈ body, Inert c) (hblanks : (Sign.text sign ++ body).NoBlanks) :
    (ofText (Sign.text sign ++ body) : Expression α).terms =
      [(Term.ofText body).scaled (sign.getD .plus).factor] := by
  unfold ofText ofPieces Summand.expand
  rw [pieces_sign_append sign hne hinert hblanks, List.flatMap_singleton,
    Summand.leaves_atom (.inert hne hinert) hblanks, Scalar.LawfulFactor.one_mul]
  rfl

theorem terms_ofText_of_unrecognized [Scalar.LawfulFactor α] (sign : Option Sign) {body : Text}
    (hne : body ≠ []) (hinert : ∀ c ∈ body, Inert c) (hblanks : (Sign.text sign ++ body).NoBlanks)
    (hunknown : (Term.ofText body : Term α) = .unrecognized body) :
    ∃ raw, (ofText (Sign.text sign ++ body) : Expression α).terms = [.unrecognized raw] := by
  obtain ⟨raw, hraw⟩ := Term.exists_scaled_unrecognized body ((sign.getD .plus).factor : α)
  refine ⟨raw, ?_⟩
  rw [terms_ofText_sign_append sign hne hinert hblanks, hunknown, hraw]

theorem ofTextStrict_ne_ok_of_unrecognized {t raw : Text}
    (h : Term.unrecognized raw ∈ (ofText t : Expression α).terms) (e : Expression α) :
    ofTextStrict t ≠ .ok e := by
  intro hok
  obtain ⟨-, hrecognized, rfl⟩ := ofTextStrict_eq_ok.mp hok
  exact Bool.noConfusion (hrecognized _ h)

variable [Scalar.LawfulSign α] [Scalar.LawfulFactor α]

/-- **A signed number is a constant.** -/
theorem terms_ofText_of_isSignedNumber {t : Text} {x : α} (h : isSignedNumber t = true)
    (hx : Scalar.ofText? t = some x) : (ofText t : Expression α).terms = [.constant x] := by
  obtain ⟨sign, ht, -⟩ := exists_sign_append_takeSign t
  have hk := isSignedNumber_iff.mp h
  have hblanks := noBlanks_of_isSignedNumber h
  generalize t.takeSign.2 = k at ht hk
  subst ht
  obtain ⟨⟨digits, exponent⟩, hsize⟩ := hk.exists_magnitude?_eq
  have hvalue : (Scalar.ofText? k : Option α) =
      some (Scalar.ofNumeral (.decimal false digits exponent)) :=
    congrArg (Option.map Scalar.ofNumeral) (hk.ofText?_eq hsize).1
  have hne : k ≠ [] := by
    rintro rfl
    obtain ⟨c, rest, hnil, -⟩ := hk.exists_cons
    cases hnil
  rw [terms_ofText_sign_append sign hne (Term.inert_of_isUnsigned hk) hblanks,
    Term.ofText_of_isUnsigned hk hvalue]
  rw [Scalar.ofText?, Numeral.ofText?_sign_append sign hk hsize, Option.map_some,
    Option.some.injEq, ofNumeral_decimal_sign] at hx
  rw [← hx]
  rfl

/-- **Another spelling of a number is no term.** Its first piece is unknown, and behind the sign of
an exponent there is a number. -/
theorem terms_ofText_of_not_isSignedNumber {t : Text} {x : α}
    (h : Scalar.ofText? t = some x) (hblanks : t.NoBlanks) (hnumber : isSignedNumber t = false) :
    ∃ raw, ((pieces t).tail = [] ∧ (ofText t : Expression α).terms = [.unrecognized raw]) ∨
      ∃ piece y, (pieces t).tail = [piece] ∧ Scalar.ofText? piece = some y ∧
        (ofText t : Expression α).terms = [.unrecognized raw, .constant y] := by
  obtain ⟨value, hvalue, -⟩ := Option.map_eq_some_iff.mp h
  obtain ⟨sign, ht, -⟩ := exists_sign_append_takeSign t
  have hunsigned : ¬Numeral.IsUnsigned t.takeSign.2 := by
    rw [← isSignedNumber_iff, hnumber]
    exact Bool.false_ne_true
  have hcases := Numeral.ofText?_cases hvalue
  generalize t.takeSign.2 = body at ht hunsigned hcases
  subst ht
  obtain ⟨u, v, rfl, hne, hsmooth, hunknown, hv⟩ := Term.exists_unrecognized_append (α := α)
    (Text.noBlanks_append.mp hblanks).2 hcases hunsigned
  have hinert : ∀ c ∈ u, Inert c := fun c hc => (hsmooth c hc).1
  rw [← List.append_assoc] at hblanks ⊢
  obtain ⟨hublanks, hvblanks⟩ := Text.noBlanks_append.mp hblanks
  have hpieces := pieces_sign_append sign hne hinert hublanks
  obtain ⟨raw, hraw⟩ := terms_ofText_of_unrecognized sign hne hinert hublanks hunknown
  refine ⟨raw, ?_⟩
  rcases hv with rfl | ⟨sign', w, rfl, hw⟩
  · left
    rw [List.append_nil, hpieces]
    exact ⟨rfl, hraw⟩
  · right
    have hcut : Summand.IsCutAfter (Sign.text sign ++ u) := by
      refine ⟨?_, ?_⟩
      · rw [Summand.depthThrough_sign_append, Summand.depthThrough_of_inert hinert]
      · rw [List.getLast?_append_of_ne_nil _ hne]
        exact fun hlast => (hsmooth _ (List.mem_of_getLast? hlast)).2 rfl
    have hsigned : isSignedNumber (sign'.char :: w) = true :=
      isSignedNumber_sign_append (some sign') (.whole hw)
    obtain ⟨hpieces', hterms'⟩ := ofText_append (α := α) hblanks hcut sign'.isSign_char
    obtain ⟨y, hy⟩ := exists_ofText?_of_isSignedNumber (α := α) hsigned
    have hlast : pieces (sign'.char :: w) = [sign'.char :: w] :=
      pieces_sign_append (some sign') hw.1 (fun c hc => inert_of_isDigit (hw.2 c hc)) hvblanks
    refine ⟨sign'.char :: w, y, ?_, hy, ?_⟩
    · rw [hpieces', hpieces, hlast]
      rfl
    · rw [hterms', hraw, terms_ofText_of_isSignedNumber hsigned hy]
      rfl

/-! ### Strict reading -/

theorem exists_ofTextStrict_of_isSignedNumber {t : Text} (h : isSignedNumber t = true) :
    ∃ e : Expression α, ofTextStrict t = .ok e := by
  obtain ⟨x, hx⟩ := exists_ofText?_of_isSignedNumber (α := α) h
  refine ⟨ofText t, ofTextStrict_eq_ok.mpr ⟨?_, ?_, rfl⟩⟩
  · rw [(noBlanks_of_isSignedNumber h).withoutBlanks_eq]
    apply Text.balanced_iff.mpr
    apply Text.closes_of_forall_ne
    intro c hc
    constructor
    · rintro rfl
      exact not_mem_of_isSignedNumber h (by decide) hc
    · rintro rfl
      exact not_mem_of_isSignedNumber h (by decide) hc
  · rw [terms_ofText_of_isSignedNumber h hx]
    exact List.forall_mem_singleton.mpr rfl

end Expression

end Univariate
