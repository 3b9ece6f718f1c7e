import Univariate.Proofs.Numeral.Spelling

/-!
# The parts of a term

A text of known shape is a number, or a coefficient and a tail that tells the shape. Said without
the reader: which parts there are, how they are written, and what they stand for. The reader finds
these parts and nothing else.
-/

namespace Univariate

open Numeral (Spelling)
open Summand (startsSigned isSign)
open Text (isDecimalDigit)

variable {α : Type} [Scalar α]

namespace Numeral.Spelling

variable {n : Spelling}

/-- Readable in front of a letter: a sign or nothing, or digits with at most one point. -/
def IsCoefficient (n : Spelling) : Prop := n.Uses Char.isDigit ∧ (n.IsBare ∨ n.digits ≠ [])

instance (n : Spelling) : Decidable n.IsBare := inferInstanceAs (Decidable (_ ∧ _))

/-- Without a digit it is one, with the sign. -/
def coefficient (n : Spelling) : α :=
  if n.IsBare then (n.sign.getD .plus).factor else Scalar.ofNumeral n.value

/-- The longest beginning of the text that could be a number is this one, and it can be read. -/
def Leads (n : Spelling) (t : Text) : Prop :=
  n.Uses Char.isDigit ∧ n.digits ≠ [] ∧ ∃ u, t = n.text ++ u ∧ n.EndsBefore isDecimalDigit u

theorem ofText?_eq_some_iff (hn : n.Uses isDecimalDigit) {x : α} :
    Scalar.ofText? n.text = some x ↔
      n.Uses Char.isDigit ∧ n.digits ≠ [] ∧ x = Scalar.ofNumeral n.value := by
  rw [Scalar.ofText?, Option.map_eq_some_iff]
  constructor
  · rintro ⟨v, hv, rfl⟩
    have hascii := uses_ascii_of_ofText? hn hv
    rw [ofText?_text hascii, Option.ite_none_left_eq_some, Option.some.injEq] at hv
    obtain ⟨hdigits, rfl⟩ := hv
    exact ⟨hascii, hdigits, rfl⟩
  · rintro ⟨hascii, hdigits, rfl⟩
    exact ⟨n.value, by rw [ofText?_text hascii, if_neg hdigits], rfl⟩

theorem text_eq_of_isBare (h : n.IsBare) : n.text = Sign.text n.sign := by
  rw [text, unsigned, pointed, h.1, h.2, List.append_nil, List.append_nil]

theorem isBare_of_text_eq {isDigit : Char → Bool} (hkind : IsDigitKind isDigit)
    (hn : n.Uses isDigit) {sign : Option Sign} (h : n.text = Sign.text sign) : n.IsBare := by
  have hsign : (⟨sign, [], none⟩ : Spelling).Uses isDigit := nofun
  have htext := text_eq_of_isBare (n := ⟨sign, [], none⟩) ⟨rfl, rfl⟩
  rw [text_inj hkind hn hsign (h.trans htext.symm)]
  exact ⟨rfl, rfl⟩

theorem coefficientOfText?_eq_some_iff (hn : n.Uses isDecimalDigit) {x : α} :
    Coefficient.ofText? n.text = some x ↔ n.IsCoefficient ∧ x = n.coefficient := by
  by_cases hbare : n.IsBare
  · have hascii : n.Uses Char.isDigit := by
      rw [Uses, digits, hbare.1, hbare.2]
      exact List.forall_mem_nil _
    have hread : Coefficient.ofText? n.text = some (n.coefficient : α) := by
      rw [coefficient, if_pos hbare, text_eq_of_isBare hbare]
      rcases n.sign with _ | _ | _ <;> rfl
    rw [hread, Option.some.injEq, eq_comm]
    exact ⟨fun h => ⟨⟨hascii, Or.inl hbare⟩, h⟩, And.right⟩
  · have hread : (Coefficient.ofText? n.text : Option α) = Scalar.ofText? n.text := by
      have hne : ∀ sign, n.text ≠ Sign.text sign :=
        fun sign h => hbare (isBare_of_text_eq isDigitKind_decimal hn h)
      unfold Coefficient.ofText?
      split
      · next h => exact absurd h (hne none)
      · next h => exact absurd h (hne (some .plus))
      · next h => exact absurd h (hne (some .minus))
      · rfl
    rw [hread, ofText?_eq_some_iff hn, coefficient, if_neg hbare, IsCoefficient, and_assoc]
    simp only [hbare, false_or]

theorem leadingNumber?_eq_some_iff {t : Text} {x : α} :
    leadingNumber? t = some x ↔ ∃ n : Spelling, n.Leads t ∧ x = Scalar.ofNumeral n.value := by
  unfold leadingNumber?
  constructor
  · intro h
    obtain ⟨n, hn, htext, hends⟩ := exists_span_eq isDecimalDigit t
    dsimp only at h
    rw [← htext, Option.ite_none_right_eq_some] at h
    obtain ⟨hascii, hdigits, hx⟩ := (ofText?_eq_some_iff hn).mp h.2
    refine ⟨n, ⟨hascii, hdigits, _, ?_, hends⟩, hx⟩
    rw [htext, Coefficient.append_span]
  · rintro ⟨n, ⟨hascii, hdigits, u, rfl, hends⟩, rfl⟩
    have hany : n.text.any isDecimalDigit = true := by
      obtain ⟨c, rest, hc⟩ := List.exists_cons_of_ne_nil hdigits
      have hmem : c ∈ n.digits := hc ▸ List.mem_cons_self
      exact List.any_eq_true.mpr ⟨c, List.mem_append_right _ (mem_unsigned_of_mem_digits hmem),
        hascii.decimal c hmem⟩
    rw [span_text isDigitKind_decimal hascii.decimal hends]
    dsimp only
    rw [if_pos hany]
    exact (ofText?_eq_some_iff hascii.decimal).mpr ⟨hascii, hdigits, rfl⟩

theorem isSignedNumber_iff_exists {t : Text} :
    isSignedNumber t = true ↔ ∃ n : Spelling, n.Uses Char.isDigit ∧ n.IsNumber ∧ n.text = t := by
  rw [isSignedNumber_iff]
  constructor
  · intro h
    obtain ⟨sign, ht, -⟩ := exists_sign_append_takeSign t
    generalize t.takeSign.2 = k at h ht
    subst ht
    cases h with
    | whole hw =>
        refine ⟨⟨sign, k, none⟩, fun c hc => hw.2 c ?_, ⟨hw.1, nofun⟩, ?_⟩
        · simpa [digits] using hc
        · simp [text, unsigned, pointed]
    | @fraction w f hw hf =>
        refine ⟨⟨sign, w, some f⟩, fun c hc => ?_, ⟨hw.1, ?_⟩, rfl⟩
        · exact (List.mem_append.mp hc).elim (hw.2 c) (hf.2 c)
        · exact fun hnil => hf.1 (Option.some.inj hnil)
  · rintro ⟨n, hn, ⟨hwhole, hfraction⟩, rfl⟩
    have hwhole' : IsDigits n.whole := ⟨hwhole, hn.whole⟩
    rw [takeSign_text isDigitKind_ascii hn, unsigned, pointed]
    cases hf : n.fraction with
    | none =>
        dsimp only
        rw [List.append_nil]
        exact .whole hwhole'
    | some f =>
        refine .fraction hwhole' ⟨?_, hn.fraction hf⟩
        rintro rfl
        exact hfraction hf

end Numeral.Spelling

namespace ExponentArgument

/-- What a text behind the caret says: nothing and `x` are the variable, a number in front is a
factor of it, and any other text is kept. -/
inductive IsSaidBy : Text → ExponentArgument α → Prop where
  | nothing : IsSaidBy [] .variable
  | letter : IsSaidBy ['x'] .variable
  | scaled {t : Text} {n : Spelling} (hn : n.Leads t) :
    IsSaidBy t (.scaled (Scalar.ofNumeral n.value) t)
  | other {t : Text} (hnil : t ≠ []) (hx : t ≠ ['x']) (hn : ∀ n : Spelling, ¬n.Leads t) :
    IsSaidBy t (.other t)

theorem ofText_of_ne {t : Text} (hnil : t ≠ []) (hx : t ≠ ['x']) :
    (ofText t : ExponentArgument α) =
      (leadingNumber? t).elim (.other t) fun factor => .scaled factor t := by
  rw [ofText, if_neg (by simp [hnil, hx])]
  cases (leadingNumber? t : Option α) with
  | none | some => rfl

theorem isSaidBy_iff {t : Text} {argument : ExponentArgument α} :
    argument.IsSaidBy t ↔ argument = .ofText t := by
  constructor
  · intro h
    cases h with
    | nothing | letter => rfl
    | @scaled _ n hn =>
        have hnumber : leadingNumber? t = some (Scalar.ofNumeral n.value : α) :=
          Spelling.leadingNumber?_eq_some_iff.mpr ⟨n, hn, rfl⟩
        have hnil : t ≠ [] := by
          rintro rfl
          cases hnumber
        have hx : t ≠ ['x'] := by
          rintro rfl
          cases hnumber
        rw [ofText_of_ne hnil hx, hnumber, Option.elim_some]
    | other hnil hx hn =>
        have hnumber : (leadingNumber? t : Option α) = none := by
          rw [Option.eq_none_iff_forall_ne_some]
          intro x hsome
          obtain ⟨n, hleads, -⟩ := Spelling.leadingNumber?_eq_some_iff.mp hsome
          exact hn n hleads
        rw [ofText_of_ne hnil hx, hnumber, Option.elim_none]
  · rintro rfl
    by_cases hnil : t = []
    · subst hnil
      exact .nothing
    by_cases hx : t = ['x']
    · subst hx
      exact .letter
    rw [ofText_of_ne hnil hx]
    cases hnumber : (leadingNumber? t : Option α) with
    | some factor =>
        obtain ⟨n, hn, rfl⟩ := Spelling.leadingNumber?_eq_some_iff.mp hnumber
        exact .scaled hn
    | none =>
        refine .other hnil hx fun n hn => ?_
        rw [Spelling.leadingNumber?_eq_some_iff.mpr ⟨n, hn, rfl⟩] at hnumber
        cases hnumber

/-- Characters that an argument without brackets has behind its sign. -/
def IsLetters (t : Text) : Prop := ∀ c ∈ t, c.isAlphanum = true ∨ c = '.'

theorem startsSigned_of_isLetters {t : Text} (h : IsLetters t) : startsSigned t = false := by
  cases t with
  | nil => rfl
  | cons c t =>
      change isSign c = false
      rcases h c List.mem_cons_self with hletter | rfl
      · exact (inert_of_isAlphanum hletter).isSign_eq
      · rfl

theorem isBare_iff {t : Text} :
    isBare t = true ↔ ∃ sign letters, IsLetters letters ∧ Sign.text sign ++ letters = t := by
  have hletters : ∀ u : Text, (u.all fun c => c.isAlphanum || c == '.') = true ↔ IsLetters u := by
    intro u
    simp only [List.all_eq_true, Bool.or_eq_true, beq_iff_eq, IsLetters]
  unfold isBare
  rw [hletters]
  constructor
  · intro h
    obtain ⟨sign, ht, -⟩ := exists_sign_append_takeSign t
    exact ⟨sign, _, h, ht.symm⟩
  · rintro ⟨sign, letters, h, rfl⟩
    rwa [takeSign_sign_append sign (startsSigned_of_isLetters h)]

theorem raw?_of_isLetters {sign : Option Sign} {letters : Text} (h : IsLetters letters) :
    raw? (Sign.text sign ++ letters) = some (Sign.text sign ++ letters) := by
  have hbare := isBare_iff.mpr ⟨sign, letters, h, rfl⟩
  unfold raw?
  split
  · next rest heq =>
      rw [heq] at hbare
      cases (inert_of_isBare hbare '(' List.mem_cons_self).2.2.1 rfl
  · rw [if_pos hbare]

end ExponentArgument

/-! ### Tails -/

namespace Term

/-- What stands behind a coefficient. -/
inductive Tail where
  | linear
  | power (exponent : Spelling)
  | bracketed (argument : Text)
  | bare (sign : Option Sign) (letters : Text)
  | wave (kind : Wave)
deriving DecidableEq

namespace Tail

def text : Tail → Text
  | linear => ['x']
  | power n => 'x' :: '^' :: n.text
  | bracketed argument => 'e' :: '^' :: '(' :: (argument ++ [')'])
  | bare sign letters => 'e' :: '^' :: (Sign.text sign ++ letters)
  | wave .sin => ['s', 'i', 'n', '(', 'x', ')']
  | wave .cos => ['c', 'o', 's', '(', 'x', ')']

/-- Written with digits of one kind: an exponent is a number, an argument in brackets has no others
in it, and one without brackets is made of letters, digits and points. -/
def Uses (isDigit : Char → Bool) : Tail → Prop
  | power n => n.Uses isDigit ∧ n.IsNumber
  | bracketed argument => ∀ c ∈ argument, c ≠ '(' ∧ c ≠ ')'
  | bare _ letters => ExponentArgument.IsLetters letters
  | linear | wave _ => True

/-- The term with this coefficient. -/
inductive Denotes (c : α) : Tail → Term α → Prop where
  | linear : Denotes c linear (.linear c)
  | power (n : Spelling) : Denotes c (power n) (.power c (Scalar.ofNumeral n.value))
  | bracketed {raw : Text} {argument : ExponentArgument α} (h : argument.IsSaidBy raw) :
    Denotes c (bracketed raw) (.exponential c argument)
  | bare {sign : Option Sign} {letters : Text} {argument : ExponentArgument α}
    (h : argument.IsSaidBy (Sign.text sign ++ letters)) :
    Denotes c (bare sign letters) (.exponential c argument)
  | wave (kind : Wave) : Denotes c (wave kind) (.wave kind c)

theorem exists_denotes (c : α) (tail : Tail) : ∃ term : Term α, tail.Denotes c term := by
  cases tail with
  | linear => exact ⟨_, .linear⟩
  | power n => exact ⟨_, .power n⟩
  | bracketed argument => exact ⟨_, .bracketed (ExponentArgument.isSaidBy_iff.mpr rfl)⟩
  | bare sign letters => exact ⟨_, .bare (ExponentArgument.isSaidBy_iff.mpr rfl)⟩
  | wave kind => exact ⟨_, .wave kind⟩

variable {isDigit : Char → Bool} {tail tail' : Tail}

/-- A coefficient ends before a tail. -/
theorem endsBefore_text (hkind : Spelling.IsDigitKind isDigit) (n : Spelling) (tail : Tail) :
    n.EndsBefore isDigit tail.text := by
  rcases tail with _ | _ | _ | _ | _ | _ <;> exact Spelling.endsBefore_letter hkind rfl _

theorem Uses.decimal (h : tail.Uses Char.isDigit) : tail.Uses isDecimalDigit := by
  cases tail with
  | power n => exact ⟨h.1.decimal, h.2⟩
  | linear | bracketed | bare | wave => exact h

theorem text_ne_nil (tail : Tail) : tail.text ≠ [] := by
  rcases tail with _ | _ | _ | _ | _ | _ <;> exact List.cons_ne_nil _ _

theorem bracketed_ne_bare {argument letters : Text} {sign : Option Sign}
    (hletters : ExponentArgument.IsLetters letters) :
    '(' :: (argument ++ [')']) ≠ Sign.text sign ++ letters := by
  intro h
  have hmem : '(' ∈ Sign.text sign ++ letters := h ▸ List.mem_cons_self
  rcases List.mem_append.mp hmem with hsign | hletter
  · rcases sign with _ | _ | _ <;> simp [Sign.text, Sign.char] at hsign
  · rcases hletters _ hletter with hc | hc <;> cases hc

/-- A text is one tail at most. -/
theorem text_inj (hkind : Spelling.IsDigitKind isDigit) (htail : tail.Uses isDigit)
    (htail' : tail'.Uses isDigit) (h : tail.text = tail'.text) : tail = tail' := by
  -- Behind the letter only tails of the same kind can go on alike, and the two after `e^`.
  rcases tail with _ | n | argument | ⟨sign, letters⟩ | _ | _ <;>
    rcases tail' with _ | n' | argument' | ⟨sign', letters'⟩ | _ | _ <;>
      first | rfl | cases h | skip
  · have hn : n.text = n'.text := by simpa [text] using h
    rw [Spelling.text_inj hkind htail.1 htail'.1 hn]
  · have hargument : argument = argument' := by simpa [text] using h
    rw [hargument]
  · exact absurd (by simpa [text] using h) (bracketed_ne_bare htail')
  · exact absurd (by simpa [text] using h.symm) (bracketed_ne_bare htail)
  · have hletters : Sign.text sign ++ letters = Sign.text sign' ++ letters' := by
      simpa [text] using h
    obtain ⟨rfl, rfl⟩ := Sign.text_append_inj (ExponentArgument.startsSigned_of_isLetters htail)
      (ExponentArgument.startsSigned_of_isLetters htail') hletters
    rfl

/-- The reader finds the tails and what they denote. -/
theorem ofTail?_eq_some_iff {c : α} {t : Text} {term : Term α} :
    ofTail? c t = some term ↔
      ∃ tail : Tail, tail.Uses Char.isDigit ∧ tail.text = t ∧ tail.Denotes c term := by
  constructor
  · intro h
    unfold ofTail? at h
    split at h
    · cases h
      exact ⟨.linear, trivial, rfl, .linear⟩
    · rw [Option.ite_none_right_eq_some, Option.map_eq_some_iff] at h
      obtain ⟨hnumber, x, hx, rfl⟩ := h
      obtain ⟨n, hn, hisNumber, rfl⟩ := Spelling.isSignedNumber_iff_exists.mp hnumber
      obtain ⟨-, -, rfl⟩ := (Spelling.ofText?_eq_some_iff hn.decimal).mp hx
      exact ⟨.power n, ⟨hn, hisNumber⟩, rfl, .power n⟩
    · obtain ⟨raw, hraw, rfl⟩ := Option.map_eq_some_iff.mp h
      have hsaid : (ExponentArgument.ofText raw : ExponentArgument α).IsSaidBy raw :=
        ExponentArgument.isSaidBy_iff.mpr rfl
      rcases ExponentArgument.eq_or_of_raw? hraw with ⟨rfl, hbrackets⟩ | ⟨rfl, hbare⟩
      · exact ⟨.bracketed raw, hbrackets, rfl, .bracketed hsaid⟩
      · obtain ⟨sign, letters, hletters, rfl⟩ := ExponentArgument.isBare_iff.mp hbare
        exact ⟨.bare sign letters, hletters, rfl, .bare hsaid⟩
    · cases h
      exact ⟨.wave .sin, trivial, rfl, .wave .sin⟩
    · cases h
      exact ⟨.wave .cos, trivial, rfl, .wave .cos⟩
    · cases h
  · rintro ⟨tail, htail, rfl, hdenotes⟩
    cases hdenotes with
    | linear => rfl
    | power n =>
        change (if isSignedNumber n.text then (Scalar.ofText? n.text).map (Term.power c)
          else none) = _
        rw [if_pos (Spelling.isSignedNumber_iff_exists.mpr ⟨n, htail.1, htail.2, rfl⟩),
          (Spelling.ofText?_eq_some_iff htail.1.decimal).mpr ⟨htail.1, htail.2.digits_ne_nil, rfl⟩]
        rfl
    | bracketed hsaid =>
        rw [ExponentArgument.isSaidBy_iff.mp hsaid]
        exact congrArg (Option.map _) (ExponentArgument.raw?_group htail)
    | bare hsaid =>
        rw [ExponentArgument.isSaidBy_iff.mp hsaid]
        exact congrArg (Option.map _) (ExponentArgument.raw?_of_isLetters htail)
    | wave kind => cases kind <;> rfl

/-- The term with this coefficient, if what is written can be read. -/
def read? (c : α) : Tail → Option (Term α)
  | linear => some (.linear c)
  | power n => (Scalar.ofText? n.text).map (.power c)
  | bracketed argument => some (.exponential c (.ofText argument))
  | bare sign letters => some (.exponential c (.ofText (Sign.text sign ++ letters)))
  | wave kind => some (.wave kind c)

theorem read?_eq_some_iff {c : α} (htail : tail.Uses isDecimalDigit) {term : Term α} :
    tail.read? c = some term ↔ tail.Uses Char.isDigit ∧ tail.Denotes c term := by
  constructor
  · intro h
    cases tail with
    | linear =>
        cases h
        exact ⟨htail, .linear⟩
    | power n =>
        obtain ⟨x, hx, rfl⟩ := Option.map_eq_some_iff.mp h
        obtain ⟨hn, -, rfl⟩ := (Spelling.ofText?_eq_some_iff htail.1).mp hx
        exact ⟨⟨hn, htail.2⟩, .power n⟩
    | bracketed argument =>
        cases h
        exact ⟨htail, .bracketed (ExponentArgument.isSaidBy_iff.mpr rfl)⟩
    | bare sign letters =>
        cases h
        exact ⟨htail, .bare (ExponentArgument.isSaidBy_iff.mpr rfl)⟩
    | wave kind =>
        cases h
        exact ⟨htail, .wave kind⟩
  · rintro ⟨hascii, hdenotes⟩
    cases hdenotes with
    | linear | wave => rfl
    | power n =>
        exact Option.map_eq_some_iff.mpr ⟨_, (Spelling.ofText?_eq_some_iff htail.1).mpr
          ⟨hascii.1, hascii.2.digits_ne_nil, rfl⟩, rfl⟩
    | bracketed hsaid | bare hsaid =>
        rw [ExponentArgument.isSaidBy_iff.mp hsaid]
        rfl

end Tail

/-- A number, or a coefficient and a tail. -/
inductive Parts where
  | constant (number : Spelling)
  | product (coefficient : Spelling) (tail : Tail)
deriving DecidableEq

namespace Parts

def text : Parts → Text
  | constant n => n.text
  | product n tail => n.text ++ tail.text

/-- Written with digits of one kind. -/
def Uses (isDigit : Char → Bool) : Parts → Prop
  | constant n => n.Uses isDigit ∧ n.IsNumber
  | product n tail => n.Uses isDigit ∧ tail.Uses isDigit

/-- All numbers can be read: the digits are ASCII digits, and a coefficient that is more than a sign
has some. -/
def IsReadable : Parts → Prop
  | constant n => n.Uses Char.isDigit ∧ n.IsNumber
  | product n tail => n.IsCoefficient ∧ tail.Uses Char.isDigit

inductive Denotes : Parts → Term α → Prop where
  | constant (n : Spelling) : Denotes (constant n) (.constant (Scalar.ofNumeral n.value))
  | product {n : Spelling} {tail : Tail} {term : Term α} (h : tail.Denotes n.coefficient term) :
    Denotes (product n tail) term

theorem exists_denotes (p : Parts) : ∃ term : Term α, p.Denotes term := by
  cases p with
  | constant n => exact ⟨_, .constant n⟩
  | product n tail =>
      obtain ⟨term, h⟩ := tail.exists_denotes (n.coefficient : α)
      exact ⟨term, .product h⟩

theorem Denotes.isUnrecognized_eq {p : Parts} {term : Term α} (h : p.Denotes term) :
    term.isUnrecognized = false := by
  cases h with
  | constant => rfl
  | product h => cases h <;> rfl

variable {isDigit : Char → Bool} {p q : Parts}

/-- A text has parts in one way at most. -/
theorem text_inj (hkind : Spelling.IsDigitKind isDigit) (hp : p.Uses isDigit) (hq : q.Uses isDigit)
    (h : p.text = q.text) : p = q := by
  cases p with
  | constant n =>
      cases q with
      | constant m => rw [Spelling.text_inj hkind hp.1 hq.1 h]
      | product m tail =>
          obtain ⟨-, hnil⟩ := Spelling.text_append_inj hkind hp.1 hq.1 Spelling.endsBefore_nil
            (tail.endsBefore_text hkind m) ((List.append_nil _).trans h)
          exact absurd hnil.symm tail.text_ne_nil
  | product n tail =>
      cases q with
      | constant m =>
          obtain ⟨-, hnil⟩ := Spelling.text_append_inj hkind hp.1 hq.1
            (tail.endsBefore_text hkind n) Spelling.endsBefore_nil
            (h.trans (List.append_nil _).symm)
          exact absurd hnil tail.text_ne_nil
      | product m tail' =>
          obtain ⟨rfl, htail⟩ := Spelling.text_append_inj hkind hp.1 hq.1
            (tail.endsBefore_text hkind n) (tail'.endsBefore_text hkind m) h
          rw [Tail.text_inj hkind hp.2 hq.2 htail]

theorem Uses.decimal (h : p.Uses Char.isDigit) : p.Uses isDecimalDigit := by
  cases p with
  | constant n => exact ⟨h.1.decimal, h.2⟩
  | product n tail => exact ⟨h.1.decimal, h.2.decimal⟩

theorem IsReadable.uses (h : p.IsReadable) : p.Uses Char.isDigit := by
  cases p with
  | constant n => exact h
  | product n tail => exact ⟨h.1.1, h.2⟩

theorem not_isSignedNumber_product {n : Spelling} {tail : Tail} (hn : n.Uses Char.isDigit)
    (htail : tail.Uses Char.isDigit) : isSignedNumber (product n tail).text = false := by
  rw [Bool.eq_false_iff]
  intro h
  obtain ⟨m, hm, hnumber, htext⟩ := Spelling.isSignedNumber_iff_exists.mp h
  have hparts : constant m = product n tail :=
    text_inj Spelling.isDigitKind_ascii ⟨hm, hnumber⟩ ⟨hn, htail⟩ htext
  cases hparts

/-- The reader finds the readable parts and what they denote. -/
theorem ofTrimmed?_eq_some_iff {t : Text} {term : Term α} :
    ofTrimmed? t = some term ↔ ∃ p : Parts, p.IsReadable ∧ p.text = t ∧ p.Denotes term := by
  constructor
  · intro h
    unfold ofTrimmed? at h
    split at h
    · next hnumber =>
        obtain ⟨n, hn, hisNumber, rfl⟩ := Spelling.isSignedNumber_iff_exists.mp hnumber
        obtain ⟨x, hx, rfl⟩ := Option.map_eq_some_iff.mp h
        obtain ⟨-, -, rfl⟩ := (Spelling.ofText?_eq_some_iff hn.decimal).mp hx
        exact ⟨.constant n, ⟨hn, hisNumber⟩, rfl, .constant n⟩
    · obtain ⟨n, hn, htext, -⟩ := Spelling.exists_span_eq Char.isDigit t
      dsimp only at h
      obtain ⟨c, hc, hterm⟩ := Option.bind_eq_some_iff.mp h
      rw [← htext] at hc
      obtain ⟨hcoefficient, rfl⟩ := (Spelling.coefficientOfText?_eq_some_iff hn.decimal).mp hc
      obtain ⟨tail, htail, heq, hdenotes⟩ := Tail.ofTail?_eq_some_iff.mp hterm
      refine ⟨.product n tail, ⟨hcoefficient, htail⟩, ?_, .product hdenotes⟩
      rw [text, htext, heq, Coefficient.append_span]
  · rintro ⟨p, hp, rfl, hdenotes⟩
    cases hdenotes with
    | constant n =>
        have hnumber := Spelling.isSignedNumber_iff_exists.mpr ⟨n, hp.1, hp.2, rfl⟩
        rw [ofTrimmed?, text, if_pos hnumber,
          (Spelling.ofText?_eq_some_iff hp.1.decimal).mpr ⟨hp.1, hp.2.digits_ne_nil, rfl⟩]
        rfl
    | @product n tail term hdenotes =>
        have hn := hp.1.1
        rw [ofTrimmed?, not_isSignedNumber_product hn hp.2, text,
          Spelling.span_text Spelling.isDigitKind_ascii hn
            (tail.endsBefore_text Spelling.isDigitKind_ascii n)]
        change (Coefficient.ofText? n.text).bind _ = _
        rw [(Spelling.coefficientOfText?_eq_some_iff hn.decimal).mpr ⟨hp.1, rfl⟩]
        exact Tail.ofTail?_eq_some_iff.mpr ⟨tail, hp.2, rfl, hdenotes⟩

theorem ofTrimmed?_eq_none_iff {t : Text} :
    (ofTrimmed? t : Option (Term α)) = none ↔ ∀ p : Parts, p.IsReadable → p.text ≠ t := by
  rw [Option.eq_none_iff_forall_ne_some]
  constructor
  · intro h p hp htext
    obtain ⟨term, hterm⟩ := p.exists_denotes (α := α)
    exact h term (ofTrimmed?_eq_some_iff.mpr ⟨p, hp, htext, hterm⟩)
  · intro h term hterm
    obtain ⟨p, hp, htext, -⟩ := ofTrimmed?_eq_some_iff.mp hterm
    exact h p hp htext

/-- The term, if what is written can be read. -/
def read? : Parts → Option (Term α)
  | constant n => (Scalar.ofText? n.text).map .constant
  | product n tail => (Coefficient.ofText? n.text).bind (tail.read? ·)

theorem read?_eq_some_iff (hp : p.Uses isDecimalDigit) {term : Term α} :
    p.read? = some term ↔ p.IsReadable ∧ p.Denotes term := by
  cases p with
  | constant n =>
      simp only [read?, Option.map_eq_some_iff, Spelling.ofText?_eq_some_iff hp.1]
      constructor
      · rintro ⟨x, ⟨hn, -, rfl⟩, rfl⟩
        exact ⟨⟨hn, hp.2⟩, .constant n⟩
      · rintro ⟨hreadable, ⟨⟩⟩
        exact ⟨_, ⟨hreadable.1, hreadable.2.digits_ne_nil, rfl⟩, rfl⟩
  | product n tail =>
      simp only [read?, Option.bind_eq_some_iff, Spelling.coefficientOfText?_eq_some_iff hp.1,
        Tail.read?_eq_some_iff hp.2]
      constructor
      · rintro ⟨x, ⟨hn, rfl⟩, htail, hdenotes⟩
        exact ⟨⟨hn, htail⟩, .product hdenotes⟩
      · rintro ⟨⟨hn, htail⟩, hproduct⟩
        cases hproduct with
        | product hdenotes => exact ⟨_, ⟨hn, rfl⟩, htail, hdenotes⟩

/-- Parts written with digits of any script are what the reader looks at. -/
theorem ofTrimmed?_text (hp : p.Uses isDecimalDigit) :
    (ofTrimmed? p.text : Option (Term α)) = p.read? := by
  ext term
  rw [ofTrimmed?_eq_some_iff, read?_eq_some_iff hp]
  constructor
  · rintro ⟨q, hq, htext, hdenotes⟩
    obtain rfl := text_inj Spelling.isDigitKind_decimal hq.uses.decimal hp htext
    exact ⟨hq, hdenotes⟩
  · rintro ⟨hreadable, hdenotes⟩
    exact ⟨p, hreadable, rfl, hdenotes⟩

end Parts

end Term

end Univariate
