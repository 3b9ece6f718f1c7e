import Mathlib.Computability.Language
import Univariate.Proofs.Term.Parts

/-!
# The shapes of a term

Each shape is a pattern of characters. No text has two of the patterns, so the order in which they
are tried does not matter, and the reader decides without trying them: it finds the parts of the one
pattern that the text may have.
-/

namespace Univariate

open Computability
open Numeral (Spelling)
open Summand (isSign)
open Text (isDecimalDigit)

namespace Text

/-! ### Patterns -/

/-- One character of a class. -/
def oneOf (isMember : Char → Bool) : Language Char := {t | ∃ c, isMember c = true ∧ t = [c]}

/-- What a question mark says. -/
def optional (l : Language Char) : Language Char := 1 + l

variable {isMember : Char → Bool} {t : Text}

theorem mem_kstar_oneOf : t ∈ (oneOf isMember)∗ ↔ ∀ c ∈ t, isMember c = true := by
  rw [Language.mem_kstar]
  constructor
  · rintro ⟨pieces, rfl, hpieces⟩ c hc
    obtain ⟨piece, hpiece, hmem⟩ := List.mem_flatten.mp hc
    obtain ⟨d, hd, rfl⟩ := hpieces piece hpiece
    rwa [List.mem_singleton.mp hmem]
  · intro h
    refine ⟨t.map ([·]), (List.flatMap_singleton' t).symm, fun piece hpiece => ?_⟩
    obtain ⟨c, hc, rfl⟩ := List.mem_map.mp hpiece
    exact ⟨c, h c hc, rfl⟩

theorem mem_oneOf_mul_kstar :
    t ∈ oneOf isMember * (oneOf isMember)∗ ↔ t ≠ [] ∧ ∀ c ∈ t, isMember c = true := by
  rw [Language.mem_mul]
  constructor
  · rintro ⟨_, ⟨c, hc, rfl⟩, u, hu, rfl⟩
    exact ⟨List.cons_ne_nil _ _, List.forall_mem_cons.mpr ⟨hc, mem_kstar_oneOf.mp hu⟩⟩
  · rintro ⟨hne, h⟩
    obtain ⟨c, u, rfl⟩ := List.exists_cons_of_ne_nil hne
    obtain ⟨hc, hu⟩ := List.forall_mem_cons.mp h
    exact ⟨[c], ⟨c, hc, rfl⟩, u, mem_kstar_oneOf.mpr hu, rfl⟩

theorem mem_optional {l : Language Char} : t ∈ optional l ↔ t = [] ∨ t ∈ l := Iff.rfl

theorem mem_literal {u : Text} : t ∈ ({u} : Language Char) ↔ t = u := Iff.rfl

theorem mem_singleton_mul {u : Text} {l : Language Char} :
    t ∈ ({u} * l : Language Char) ↔ ∃ v ∈ l, u ++ v = t := by
  rw [Language.mem_mul]
  exact ⟨fun ⟨_, rfl, h⟩ => h, fun h => ⟨u, rfl, h⟩⟩

end Text

open Text (oneOf optional)

namespace Term

inductive Shape where
  | power
  | linear
  | exponential
  | constant
  | wave
deriving DecidableEq, Repr

namespace Shape

def signPattern : Language Char := optional (oneOf isSign)

def digitsPattern : Language Char := oneOf isDecimalDigit * (oneOf isDecimalDigit)∗

def coefficientPattern : Language Char :=
  signPattern * ((oneOf isDecimalDigit)∗ * (optional {['.']} * (oneOf isDecimalDigit)∗))

def numberPattern : Language Char :=
  signPattern * (digitsPattern * optional ({['.']} * digitsPattern))

/-- A text in brackets, or letters, digits and points after an optional sign. -/
def argumentPattern : Language Char :=
  {['(']} * ((oneOf fun c => c != '(' && c != ')')∗ * {[')']}) +
    signPattern * (oneOf fun c => c.isAlphanum || c == '.')∗

/-- The whole text has to match. -/
def pattern : Shape → Language Char
  | power => coefficientPattern * ({['x', '^']} * numberPattern)
  | linear => coefficientPattern * {['x']}
  | exponential => coefficientPattern * ({['e', '^']} * argumentPattern)
  | constant => numberPattern
  | wave => coefficientPattern * (({['s', 'i', 'n']} + {['c', 'o', 's']}) * {['(', 'x', ')']})

variable {t : Text}

theorem mem_signPattern : t ∈ signPattern ↔ ∃ sign, Sign.text sign = t := by
  constructor
  · rintro (rfl | ⟨c, hc, rfl⟩)
    · exact ⟨none, rfl⟩
    · obtain ⟨sign, rfl⟩ := Sign.exists_char_eq hc
      exact ⟨some sign, rfl⟩
  · rintro ⟨_ | sign, rfl⟩
    · exact Or.inl rfl
    · exact Or.inr ⟨sign.char, sign.isSign_char, rfl⟩

theorem mem_coefficientPattern :
    t ∈ coefficientPattern ↔ ∃ n : Spelling, n.Uses isDecimalDigit ∧ n.text = t := by
  simp only [coefficientPattern, Language.mem_mul, mem_signPattern, Text.mem_kstar_oneOf,
    Text.mem_optional, Text.mem_literal]
  constructor
  · rintro ⟨_, ⟨sign, rfl⟩, _, ⟨w, hw, _, ⟨_, rfl | rfl, f, hf, rfl⟩, rfl⟩, rfl⟩
    · refine ⟨⟨sign, w ++ f, none⟩, fun c hc => ?_, by simp [Spelling.text, Spelling.unsigned,
        Spelling.pointed]⟩
      rw [Spelling.digits, Option.getD_none, List.append_nil] at hc
      exact (List.mem_append.mp hc).elim (hw c) (hf c)
    · exact ⟨⟨sign, w, some f⟩, fun c hc => (List.mem_append.mp hc).elim (hw c) (hf c), rfl⟩
  · rintro ⟨n, hn, rfl⟩
    refine ⟨_, ⟨n.sign, rfl⟩, n.unsigned, ⟨n.whole, hn.whole, n.pointed, ?_, rfl⟩, rfl⟩
    unfold Spelling.pointed
    split
    · exact ⟨[], Or.inl rfl, [], List.forall_mem_nil _, rfl⟩
    · next f hf => exact ⟨['.'], Or.inr rfl, f, hn.fraction hf, rfl⟩

theorem mem_coefficientPattern_mul {l : Language Char} :
    t ∈ coefficientPattern * l ↔
      ∃ n : Spelling, n.Uses isDecimalDigit ∧ ∃ u ∈ l, n.text ++ u = t := by
  rw [Language.mem_mul]
  constructor
  · rintro ⟨_, hcoefficient, h⟩
    obtain ⟨n, hn, rfl⟩ := mem_coefficientPattern.mp hcoefficient
    exact ⟨n, hn, h⟩
  · rintro ⟨n, hn, h⟩
    exact ⟨n.text, mem_coefficientPattern.mpr ⟨n, hn, rfl⟩, h⟩

theorem mem_digitsPattern : t ∈ digitsPattern ↔ t ≠ [] ∧ ∀ c ∈ t, isDecimalDigit c = true :=
  Text.mem_oneOf_mul_kstar

theorem mem_numberPattern :
    t ∈ numberPattern ↔ ∃ n : Spelling, n.Uses isDecimalDigit ∧ n.IsNumber ∧ n.text = t := by
  simp only [numberPattern, Language.mem_mul, mem_signPattern, mem_digitsPattern, Text.mem_optional,
    Text.mem_literal]
  constructor
  · rintro ⟨_, ⟨sign, rfl⟩, _, ⟨w, ⟨hne, hw⟩, _, rfl | ⟨_, rfl, f, ⟨hne', hf⟩, rfl⟩, rfl⟩, rfl⟩
    · refine ⟨⟨sign, w, none⟩, fun c hc => hw c ?_, ⟨hne, nofun⟩, rfl⟩
      rwa [Spelling.digits, Option.getD_none, List.append_nil] at hc
    · exact ⟨⟨sign, w, some f⟩, fun c hc => (List.mem_append.mp hc).elim (hw c) (hf c),
        ⟨hne, fun hnil => hne' (Option.some.inj hnil)⟩, rfl⟩
  · rintro ⟨n, hn, ⟨hwhole, hfraction⟩, rfl⟩
    refine ⟨_, ⟨n.sign, rfl⟩, n.unsigned, ⟨n.whole, ⟨hwhole, hn.whole⟩, n.pointed, ?_, rfl⟩, rfl⟩
    unfold Spelling.pointed
    split
    · exact Or.inl rfl
    · next f hf =>
        refine Or.inr ⟨['.'], rfl, f, ⟨?_, hn.fraction hf⟩, rfl⟩
        rintro rfl
        exact hfraction hf

/-- The two tails that stand behind `e^`. -/
theorem mem_argumentPattern :
    t ∈ argumentPattern ↔
      (∃ argument : Text, (∀ c ∈ argument, c ≠ '(' ∧ c ≠ ')') ∧ '(' :: (argument ++ [')']) = t) ∨
        ∃ sign letters, ExponentArgument.IsLetters letters ∧ Sign.text sign ++ letters = t := by
  simp only [argumentPattern, Language.mem_add, Language.mem_mul, mem_signPattern,
    Text.mem_kstar_oneOf, Text.mem_literal, Bool.and_eq_true, bne_iff_ne, Bool.or_eq_true,
    beq_iff_eq]
  refine or_congr ⟨?_, ?_⟩ ⟨?_, ?_⟩
  · rintro ⟨_, rfl, _, ⟨argument, h, _, rfl, rfl⟩, rfl⟩
    exact ⟨argument, h, rfl⟩
  · rintro ⟨argument, h, rfl⟩
    exact ⟨['('], rfl, _, ⟨argument, h, [')'], rfl, rfl⟩, rfl⟩
  · rintro ⟨_, ⟨sign, rfl⟩, letters, h, rfl⟩
    exact ⟨sign, letters, h, rfl⟩
  · rintro ⟨sign, letters, h, rfl⟩
    exact ⟨_, ⟨sign, rfl⟩, letters, h, rfl⟩

end Shape

def Tail.shape : Tail → Shape
  | linear => .linear
  | power _ => .power
  | bracketed _ | bare _ _ => .exponential
  | wave _ => .wave

def Parts.shape : Parts → Shape
  | constant _ => .constant
  | product _ tail => tail.shape

namespace Shape

variable {shape : Shape} {t : Text}

/-- A text has the pattern of a shape if it is made of parts of that shape, with digits of any
script. -/
theorem mem_pattern_iff :
    t ∈ shape.pattern ↔
      ∃ p : Parts, p.Uses isDecimalDigit ∧ p.shape = shape ∧ p.text = t := by
  constructor
  · intro h
    cases shape with
    | constant =>
        obtain ⟨n, hn, hnumber, rfl⟩ := mem_numberPattern.mp h
        exact ⟨.constant n, ⟨hn, hnumber⟩, rfl, rfl⟩
    | linear =>
        obtain ⟨n, hn, _, rfl, rfl⟩ := mem_coefficientPattern_mul.mp h
        exact ⟨.product n .linear, ⟨hn, trivial⟩, rfl, rfl⟩
    | power =>
        obtain ⟨n, hn, _, htail, rfl⟩ := mem_coefficientPattern_mul.mp h
        obtain ⟨_, hexponent, rfl⟩ := Text.mem_singleton_mul.mp htail
        obtain ⟨m, hm, hnumber, rfl⟩ := mem_numberPattern.mp hexponent
        exact ⟨.product n (.power m), ⟨hn, hm, hnumber⟩, rfl, rfl⟩
    | exponential =>
        obtain ⟨n, hn, _, htail, rfl⟩ := mem_coefficientPattern_mul.mp h
        obtain ⟨_, hargument, rfl⟩ := Text.mem_singleton_mul.mp htail
        rcases mem_argumentPattern.mp hargument with
          ⟨argument, hbrackets, rfl⟩ | ⟨sign, letters, hletters, rfl⟩
        · exact ⟨.product n (.bracketed argument), ⟨hn, hbrackets⟩, rfl, rfl⟩
        · exact ⟨.product n (.bare sign letters), ⟨hn, hletters⟩, rfl, rfl⟩
    | wave =>
        obtain ⟨n, hn, _, htail, rfl⟩ := mem_coefficientPattern_mul.mp h
        obtain ⟨_, rfl | rfl, _, rfl, rfl⟩ := Language.mem_mul.mp htail
        · exact ⟨.product n (.wave .sin), ⟨hn, trivial⟩, rfl, rfl⟩
        · exact ⟨.product n (.wave .cos), ⟨hn, trivial⟩, rfl, rfl⟩
  · rintro ⟨p, hp, rfl, rfl⟩
    cases p with
    | constant n => exact mem_numberPattern.mpr ⟨n, hp.1, hp.2, rfl⟩
    | product n tail =>
        obtain ⟨hn, htail⟩ := hp
        cases tail with
        | linear => exact mem_coefficientPattern_mul.mpr ⟨n, hn, _, rfl, rfl⟩
        | power m =>
            have hexponent := mem_numberPattern.mpr ⟨m, htail.1, htail.2, rfl⟩
            exact mem_coefficientPattern_mul.mpr
              ⟨n, hn, _, Text.mem_singleton_mul.mpr ⟨_, hexponent, rfl⟩, rfl⟩
        | bracketed argument =>
            have hargument := mem_argumentPattern.mpr (Or.inl ⟨argument, htail, rfl⟩)
            exact mem_coefficientPattern_mul.mpr
              ⟨n, hn, _, Text.mem_singleton_mul.mpr ⟨_, hargument, rfl⟩, rfl⟩
        | bare sign letters =>
            have hargument := mem_argumentPattern.mpr (Or.inr ⟨sign, letters, htail, rfl⟩)
            exact mem_coefficientPattern_mul.mpr
              ⟨n, hn, _, Text.mem_singleton_mul.mpr ⟨_, hargument, rfl⟩, rfl⟩
        | wave kind =>
            refine mem_coefficientPattern_mul.mpr ⟨n, hn, _, ?_, rfl⟩
            cases kind with
            | sin => exact Language.append_mem_mul (a := ['s', 'i', 'n']) (Or.inl rfl) rfl
            | cos => exact Language.append_mem_mul (a := ['c', 'o', 's']) (Or.inr rfl) rfl

/-- No text has two shapes. -/
theorem eq_of_mem_pattern {shape' : Shape} (h : t ∈ shape.pattern) (h' : t ∈ shape'.pattern) :
    shape = shape' := by
  obtain ⟨p, hp, rfl, htext⟩ := mem_pattern_iff.mp h
  obtain ⟨q, hq, rfl, htext'⟩ := mem_pattern_iff.mp h'
  rw [Parts.text_inj Spelling.isDigitKind_decimal hp hq (htext.trans htext'.symm)]

end Shape

/-! ### One shape after the other -/

variable {α : Type} [Scalar α]

/-- What comes out when the shapes are tried in this order: the first one whose pattern the text has
decides, and a number in it that cannot be read leaves the text unrecognized. -/
inductive Tried (t : Text) : List Shape → Term α → Prop where
  | exhausted : Tried t [] (.unrecognized t)
  | passed {shape : Shape} {order : List Shape} {term : Term α} (h : t ∉ shape.pattern)
    (hrest : Tried t order term) : Tried t (shape :: order) term
  | taken {p : Parts} (order : List Shape) (hp : p.Uses isDecimalDigit) (htext : p.text = t) :
    Tried t (p.shape :: order) (p.read?.getD (.unrecognized t))

namespace Tried

variable {t : Text} {order : List Shape} {term : Term α}

theorem exists_term (t : Text) (order : List Shape) : ∃ term : Term α, Tried t order term := by
  induction order with
  | nil => exact ⟨_, .exhausted⟩
  | cons shape order ih =>
      by_cases h : t ∈ shape.pattern
      · obtain ⟨p, hp, rfl, htext⟩ := Shape.mem_pattern_iff.mp h
        exact ⟨_, .taken order hp htext⟩
      · obtain ⟨term, hterm⟩ := ih
        exact ⟨term, .passed h hterm⟩

/-- A shape that is tried and fits decides as the reader does, whatever was tried before it. -/
theorem eq_or_forall_not_mem (h : Tried t order term) :
    term = (ofTrimmed? t).getD (.unrecognized t) ∨
      term = .unrecognized t ∧ ∀ shape ∈ order, t ∉ shape.pattern := by
  induction h with
  | exhausted => exact Or.inr ⟨rfl, nofun⟩
  | passed h _ ih =>
      exact ih.imp_right fun ⟨hterm, hrest⟩ => ⟨hterm, List.forall_mem_cons.mpr ⟨h, hrest⟩⟩
  | taken order hp htext =>
      refine Or.inl ?_
      rw [← Parts.ofTrimmed?_text hp, htext]

theorem ofTrimmed?_eq_none (h : ∀ shape : Shape, t ∉ shape.pattern) :
    (ofTrimmed? t : Option (Term α)) = none :=
  Parts.ofTrimmed?_eq_none_iff.mpr fun p hp htext =>
    h p.shape (Shape.mem_pattern_iff.mpr ⟨p, hp.uses.decimal, rfl, htext⟩)

/-- Any order in which all shapes are tried does. -/
theorem iff_of_complete (hcomplete : ∀ shape, shape ∈ order) :
    Tried t order term ↔ term = (ofTrimmed? t).getD (.unrecognized t) := by
  have heq : ∀ {term : Term α}, Tried t order term →
      term = (ofTrimmed? t).getD (.unrecognized t) := by
    intro term h
    rcases h.eq_or_forall_not_mem with hterm | ⟨hterm, hnone⟩
    · exact hterm
    · rw [hterm, ofTrimmed?_eq_none fun shape => hnone shape (hcomplete shape), Option.getD_none]
  refine ⟨heq, ?_⟩
  rintro rfl
  obtain ⟨term, h⟩ := exists_term (α := α) t order
  rwa [← heq h]

end Tried

/-- What the trimmed text decides about its term. -/
structure Classified (α : Type) [Scalar α] (s : Text) : Prop where
  atMostOneShape : ∀ shape shape' : Shape,
    s.trim ∈ shape.pattern → s.trim ∈ shape'.pattern → shape = shape'
  anyOrder : ∀ order : List Shape, (∀ shape, shape ∈ order) →
    ∀ term : Term α, Tried s.trim order term ↔ term = ofText s
  recognized : (ofText s : Term α).isUnrecognized = false ↔
    ∃ p : Parts, p.IsReadable ∧ p.text = s.trim
  oneReading : ∀ p q : Parts, p.IsReadable → p.text = s.trim → q.IsReadable → q.text = s.trim →
    p = q
  denoted : ∀ p : Parts, p.IsReadable → p.text = s.trim →
    ∀ term : Term α, p.Denotes term ↔ term = ofText s
  kept : (∀ p : Parts, p.IsReadable → p.text ≠ s.trim) →
    (ofText s : Term α) = .unrecognized s.trim

theorem ofText_eq_of_denotes {s : Text} {p : Parts} {term : Term α} (hp : p.IsReadable)
    (htext : p.text = s.trim) (h : p.Denotes term) : ofText s = term := by
  rw [ofText, Parts.ofTrimmed?_eq_some_iff.mpr ⟨p, hp, htext, h⟩, Option.getD_some]

theorem ofText_eq_unrecognized_of_forall_ne {s : Text}
    (h : ∀ p : Parts, p.IsReadable → p.text ≠ s.trim) :
    (ofText s : Term α) = .unrecognized s.trim := by
  rw [ofText, Parts.ofTrimmed?_eq_none_iff.mpr h, Option.getD_none]

/-- **Reading accepts the grammar of the parts and nothing else**, whatever order the shapes are
tried in. -/
theorem classified_ofText (s : Text) : Classified α s where
  atMostOneShape _ _ := Shape.eq_of_mem_pattern
  anyOrder _ hcomplete _ := Tried.iff_of_complete hcomplete
  recognized := by
    constructor
    · intro h
      by_contra hnone
      have hraw : (ofText s : Term α) = .unrecognized s.trim :=
        ofText_eq_unrecognized_of_forall_ne fun p hp htext => hnone ⟨p, hp, htext⟩
      rw [hraw] at h
      cases h
    · rintro ⟨p, hp, htext⟩
      obtain ⟨term, hterm⟩ := p.exists_denotes (α := α)
      rw [ofText_eq_of_denotes hp htext hterm]
      exact hterm.isUnrecognized_eq
  oneReading p q hp htext hq htext' := Parts.text_inj Spelling.isDigitKind_ascii hp.uses hq.uses
    (htext.trans htext'.symm)
  denoted p hp htext term := by
    constructor
    · exact fun h => (ofText_eq_of_denotes hp htext h).symm
    · rintro rfl
      obtain ⟨term, hterm⟩ := p.exists_denotes (α := α)
      rwa [ofText_eq_of_denotes hp htext hterm]
  kept := ofText_eq_unrecognized_of_forall_ne

end Term

end Univariate
