import Mathlib.Data.List.Forall2
import Univariate.Document

/-!
# Written documents

How sections can be laid out in a text: titles and pairs with gaps between them, and lines that do
not count in between. Without these lines the text is again a layout of the same sections.
-/

namespace Univariate.Document

/-! ### What is written -/

-- The instance for a quantifier over a finite type would go through every character there is.
instance (priority := 1100) (P : Char → Prop) [DecidablePred P] (t : Text) :
    Decidable (∀ c ∈ t, P c) :=
  List.decidableBAll P t

/-- A letter or `_`, and then letters, digits and `_`. -/
def IsName : Text → Prop
  | [] => False
  | c :: rest => (c.isAlpha = true ∨ c = '_') ∧ ∀ d ∈ rest, d.isAlphanum = true ∨ d = '_'

instance : DecidablePred IsName
  | [] => inferInstanceAs (Decidable False)
  | _ :: rest => inferInstanceAs (Decidable (_ ∧ ∀ d ∈ rest, _))

theorem IsName.exists_cons {t : Text} (h : IsName t) :
    ∃ c rest, t = c :: rest ∧ (c.isAlpha = true ∨ c = '_') ∧
      ∀ d ∈ rest, d.isAlphanum = true ∨ d = '_' := by
  cases t with
  | nil => exact h.elim
  | cons c rest => exact ⟨c, rest, rfl, h⟩

structure IsValueText (t : Text) : Prop where
  ne_nil : t ≠ []
  visible : ∀ c ∈ t, Text.isBlank c = false ∧ c ≠ ',' ∧ c ≠ ';'

instance : DecidablePred IsValueText := fun _ =>
  decidable_of_iff _ ⟨fun h => IsValueText.mk h.1 h.2, fun h => And.intro h.ne_nil h.visible⟩

structure IsWritablePair (pair : Text × List Text) : Prop where
  key : IsName pair.1
  values_ne_nil : pair.2 ≠ []
  values : ∀ value ∈ pair.2, IsValueText value

instance : DecidablePred IsWritablePair := fun _ =>
  decidable_of_iff _ ⟨fun h => IsWritablePair.mk h.1 h.2.1 h.2.2,
    fun h => And.intro h.key (And.intro h.values_ne_nil h.values)⟩

structure IsWritable (s : WrittenSection) : Prop where
  title : IsName s.title
  pairs_ne_nil : s.pairs ≠ []
  pairs : ∀ pair ∈ s.pairs, IsWritablePair pair

instance : DecidablePred IsWritable := fun _ =>
  decidable_of_iff _ ⟨fun h => IsWritable.mk h.1 h.2.1 h.2.2,
    fun h => And.intro h.title (And.intro h.pairs_ne_nil h.pairs)⟩

/-! ### How it is laid out -/

def IsSpace (c : Char) : Prop := c = ' ' ∨ c = '\t'

def IsGap (c : Char) : Prop := IsSpace c ∨ c = '\n'

instance : DecidablePred IsSpace := fun _ => inferInstanceAs (Decidable (_ ∨ _))

instance : DecidablePred IsGap := fun _ => inferInstanceAs (Decidable (_ ∨ _))

/-- Spaces and tabs can stand around the commas. -/
inductive WritesValues : List Text → Text → Prop
  | single (value : Text) : WritesValues [value] value
  | cons (value : Text) {before after : Text} {values : List Text} {t : Text}
    (hbefore : ∀ c ∈ before, IsSpace c) (hafter : ∀ c ∈ after, IsSpace c)
    (h : WritesValues values t) :
    WritesValues (value :: values) (value ++ (before ++ ',' :: (after ++ t)))

/-- Spaces and tabs can stand around the colon. -/
inductive WritesPair : Text × List Text → Text → Prop
  | mk (key : Text) {before after : Text} {values : List Text} {t : Text}
    (hbefore : ∀ c ∈ before, IsSpace c) (hafter : ∀ c ∈ after, IsSpace c)
    (h : WritesValues values t) :
    WritesPair (key, values) (key ++ (before ++ ':' :: (after ++ t)))

/-- The words of a document: each title, and then each pair of its section. -/
inductive WritesSections : List WrittenSection → List Text → Prop
  | nil : WritesSections [] []
  | cons {s : WrittenSection} {pairs words : List Text} {sections : List WrittenSection}
    (hpairs : List.Forall₂ WritesPair s.pairs pairs) (h : WritesSections sections words) :
    WritesSections (s :: sections) (s.title :: (pairs ++ words))

/-- The words in their order, after each one the end or a gap. -/
inductive Spaced (IsGap : Char → Prop) : List Text → Text → Prop
  | nil : Spaced IsGap [] []
  | gap {c : Char} {words : List Text} {t : Text} (hc : IsGap c) (h : Spaced IsGap words t) :
    Spaced IsGap words (c :: t)
  | word {word : Text} {words : List Text} {t : Text} (hnext : ∀ c, t.head? = some c → IsGap c)
    (h : Spaced IsGap words t) : Spaced IsGap (word :: words) (word ++ t)

/-- Nothing after the blanks, or a comment mark. -/
def IsIgnoredLine (line : Text) : Prop :=
  ∃ blanks rest, line = blanks ++ rest ∧ (∀ c ∈ blanks, Text.isBlank c = true) ∧ '\n' ∉ line ∧
    (rest = [] ∨ ['/', '/'] <+: rest ∨ ['#'] <+: rest ∨ ['%'] <+: rest ∨ [';'] <+: rest)

/-- The same lines with ignored lines between them. -/
inductive Interspersed : List Text → List Text → Prop
  | nil : Interspersed [] []
  | ignored {line : Text} {lines lines' : List Text} (hline : IsIgnoredLine line)
    (h : Interspersed lines lines') : Interspersed lines (line :: lines')
  | kept (line : Text) {lines lines' : List Text} (h : Interspersed lines lines') :
    Interspersed (line :: lines) (line :: lines')

def IsLayout (sections : List WrittenSection) (t : Text) : Prop :=
  ∃ words plain lines, WritesSections sections words ∧ Spaced IsGap words plain ∧
    Interspersed (plain.splitOn '\n') lines ∧ t = List.intercalate ['\n'] lines

/-! ### Gaps -/

namespace Spaced

variable {P : Char → Prop} {word : Text} {words : List Text} {t : Text}

theorem of_forall {words : List Text} {u : Text} (hu : ∀ c ∈ u, P c) (h : Spaced P words t) :
    Spaced P words (u ++ t) := by
  induction u with
  | nil => exact h
  | cons c u ih =>
      exact .gap (hu c List.mem_cons_self) (ih fun d hd => hu d (List.mem_cons_of_mem c hd))

theorem word_append (gap : Text) (hne : gap ≠ []) (hgap : ∀ c ∈ gap, P c) (h : Spaced P words t) :
    Spaced P (word :: words) (word ++ (gap ++ t)) := by
  refine .word (fun c hc => ?_) (of_forall hgap h)
  obtain ⟨b, gap, rfl⟩ := List.exists_cons_of_ne_nil hne
  have hb : b = c := Option.some.inj hc
  exact hb ▸ hgap b List.mem_cons_self

end Spaced

end Univariate.Document
