import Mathlib.Data.List.Forall2
import Univariate.Proofs.Document.Layout
import Univariate.Proofs.Text.Lines

/-!
# Words and lines of a document

A written document is a sequence of words, one for each title and one for each pair, with gaps and
lines that do not count between them. A pair without values ends its line, since what stands behind
the colon would be read as its value. Every layout is a writing; a writing can also have pairs
without values, and sections without pairs.
-/

namespace Univariate.Document

open Text (splitOn_newline exists_splitOn_cons exists_splitOn_append exists_append_of_splitOn
  head?_of_splitOn)

/-! ### What is written -/

structure IsSpelledPair (pair : Text × List Text) : Prop where
  key : IsName pair.1
  values : ∀ value ∈ pair.2, IsValueText value

instance : DecidablePred IsSpelledPair := fun _ =>
  decidable_of_iff _ ⟨fun h => IsSpelledPair.mk h.1 h.2, fun h => And.intro h.key h.values⟩

structure IsSpelled (s : WrittenSection) : Prop where
  title : IsName s.title
  pairs : ∀ pair ∈ s.pairs, IsSpelledPair pair

instance : DecidablePred IsSpelled := fun _ =>
  decidable_of_iff _ ⟨fun h => IsSpelled.mk h.1 h.2, fun h => And.intro h.title h.pairs⟩

theorem IsWritable.isSpelled {s : WrittenSection} (h : IsWritable s) : IsSpelled s :=
  ⟨h.title, fun pair hpair => ⟨(h.pairs pair hpair).key, (h.pairs pair hpair).values⟩⟩

/-- A word, and whether it must be the last one in its line. -/
structure Word where
  text : Text
  endsLine : Bool

inductive WritesWord : Text × List Text → Word → Prop
  | values {pair : Text × List Text} {t : Text} (h : WritesPair pair t) : WritesWord pair ⟨t, false⟩
  | noValues (key : Text) {before : Text} (hbefore : ∀ c ∈ before, IsSpace c) :
    WritesWord (key, []) ⟨key ++ (before ++ [':']), true⟩

/-- Each title, and then each pair of its section. -/
inductive WritesWords : List WrittenSection → List Word → Prop
  | nil : WritesWords [] []
  | cons {s : WrittenSection} {pairs words : List Word} {sections : List WrittenSection}
    (hpairs : List.Forall₂ WritesWord s.pairs pairs) (h : WritesWords sections words) :
    WritesWords (s :: sections) (⟨s.title, false⟩ :: (pairs ++ words))

/-- What can stand behind a word. -/
structure Follows (P : Char → Prop) (word : Word) (t : Text) : Prop where
  gap : ∀ c, t.head? = some c → P c
  newline : word.endsLine = true → ∀ c, (skipSpaces t).head? = some c → c = '\n'

/-- The words in their order, with gaps. -/
inductive Typeset (P : Char → Prop) : List Word → Text → Prop
  | nil : Typeset P [] []
  | gap {c : Char} {words : List Word} {t : Text} (hc : P c) (h : Typeset P words t) :
    Typeset P words (c :: t)
  | word {word : Word} {words : List Word} {t : Text} (hfollows : Follows P word t)
    (h : Typeset P words t) : Typeset P (word :: words) (word.text ++ t)

def IsWriting (sections : List WrittenSection) (t : Text) : Prop :=
  ∃ words plain lines, WritesWords sections words ∧ Typeset IsGap words plain ∧
    Interspersed (plain.splitOn '\n') lines ∧ t = List.intercalate ['\n'] lines

/-! ### Layouts are writings -/

/-- Words with values, which need not end their lines. -/
def freeWords (words : List Text) : List Word := words.map fun word => ⟨word, false⟩

theorem Spaced.typeset {P : Char → Prop} {words : List Text} {t : Text} (h : Spaced P words t) :
    Typeset P (freeWords words) t := by
  induction h with
  | nil => exact .nil
  | gap hc _ ih => exact .gap hc ih
  | @word word _ t hnext _ ih =>
      have hfollows : Follows P ⟨word, false⟩ t := ⟨hnext, nofun⟩
      exact .word hfollows ih

theorem forall₂_freeWords {pairs : List (Text × List Text)} {texts : List Text}
    (h : List.Forall₂ WritesPair pairs texts) : List.Forall₂ WritesWord pairs (freeWords texts) := by
  induction h with
  | nil => exact .nil
  | cons hpair _ ih => exact .cons (.values hpair) ih

theorem WritesSections.writesWords {sections : List WrittenSection} {words : List Text}
    (h : WritesSections sections words) : WritesWords sections (freeWords words) := by
  induction h with
  | nil => exact .nil
  | cons hpairs _ ih =>
      rw [freeWords, List.map_cons, List.map_append]
      exact .cons (forall₂_freeWords hpairs) ih

theorem IsLayout.isWriting {sections : List WrittenSection} {t : Text} (h : IsLayout sections t) :
    IsWriting sections t := by
  obtain ⟨words, plain, lines, hwrites, hspaced, hlines, ht⟩ := h
  exact ⟨freeWords words, plain, lines, hwrites.writesWords, hspaced.typeset, hlines, ht⟩

/-! ### A writing without extras -/

def pairLine (pair : Text × List Text) : Text := pair.1 ++ ':' :: List.intercalate [','] pair.2

/-- Each title and each pair in a line of its own. -/
def inLines (sections : List WrittenSection) : Text :=
  sections.flatMap fun s =>
    s.title ++ '\n' :: s.pairs.flatMap fun pair => pairLine pair ++ ['\n']

theorem forall_isSpace_nil : ∀ c ∈ ([] : Text), IsSpace c := nofun

theorem writesValues_intercalate {values : List Text} (h : values ≠ []) :
    WritesValues values (List.intercalate [','] values) := by
  induction values with
  | nil => exact absurd rfl h
  | cons value values ih =>
      cases values with
      | nil =>
          rw [List.intercalate_singleton]
          exact .single value
      | cons next values =>
          rw [List.intercalate_cons_cons, List.append_assoc]
          exact .cons value forall_isSpace_nil forall_isSpace_nil
            (ih (List.cons_ne_nil next values))

theorem exists_writesWord_pairLine (pair : Text × List Text) :
    ∃ word, WritesWord pair word ∧ word.text = pairLine pair := by
  obtain ⟨key, values⟩ := pair
  by_cases hvalues : values = []
  · subst hvalues
    exact ⟨_, .noValues key forall_isSpace_nil, rfl⟩
  · exact ⟨_, .values (.mk key forall_isSpace_nil forall_isSpace_nil
      (writesValues_intercalate hvalues)), rfl⟩

/-- A line feed can stand behind every word. -/
theorem Typeset.word_newline (word : Word) {words : List Word} {t : Text}
    (h : Typeset IsGap words t) : Typeset IsGap (word :: words) (word.text ++ '\n' :: t) := by
  refine .word ⟨?_, fun _ => ?_⟩ (.gap (.inr rfl) h)
  · rintro _ ⟨⟩
    exact .inr rfl
  · rintro _ ⟨⟩
    rfl

theorem exists_typeset_pairLines (pairs : List (Text × List Text)) {words : List Word} {t : Text}
    (h : Typeset IsGap words t) :
    ∃ texts, List.Forall₂ WritesWord pairs texts ∧ Typeset IsGap (texts ++ words)
      (pairs.flatMap (fun pair => pairLine pair ++ ['\n']) ++ t) := by
  induction pairs with
  | nil => exact ⟨[], .nil, h⟩
  | cons pair pairs ih =>
      obtain ⟨texts, hwrites, htypeset⟩ := ih
      obtain ⟨word, hword, htext⟩ := exists_writesWord_pairLine pair
      refine ⟨word :: texts, .cons hword hwrites, ?_⟩
      rw [List.flatMap_cons, ← htext, List.append_assoc, List.append_assoc]
      exact htypeset.word_newline word

theorem exists_typeset_inLines (sections : List WrittenSection) :
    ∃ words, WritesWords sections words ∧ Typeset IsGap words (inLines sections) := by
  induction sections with
  | nil => exact ⟨[], .nil, .nil⟩
  | cons s sections ih =>
      obtain ⟨words, hwords, htypeset⟩ := ih
      obtain ⟨texts, htexts, hpairs⟩ := exists_typeset_pairLines s.pairs htypeset
      refine ⟨_, .cons htexts hwords, ?_⟩
      rw [inLines, List.flatMap_cons, List.append_assoc]
      exact hpairs.word_newline ⟨s.title, false⟩

theorem Interspersed.refl (lines : List Text) : Interspersed lines lines := by
  induction lines with
  | nil => exact .nil
  | cons line lines ih => exact .kept line ih

theorem isWriting_inLines (sections : List WrittenSection) :
    IsWriting sections (inLines sections) := by
  obtain ⟨words, hwords, htypeset⟩ := exists_typeset_inLines sections
  exact ⟨words, _, _, hwords, htypeset, .refl _, (List.intercalate_splitOn '\n').symm⟩

/-! ### Words -/

/-- What titles and pairs have in common. -/
structure IsWord (word : Text) : Prop where
  starts : ∃ c rest, word = c :: rest ∧ isNameStart c = true
  newline_not_mem : '\n' ∉ word
  return_not_mem : '\r' ∉ word

theorem isNameStart_iff {c : Char} : isNameStart c = true ↔ c.isAlpha = true ∨ c = '_' := by
  simp [isNameStart]

theorem isNamePart_iff {c : Char} : isNamePart c = true ↔ c.isAlphanum = true ∨ c = '_' := by
  simp [isNamePart]

theorem isNamePart_of_isNameStart {c : Char} (h : isNameStart c = true) : isNamePart c = true := by
  rw [isNamePart_iff]
  exact (isNameStart_iff.mp h).imp_left fun hc => by simp [Char.isAlphanum, hc]

theorem exists_mem_of_forall₂ {β γ : Type} {R : β → γ → Prop} {as : List β} {bs : List γ}
    (h : List.Forall₂ R as bs) {b : γ} (hb : b ∈ bs) : ∃ a ∈ as, R a b := by
  induction h with
  | nil => cases hb
  | @cons a _ _ _ hab _ ih =>
      rcases List.mem_cons.mp hb with rfl | hb
      · exact ⟨a, List.mem_cons_self, hab⟩
      · obtain ⟨a', ha', hab'⟩ := ih hb
        exact ⟨a', List.mem_cons_of_mem a ha', hab'⟩

theorem isWord_of_isName {t : Text} (h : IsName t) : IsWord t := by
  obtain ⟨c, rest, rfl, hc, hrest⟩ := h.exists_cons
  have hstart : isNameStart c = true := isNameStart_iff.mpr hc
  have hparts : ∀ d ∈ c :: rest, isNamePart d = true := by
    intro d hd
    rcases List.mem_cons.mp hd with rfl | hd
    · exact isNamePart_of_isNameStart hstart
    · exact isNamePart_iff.mpr (hrest d hd)
  refine ⟨⟨c, rest, rfl, hstart⟩, fun hmem => ?_, fun hmem => ?_⟩
  · cases hparts _ hmem
  · cases hparts _ hmem

/-- No blanks but spaces and tabs, which stand around the commas. -/
theorem not_mem_of_writesValues {values : List Text} {t : Text} (h : WritesValues values t)
    (hvalues : ∀ value ∈ values, IsValueText value) {c : Char} (hc : Text.isBlank c = true)
    (hspace : ¬IsSpace c) : c ∉ t := by
  have hvisible : ∀ {value : Text}, IsValueText value → c ∉ value := by
    intro value hvalue hmem
    rw [(hvalue.visible c hmem).1] at hc
    cases hc
  have hcomma : c ≠ ',' := by
    rintro rfl
    revert hc
    decide
  induction h with
  | single value => exact hvisible (hvalues value List.mem_cons_self)
  | @cons value before after values t hbefore hafter h ih =>
      obtain ⟨hvalue, hvalues⟩ := List.forall_mem_cons.mp hvalues
      simp only [List.mem_append, List.mem_cons, not_or]
      exact ⟨hvisible hvalue, fun hmem => hspace (hbefore c hmem), hcomma,
        fun hmem => hspace (hafter c hmem), ih hvalues⟩

/-- A key makes a word of what stands behind it, if that has no blanks but spaces. -/
theorem IsWord.append {word t : Text} (h : IsWord word)
    (ht : ∀ c, Text.isBlank c = true → ¬IsSpace c → c ∉ t) : IsWord (word ++ t) := by
  obtain ⟨⟨c, rest, rfl, hc⟩, hnewline, hreturn⟩ := h
  refine ⟨⟨c, rest ++ t, rfl, hc⟩, fun hmem => ?_, fun hmem => ?_⟩
  · refine (List.mem_append.mp hmem).elim hnewline (ht '\n' (by decide) ?_)
    rintro (h | h) <;> cases h
  · refine (List.mem_append.mp hmem).elim hreturn (ht '\r' (by decide) ?_)
    rintro (h | h) <;> cases h

theorem ne_colon_of_isBlank {c : Char} (h : Text.isBlank c = true) : c ≠ ':' := by
  rintro rfl
  revert h
  decide

theorem isWord_of_writesWord {pair : Text × List Text} {word : Word} (h : WritesWord pair word)
    (hpair : IsSpelledPair pair) : IsWord word.text := by
  have hkey : IsWord pair.1 := isWord_of_isName hpair.key
  cases h with
  | values h =>
      cases h with
      | mk key hbefore hafter h =>
          refine hkey.append fun c hblank hspace => ?_
          simp only [List.mem_append, List.mem_cons, not_or]
          exact ⟨fun hmem => hspace (hbefore c hmem), ne_colon_of_isBlank hblank,
            fun hmem => hspace (hafter c hmem),
            not_mem_of_writesValues h hpair.values hblank hspace⟩
  | noValues key hbefore =>
      refine hkey.append fun c hblank hspace => ?_
      simp only [List.mem_append, List.mem_singleton, not_or]
      exact ⟨fun hmem => hspace (hbefore c hmem), ne_colon_of_isBlank hblank⟩

namespace WritesWords

variable {sections : List WrittenSection} {words : List Word}

theorem isWord (h : WritesWords sections words) (hsections : ∀ s ∈ sections, IsSpelled s) :
    ∀ word ∈ words, IsWord word.text := by
  induction h with
  | nil => exact nofun
  | @cons s texts words sections hpairs h ih =>
      obtain ⟨hs, hsections⟩ := List.forall_mem_cons.mp hsections
      intro word hword
      rcases List.mem_cons.mp hword with rfl | hword
      · exact isWord_of_isName hs.title
      · rcases List.mem_append.mp hword with hword | hword
        · obtain ⟨pair, hpair, hwrites⟩ := exists_mem_of_forall₂ hpairs hword
          exact isWord_of_writesWord hwrites (hs.pairs pair hpair)
        · exact ih hsections word hword

/-- After a section comes a title. -/
theorem isName_head (h : WritesWords sections words) (hsections : ∀ s ∈ sections, IsSpelled s) :
    ∀ title, words.head? = some title → IsName title.text := by
  cases h with
  | nil => exact nofun
  | @cons s =>
      rintro _ ⟨⟩
      exact (hsections s List.mem_cons_self).title

end WritesWords

/-! ### Gaps -/

theorem isSpace_iff {c : Char} : isSpace c = true ↔ IsSpace c := by
  simp [isSpace, IsSpace]

theorem Follows.imp {P Q : Char → Prop} {word : Word} {t : Text} (h : Follows P word t)
    (hPQ : ∀ c, P c → Q c) : Follows Q word t :=
  ⟨fun c hc => hPQ c (h.gap c hc), h.newline⟩

/-- A line feed can stand behind every word. -/
theorem Follows.append {P : Char → Prop} (hP : P '\n') {word : Word} {t u : Text}
    (h : Follows P word t) (hu : ∀ c, u.head? = some c → c = '\n') : Follows P word (t ++ u) where
  gap c hc := by
    cases t with
    | nil => exact hu c hc ▸ hP
    | cons d t => exact h.gap c hc
  newline hends c hc := by
    rw [skipSpaces, List.dropWhile_append] at hc
    split at hc
    · cases u with
      | nil => cases hc
      | cons d u =>
          have hd : d = '\n' := hu d rfl
          subst hd
          exact (Option.some.inj hc).symm
    · next hne =>
        obtain ⟨d, rest, hrest⟩ := List.exists_cons_of_ne_nil (mt List.isEmpty_iff.mpr hne)
        rw [hrest] at hc
        apply h.newline hends c
        rw [skipSpaces, hrest]
        exact hc

/-- Nothing changes if the text behind the word is cut before a line feed. -/
theorem Follows.of_splitOn {word : Word} {t line : Text} {lines : List Text}
    (h : Follows IsGap word t) (hsplit : t.splitOn '\n' = line :: lines) :
    Follows IsSpace word line where
  gap c hc := by
    obtain ⟨hhead, hne⟩ := head?_of_splitOn hsplit hc
    exact (h.gap c hhead).resolve_right hne
  newline hends c hc := by
    obtain ⟨rest, rfl⟩ := exists_append_of_splitOn hsplit
    apply h.newline hends c
    obtain ⟨skipped, hskipped⟩ := List.head?_eq_some_iff.mp hc
    rw [skipSpaces] at hskipped
    rw [skipSpaces, List.dropWhile_append, hskipped]
    rfl

namespace Typeset

variable {P : Char → Prop} {word : Word} {words : List Word} {t : Text}

theorem mem_nil (h : Typeset P [] t) : ∀ c ∈ t, P c := by
  generalize hwords : ([] : List Word) = words at h
  induction h with
  | nil => exact nofun
  | gap hc _ ih =>
      intro c hmem
      rcases List.mem_cons.mp hmem with rfl | hmem
      · exact hc
      · exact ih hwords c hmem
  | word => cases hwords

theorem exists_append (h : Typeset P (word :: words) t) :
    ∃ u v, t = u ++ (word.text ++ v) ∧ (∀ c ∈ u, P c) ∧ Follows P word v ∧ Typeset P words v := by
  generalize hwords : word :: words = all at h
  induction h with
  | nil => cases hwords
  | @gap c _ _ hc _ ih =>
      obtain ⟨u, v, rfl, hu, hv, hrest⟩ := ih hwords
      refine ⟨c :: u, v, rfl, fun d hd => ?_, hv, hrest⟩
      rcases List.mem_cons.mp hd with rfl | hd
      · exact hc
      · exact hu d hd
  | @word _ _ v hnext hrest =>
      cases hwords
      exact ⟨[], v, rfl, nofun, hnext, hrest⟩

theorem append (hP : P '\n') {words' : List Word} {u : Text} (h : Typeset P words t)
    (h' : Typeset P words' u) (hu : ∀ c, u.head? = some c → c = '\n') :
    Typeset P (words ++ words') (t ++ u) := by
  induction h with
  | nil => exact h'
  | gap hc _ ih => exact .gap hc ih
  | word hfollows _ ih =>
      rw [List.cons_append, List.append_assoc]
      exact .word (hfollows.append hP hu) ih

theorem imp {Q : Char → Prop} (h : Typeset P words t) (hPQ : ∀ c, P c → Q c) :
    Typeset Q words t := by
  induction h with
  | nil => exact .nil
  | gap hc _ ih => exact .gap (hPQ _ hc) ih
  | word hfollows _ ih => exact .word (hfollows.imp hPQ) ih

theorem mem (h : Typeset P words t) {c : Char} (hc : c ∈ t) :
    P c ∨ ∃ word ∈ words, c ∈ word.text := by
  induction h with
  | nil => cases hc
  | gap hgap _ ih =>
      rcases List.mem_cons.mp hc with rfl | hc
      · exact Or.inl hgap
      · exact ih hc
  | @word word words t _ _ ih =>
      rcases List.mem_append.mp hc with hc | hc
      · exact Or.inr ⟨word, List.mem_cons_self, hc⟩
      · refine (ih hc).imp_right ?_
        rintro ⟨other, hother, hmem⟩
        exact ⟨other, List.mem_cons_of_mem word hother, hmem⟩

/-! ### Lines -/

/-- The words of a text, line by line. -/
theorem exists_forall₂_splitOn (h : Typeset IsGap words t)
    (hwords : ∀ word ∈ words, IsWord word.text) :
    ∃ wss : List (List Word), wss.flatten = words ∧
      List.Forall₂ (Typeset IsSpace) wss (t.splitOn '\n') := by
  induction h with
  | nil => exact ⟨[[]], rfl, .cons .nil .nil⟩
  | @gap c words t hc h ih =>
      obtain ⟨wss, hflatten, hlines⟩ := ih hwords
      rcases hc with hc | rfl
      · have hne : c ≠ '\n' := by rcases hc with rfl | rfl <;> decide
        obtain ⟨line, lines, hsplit, hcons⟩ := exists_splitOn_cons hne t
        rw [hsplit] at hlines
        rw [hcons]
        cases hlines with
        | cons hline hrest => exact ⟨_, hflatten, .cons (.gap hc hline) hrest⟩
      · rw [splitOn_newline]
        exact ⟨[] :: wss, hflatten, .cons .nil hlines⟩
  | @word word words t hfollows h ih =>
      obtain ⟨hword, hwords⟩ := List.forall_mem_cons.mp hwords
      obtain ⟨wss, hflatten, hlines⟩ := ih hwords
      obtain ⟨line, lines, hsplit, happend⟩ := exists_splitOn_append hword.newline_not_mem t
      rw [hsplit] at hlines
      rw [happend]
      cases hlines with
      | @cons ws _ wss' _ hline hrest =>
          exact ⟨(word :: ws) :: wss', congrArg (word :: ·) hflatten,
            .cons (.word (hfollows.of_splitOn hsplit) hline) hrest⟩

end Typeset

end Univariate.Document
