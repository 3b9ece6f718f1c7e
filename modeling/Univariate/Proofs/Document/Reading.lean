import Mathlib.Data.List.TakeWhile
import Univariate.Proofs.Document.Comments

/-!
# Reading what is written

Nothing but the next character shows where a name, a list of values or a section ends. In a written
document it always shows: no word starts like what would go on.
-/

namespace Univariate.Document

open Text (isBlank takeWhile_append_of_head)

/-! ### Characters -/

theorem isGap_eq_true {c : Char} (h : IsGap c) : isGap c = true := by
  rcases h with (rfl | rfl) | rfl <;> decide

theorem isBlank_of_isGap {c : Char} (h : IsGap c) : isBlank c = true := by
  rcases h with (rfl | rfl) | rfl <;> decide

theorem isNamePart_eq_false_of_isGap {c : Char} (h : IsGap c) : isNamePart c = false := by
  rcases h with (rfl | rfl) | rfl <;> decide

theorem isGap_eq_false_of_isNameStart {c : Char} (h : isNameStart c = true) : isGap c = false := by
  rw [Bool.eq_false_iff]
  intro hgap
  simp only [isGap, isSpace, Bool.or_eq_true, beq_iff_eq] at hgap
  rcases hgap with ((rfl | rfl) | rfl) | rfl <;> cases h

/-! ### Names and values -/

theorem skipSpaces_append {u : Text} (hu : ∀ c ∈ u, IsSpace c) (t : Text) :
    skipSpaces (u ++ t) = skipSpaces t :=
  List.dropWhile_append_of_pos fun c hc => isSpace_iff.mpr (hu c hc)

theorem takeName?_append {name : Text} (hname : IsName name) {t : Text}
    (ht : ∀ c, t.head? = some c → isNamePart c = false) :
    takeName? (name ++ t) = some (name, t) := by
  obtain ⟨c, rest, rfl, hc, hrest⟩ := hname.exists_cons
  obtain ⟨htake, hdrop⟩ :=
    takeWhile_append_of_head (fun d hd => isNamePart_iff.mpr (hrest d hd)) ht
  rw [List.cons_append, takeName?, if_pos (isNameStart_iff.mpr hc), htake, hdrop]

theorem takeValue?_append {value : Text} (hvalue : IsValueText value) {t : Text}
    (ht : ∀ c, t.head? = some c → isValuePart c = false) :
    takeValue? (value ++ t) = some (value, t) := by
  have hparts : ∀ c ∈ value, isValuePart c = true := by
    intro c hc
    obtain ⟨hblank, hcomma, hsemicolon⟩ := hvalue.visible c hc
    simp [isValuePart, hblank, hcomma, hsemicolon]
  obtain ⟨htake, hdrop⟩ := takeWhile_append_of_head hparts ht
  unfold takeValue?
  rw [htake, hdrop]
  cases value with
  | nil => exact absurd rfl hvalue.ne_nil
  | cons => rfl

theorem skipSpaces_value {value : Text} (hvalue : IsValueText value) (t : Text) :
    skipSpaces (value ++ t) = value ++ t := by
  obtain ⟨c, rest, rfl⟩ := List.exists_cons_of_ne_nil hvalue.ne_nil
  apply List.dropWhile_cons_of_neg
  rw [isSpace_iff]
  intro hspace
  have hblank := (hvalue.visible c List.mem_cons_self).1
  rw [isBlank_of_isSpace hspace] at hblank
  cases hblank

/-- What stands behind a value: the end, or neither a value nor, after spaces, a comma. -/
structure EndsValues (t : Text) : Prop where
  part : ∀ c, t.head? = some c → isValuePart c = false
  comma : (skipSpaces t).head? ≠ some ','

theorem takeMoreValues_of_ends {t : Text} (ht : EndsValues t) : takeMoreValues t = ([], t) := by
  have hnone : takeNextValue? t = none := by
    unfold takeNextValue?
    split
    · next hcomma => exact absurd (congrArg List.head? hcomma) ht.comma
    · rfl
  rw [takeMoreValues]
  split
  · next hsome =>
      rw [hnone] at hsome
      cases hsome
  · rfl

theorem takeMoreValues_of_next {t value rest : Text}
    (h : takeNextValue? t = some (value, rest)) :
    takeMoreValues t = (value :: (takeMoreValues rest).1, (takeMoreValues rest).2) := by
  rw [takeMoreValues]
  split
  · next hsome =>
      rw [h] at hsome
      cases hsome
      rfl
  · next hnone =>
      rw [h] at hnone
      cases hnone

theorem isValuePart_of_spaces_comma {before : Text} (hbefore : ∀ c ∈ before, IsSpace c) (t : Text)
    (c : Char) (hc : (before ++ ',' :: t).head? = some c) : isValuePart c = false := by
  cases before with
  | nil =>
      cases hc
      rfl
  | cons b before =>
      cases hc
      simp [isValuePart, isBlank_of_isSpace (hbefore c List.mem_cons_self)]

theorem exists_takeValue?_of_writes {values : List Text} {written : Text}
    (h : WritesValues values written) (hvalues : ∀ value ∈ values, IsValueText value) {t : Text}
    (ht : EndsValues t) :
    ∃ value rest, takeValue? (skipSpaces (written ++ t)) = some (value, rest) := by
  cases h with
  | single =>
      have hvalue := hvalues written List.mem_cons_self
      rw [skipSpaces_value hvalue]
      exact ⟨written, t, takeValue?_append hvalue ht.part⟩
  | cons value hbefore hafter h =>
      have hvalue := hvalues value List.mem_cons_self
      rw [List.append_assoc, skipSpaces_value hvalue, List.append_assoc]
      exact ⟨value, _, takeValue?_append hvalue (isValuePart_of_spaces_comma hbefore _)⟩

theorem takeMoreValues_comma {before after : Text} (hbefore : ∀ c ∈ before, IsSpace c)
    (hafter : ∀ c ∈ after, IsSpace c) {t value rest : Text}
    (h : takeValue? (skipSpaces t) = some (value, rest)) :
    takeMoreValues (before ++ ',' :: (after ++ t)) = takeValues (skipSpaces t) := by
  have hnext : takeNextValue? (before ++ ',' :: (after ++ t)) = some (value, rest) := by
    unfold takeNextValue?
    rw [skipSpaces_append hbefore]
    change takeValue? (skipSpaces (after ++ t)) = _
    rw [skipSpaces_append hafter, h]
  rw [takeMoreValues_of_next hnext, takeValues, h]

theorem takeValues_of_writes {values : List Text} {written : Text} (h : WritesValues values written)
    (hvalues : ∀ value ∈ values, IsValueText value) {t : Text} (ht : EndsValues t) :
    takeValues (skipSpaces (written ++ t)) = (values, t) := by
  induction h with
  | single value =>
      have hvalue := hvalues value List.mem_cons_self
      rw [skipSpaces_value hvalue, takeValues, takeValue?_append hvalue ht.part]
      dsimp only
      rw [takeMoreValues_of_ends ht]
  | @cons value before after values written hbefore hafter h ih =>
      obtain ⟨hvalue, hvalues⟩ := List.forall_mem_cons.mp hvalues
      obtain ⟨next, rest, hnext⟩ := exists_takeValue?_of_writes h hvalues ht
      have htext : value ++ (before ++ ',' :: (after ++ written)) ++ t =
          value ++ (before ++ ',' :: (after ++ (written ++ t))) := by
        simp
      rw [htext, skipSpaces_value hvalue, takeValues,
        takeValue?_append hvalue (isValuePart_of_spaces_comma hbefore _)]
      dsimp only
      rw [takeMoreValues_comma hbefore hafter hnext, ih hvalues]

/-- Nothing is read as a value if only spaces are left in the line. -/
theorem takeValues_of_newline {t : Text} (ht : ∀ c, (skipSpaces t).head? = some c → c = '\n') :
    takeValues (skipSpaces t) = ([], skipSpaces t) := by
  have hnone : (skipSpaces t).takeWhile isValuePart = [] := by
    cases hskip : skipSpaces t with
    | nil => rfl
    | cons c rest =>
        rw [hskip] at ht
        obtain rfl := ht c rfl
        exact List.takeWhile_cons_of_neg (by decide)
  unfold takeValues takeValue?
  rw [hnone]

/-! ### Pairs -/

theorem isNamePart_of_spaces_colon {before : Text} (hbefore : ∀ c ∈ before, IsSpace c) (t : Text)
    (c : Char) (hc : (before ++ ':' :: t).head? = some c) : isNamePart c = false := by
  cases before with
  | nil =>
      cases hc
      rfl
  | cons b before =>
      cases hc
      exact isNamePart_eq_false_of_isGap (.inl (hbefore c List.mem_cons_self))

/-- Key and colon are read, and then the values. -/
theorem takePair_colon {key : Text} (hkey : IsName key) {before : Text}
    (hbefore : ∀ c ∈ before, IsSpace c) (t : Text) :
    takePair (key ++ (before ++ ':' :: t)) =
      .ok ((key, (takeValues (skipSpaces t)).1), (takeValues (skipSpaces t)).2.trimStart) := by
  unfold takePair
  rw [takeName?_append hkey (isNamePart_of_spaces_colon hbefore t)]
  dsimp only
  rw [skipSpaces_append hbefore]
  rfl

theorem takePair_of_writesPair {pair : Text × List Text} {written : Text}
    (h : WritesPair pair written) (hpair : IsSpelledPair pair) {t : Text} (ht : EndsValues t) :
    takePair (written ++ t) = .ok (pair, t.trimStart) := by
  cases h with
  | @mk key before after values written hbefore hafter h =>
      have htext : key ++ (before ++ ':' :: (after ++ written)) ++ t =
          key ++ (before ++ ':' :: (after ++ (written ++ t))) := by
        simp
      rw [htext, takePair_colon hpair.key hbefore, skipSpaces_append hafter,
        takeValues_of_writes h hpair.values ht]

theorem trimStart_skipSpaces (t : Text) : (skipSpaces t).trimStart = t.trimStart := by
  have hspaces : ∀ c ∈ t.takeWhile isSpace, isBlank c = true := fun c hc =>
    isBlank_of_isSpace (isSpace_iff.mp (List.mem_takeWhile_imp hc))
  calc (skipSpaces t).trimStart
      = Text.trimStart (t.takeWhile isSpace ++ t.dropWhile isSpace) :=
        (Text.trimStart_append hspaces _).symm
    _ = t.trimStart := by rw [List.takeWhile_append_dropWhile]

theorem takePair_of_noValues {key : Text} (hkey : IsName key) {before : Text}
    (hbefore : ∀ c ∈ before, IsSpace c) {t : Text}
    (ht : ∀ c, (skipSpaces t).head? = some c → c = '\n') :
    takePair (key ++ (before ++ [':']) ++ t) = .ok ((key, []), t.trimStart) := by
  have htext : key ++ (before ++ [':']) ++ t = key ++ (before ++ ':' :: t) := by simp
  rw [htext, takePair_colon hkey hbefore, takeValues_of_newline ht, trimStart_skipSpaces]

/-- A title is no key, since no colon follows. -/
theorem takePair_title {title : Text} (htitle : IsName title) {t : Text}
    (hpart : ∀ c, t.head? = some c → isNamePart c = false)
    (hcolon : (skipSpaces t).head? ≠ some ':') :
    ∃ failed, takePair (title ++ t) = .error failed := by
  unfold takePair
  rw [takeName?_append htitle hpart]
  dsimp only
  split
  · next h => exact absurd (congrArg List.head? h) hcolon
  · exact ⟨_, rfl⟩

theorem takePairs_of_error {t failed : Text} (h : takePair t = .error failed) :
    takePairs t = ([], t) := by
  rw [takePairs]
  split
  · next hok =>
      rw [h] at hok
      cases hok
  · rfl

theorem takePairs_of_ok {t rest : Text} {pair : Text × List Text}
    (h : takePair t = .ok (pair, rest)) :
    takePairs t = (pair :: (takePairs rest).1, (takePairs rest).2) := by
  rw [takePairs]
  split
  · next hok =>
      rw [h] at hok
      cases hok
      rfl
  · next herror =>
      rw [h] at herror
      cases herror

theorem takeSections_of_error {t failed : Text} (h : takeSection t = .error failed) :
    takeSections t = ([], t) := by
  rw [takeSections]
  split
  · next hok =>
      rw [h] at hok
      cases hok
  · rfl

theorem takeSections_of_ok {t rest : Text} {s : WrittenSection}
    (h : takeSection t = .ok (s, rest)) :
    takeSections t = (s :: (takeSections rest).1, (takeSections rest).2) := by
  rw [takeSections]
  split
  · next hok =>
      rw [h] at hok
      cases hok
      rfl
  · next herror =>
      rw [h] at herror
      cases herror

/-! ### Sections -/

section Typeset

variable {word : Word} {words : List Word} {t : Text}

/-- Behind the spaces stands the end, a line feed or a word. -/
theorem head?_skipSpaces_of_typeset (h : Typeset IsGap words t)
    (hwords : ∀ word ∈ words, IsWord word.text) :
    ∀ c, (skipSpaces t).head? = some c → c = '\n' ∨ isNameStart c = true := by
  induction h with
  | nil => exact nofun
  | @gap c words t hc _ ih =>
      rcases hc with hc | rfl
      · have hskip : skipSpaces (c :: t) = skipSpaces t :=
          List.dropWhile_cons_of_pos (isSpace_iff.mpr hc)
        rw [hskip]
        exact ih hwords
      · rintro _ ⟨⟩
        exact Or.inl rfl
  | @word word words t _ _ _ =>
      obtain ⟨c, rest, htext, hc⟩ := (hwords word List.mem_cons_self).starts
      have hspace : ¬isSpace c = true := by
        intro hspace
        have hblank := isBlank_of_isSpace (isSpace_iff.mp hspace)
        rw [isBlank_eq_false_of_isNameStart hc] at hblank
        cases hblank
      have hskip : skipSpaces (c :: (rest ++ t)) = c :: (rest ++ t) :=
        List.dropWhile_cons_of_neg hspace
      rw [htext, List.cons_append, hskip]
      rintro _ ⟨⟩
      exact Or.inr hc

theorem endsValues_of_typeset (h : Typeset IsGap words t)
    (hwords : ∀ word ∈ words, IsWord word.text) (hfollows : Follows IsGap word t) :
    EndsValues t where
  part c hc := by simp [isValuePart, isBlank_of_isGap (hfollows.gap c hc)]
  comma hcomma := by
    rcases head?_skipSpaces_of_typeset h hwords ',' hcomma with hc | hc <;> cases hc

theorem takePair_of_writesWord {pair : Text × List Text} (hwrites : WritesWord pair word)
    (hpair : IsSpelledPair pair) (h : Typeset IsGap words t)
    (hwords : ∀ word ∈ words, IsWord word.text) (hfollows : Follows IsGap word t) :
    takePair (word.text ++ t) = .ok (pair, t.trimStart) := by
  cases hwrites with
  | values hwrites =>
      exact takePair_of_writesPair hwrites hpair (endsValues_of_typeset h hwords hfollows)
  | noValues key hbefore => exact takePair_of_noValues hpair.key hbefore (hfollows.newline rfl)

/-- Whatever gaps are skipped, what is left starts with the next word. -/
theorem exists_skipped {skips : Char → Bool} (hgap : ∀ c, IsGap c → skips c = true)
    (hname : ∀ c, isNameStart c = true → skips c = false) (hword : IsWord word.text)
    (h : Typeset IsGap (word :: words) t) :
    ∃ rest, t.dropWhile skips = word.text ++ rest ∧ Follows IsGap word rest ∧
      Typeset IsGap words rest := by
  obtain ⟨u, rest, rfl, hu, hfollows, hrest⟩ := h.exists_append
  obtain ⟨c, tail, htext, hc⟩ := hword.starts
  refine ⟨rest, ?_, hfollows, hrest⟩
  rw [List.dropWhile_append_of_pos fun b hb => hgap b (hu b hb), htext]
  exact List.dropWhile_cons_of_neg (by simp [hname c hc])

theorem exists_trimStart (hword : IsWord word.text) (h : Typeset IsGap (word :: words) t) :
    ∃ rest, t.trimStart = word.text ++ rest ∧ Follows IsGap word rest ∧ Typeset IsGap words rest :=
  exists_skipped (fun _ => isBlank_of_isGap) (fun _ => isBlank_eq_false_of_isNameStart) hword h

theorem exists_skipGap (hword : IsWord word.text) (h : Typeset IsGap (word :: words) t) :
    ∃ rest, skipGap t = word.text ++ rest ∧ Follows IsGap word rest ∧ Typeset IsGap words rest :=
  exists_skipped (fun _ => isGap_eq_true) (fun _ => isGap_eq_false_of_isNameStart) hword h

theorem dropWhile_eq_nil_of_typeset {skips : Char → Bool} (hgap : ∀ c, IsGap c → skips c = true)
    (h : Typeset IsGap [] t) : t.dropWhile skips = [] := by
  rw [List.dropWhile_eq_nil_iff]
  exact fun c hc => hgap c (h.mem_nil c hc)

theorem trim_eq_nil_of_typeset (h : Typeset IsGap [] t) : t.trim = [] := by
  have hstart : t.trimStart = [] := dropWhile_eq_nil_of_typeset (fun _ => isBlank_of_isGap) h
  rw [Text.trim, hstart]
  rfl

theorem trim_ne_nil_of_typeset (hword : IsWord word.text) (h : Typeset IsGap (word :: words) t) :
    t.trim ≠ [] := by
  obtain ⟨rest, htrim, -, -⟩ := exists_trimStart hword h
  obtain ⟨c, tail, htext, hc⟩ := hword.starts
  rw [Text.trim, htrim, htext, List.cons_append,
    Text.trimEnd_cons (isBlank_eq_false_of_isNameStart hc)]
  exact List.cons_ne_nil _ _

/-- Where a title or nothing comes next there is no pair. -/
theorem exists_takePair_eq_error {skips : Char → Bool} (hgap : ∀ c, IsGap c → skips c = true)
    (hname : ∀ c, isNameStart c = true → skips c = false)
    (hwords : ∀ word ∈ words, IsWord word.text)
    (htitle : ∀ title, words.head? = some title → IsName title.text) (h : Typeset IsGap words t) :
    Typeset IsGap words (t.dropWhile skips) ∧
      ∃ failed, takePair (t.dropWhile skips) = .error failed := by
  cases words with
  | nil =>
      rw [dropWhile_eq_nil_of_typeset hgap h]
      exact ⟨.nil, [], rfl⟩
  | cons title words =>
      obtain ⟨hword, hwords⟩ := List.forall_mem_cons.mp hwords
      obtain ⟨rest, hskip, hfollows, hrest⟩ := exists_skipped hgap hname hword h
      have hcolon : (skipSpaces rest).head? ≠ some ':' := by
        intro hcolon
        rcases head?_skipSpaces_of_typeset hrest hwords ':' hcolon with hc | hc <;> cases hc
      rw [hskip]
      exact ⟨.word hfollows hrest, takePair_title (htitle title rfl)
        (fun c hc => isNamePart_eq_false_of_isGap (hfollows.gap c hc)) hcolon⟩

end Typeset

theorem takePairs_of_writes {pairs : List (Text × List Text)} {texts words : List Word} {t : Text}
    (hwrites : List.Forall₂ WritesWord pairs texts) (hpairs : ∀ pair ∈ pairs, IsSpelledPair pair)
    (hwords : ∀ word ∈ texts ++ words, IsWord word.text)
    (htitle : ∀ title, words.head? = some title → IsName title.text)
    (h : Typeset IsGap (texts ++ words) t) :
    ∃ rest, takePairs t.trimStart = (pairs, rest) ∧ Typeset IsGap words rest := by
  induction hwrites generalizing t with
  | nil =>
      obtain ⟨hrest, failed, hfailed⟩ := exists_takePair_eq_error (fun _ => isBlank_of_isGap)
        (fun _ => isBlank_eq_false_of_isNameStart) hwords htitle h
      exact ⟨t.trimStart, takePairs_of_error hfailed, hrest⟩
  | @cons pair word pairs texts hpair _ ih =>
      obtain ⟨hspelled, hpairs⟩ := List.forall_mem_cons.mp hpairs
      obtain ⟨hword, hwords⟩ := List.forall_mem_cons.mp hwords
      obtain ⟨rest, htrim, hfollows, hrest⟩ := exists_trimStart hword h
      have htaken := takePair_of_writesWord hpair hspelled hrest hwords hfollows
      obtain ⟨left, hleft, htypeset⟩ := ih hpairs hwords hrest
      rw [htrim, takePairs_of_ok htaken, hleft]
      exact ⟨left, rfl, htypeset⟩

section Section

variable {s : WrittenSection} {texts words : List Word} {t : Text}

theorem takeSection_of_writes (hs : IsSpelled s) (hne : s.pairs ≠ [])
    (hwrites : List.Forall₂ WritesWord s.pairs texts)
    (hwords : ∀ word ∈ ⟨s.title, false⟩ :: (texts ++ words), IsWord word.text)
    (htitle : ∀ title, words.head? = some title → IsName title.text)
    (h : Typeset IsGap (⟨s.title, false⟩ :: (texts ++ words)) t) :
    ∃ rest, takeSection t = .ok (s, rest) ∧ Typeset IsGap words rest := by
  obtain ⟨title, pairs⟩ := s
  obtain ⟨hfirst, hothers⟩ := List.forall_mem_cons.mp hwords
  obtain ⟨titled, hskip, hfollows, htitled⟩ := exists_skipGap hfirst h
  have hname : takeName? (title ++ titled) = some (title, titled) :=
    takeName?_append hs.title fun c hc => isNamePart_eq_false_of_isGap (hfollows.gap c hc)
  cases hwrites with
  | nil => exact absurd rfl hne
  | @cons pair word pairs texts hpair hpairs =>
      obtain ⟨hspelled, hspelleds⟩ := List.forall_mem_cons.mp hs.pairs
      obtain ⟨hword, hothers⟩ := List.forall_mem_cons.mp hothers
      obtain ⟨rest, hskipTitle, hfollowsPair, hrest⟩ := exists_skipGap hword htitled
      have htaken := takePair_of_writesWord hpair hspelled hrest hothers hfollowsPair
      obtain ⟨left, hleft, htypeset⟩ := takePairs_of_writes hpairs hspelleds hothers htitle hrest
      refine ⟨left, ?_, htypeset⟩
      unfold takeSection
      rw [hskip, hname]
      dsimp only
      rw [hskipTitle, htaken]
      dsimp only
      rw [hleft]

/-- A title alone is no section. -/
theorem takeSection_of_noPairs {title : Text} (hname : IsName title)
    (hwords : ∀ word ∈ words, IsWord word.text)
    (htitle : ∀ title, words.head? = some title → IsName title.text)
    (h : Typeset IsGap (⟨title, false⟩ :: words) t) :
    ∃ failed, takeSection t = .error failed := by
  obtain ⟨titled, hskip, hfollows, htitled⟩ := exists_skipGap (isWord_of_isName hname) h
  have htaken : takeName? (title ++ titled) = some (title, titled) :=
    takeName?_append hname fun c hc => isNamePart_eq_false_of_isGap (hfollows.gap c hc)
  obtain ⟨-, failed, hfailed⟩ := exists_takePair_eq_error (fun _ => isGap_eq_true)
    (fun _ => isGap_eq_false_of_isNameStart) hwords htitle htitled
  refine ⟨failed, ?_⟩
  unfold takeSection
  rw [hskip, htaken]
  dsimp only
  rw [skipGap, hfailed]

end Section

/-- All sections are read, or something is left of the first one without pairs. -/
theorem takeSections_of_writes {sections : List WrittenSection} {words : List Word} {t : Text}
    (hwrites : WritesWords sections words) (hsections : ∀ s ∈ sections, IsSpelled s)
    (h : Typeset IsGap words t) :
    ((∀ s ∈ sections, s.pairs ≠ []) ∧ (takeSections t).1 = sections ∧
        (takeSections t).2.trim = []) ∨
      ((∃ s ∈ sections, s.pairs = []) ∧ (takeSections t).2.trim ≠ []) := by
  induction hwrites generalizing t with
  | nil =>
      have hskip : skipGap t = [] := dropWhile_eq_nil_of_typeset (fun _ => isGap_eq_true) h
      have hfailed : takeSection t = .error [] := by
        unfold takeSection
        rw [hskip]
        rfl
      rw [takeSections_of_error hfailed]
      exact Or.inl ⟨nofun, rfl, trim_eq_nil_of_typeset h⟩
  | @cons s texts words sections hpairs hwrites ih =>
      obtain ⟨hs, hrest⟩ := List.forall_mem_cons.mp hsections
      have hwords := (WritesWords.cons hpairs hwrites).isWord hsections
      by_cases hne : s.pairs = []
      · obtain ⟨title, pairs⟩ := s
        subst hne
        cases hpairs
        obtain ⟨hword, hothers⟩ := List.forall_mem_cons.mp hwords
        obtain ⟨failed, hfailed⟩ :=
          takeSection_of_noPairs hs.title hothers (hwrites.isName_head hrest) h
        rw [takeSections_of_error hfailed]
        exact Or.inr ⟨⟨_, List.mem_cons_self, rfl⟩, trim_ne_nil_of_typeset hword h⟩
      · obtain ⟨rest, htaken, htypeset⟩ :=
          takeSection_of_writes hs hne hpairs hwords (hwrites.isName_head hrest) h
        rw [takeSections_of_ok htaken]
        rcases ih hrest htypeset with ⟨hall, hread, hend⟩ | ⟨⟨other, hother, hnil⟩, hleft⟩
        · exact Or.inl ⟨List.forall_mem_cons.mpr ⟨hne, hall⟩, congrArg (s :: ·) hread, hend⟩
        · exact Or.inr ⟨⟨other, List.mem_cons_of_mem s hother, hnil⟩, hleft⟩

variable {α : Type} [Scalar α]

/-- A text is a document if at least one section can be read and then nothing is left. -/
theorem ofText_eq_ok_iff {t : Text} {d : Document α} :
    ofText t = .ok d ↔ (takeSections (withoutComments t)).1 ≠ [] ∧
      (takeSections (withoutComments t)).2.trim = [] ∧
      d = ofSections (takeSections (withoutComments t)).1 := by
  unfold ofText
  cases htaken : takeSection (withoutComments t) with
  | error failed =>
      rw [takeSections_of_error htaken]
      exact iff_of_false nofun fun h => h.1 rfl
  | ok taken =>
      obtain ⟨first, rest⟩ := taken
      rw [takeSections_of_ok htaken]
      dsimp only
      split
      · next hempty =>
          rw [List.isEmpty_iff] at hempty
          rw [Except.ok.injEq]
          exact ⟨fun h => ⟨List.cons_ne_nil _ _, hempty, h.symm⟩, fun h => h.2.2.symm⟩
      · next hne => exact iff_of_false nofun fun h => hne (List.isEmpty_iff.mpr h.2.1)

/-- What is written is read, section by section, if there is a section and each one has pairs. -/
theorem ofText_eq_ok_iff_of_isWriting {sections : List WrittenSection} {t : Text}
    (hsections : ∀ s ∈ sections, IsSpelled s) (h : IsWriting sections t) {d : Document α} :
    ofText t = .ok d ↔
      sections ≠ [] ∧ (∀ s ∈ sections, s.pairs ≠ []) ∧ d = ofSections sections := by
  obtain ⟨words, plain, lines, hwrites, hplain, hlines, rfl⟩ := h
  have htypeset := typeset_withoutComments (hwrites.isWord hsections) hplain hlines
  rw [ofText_eq_ok_iff]
  rcases takeSections_of_writes hwrites hsections htypeset with
    ⟨hall, hread, hend⟩ | ⟨⟨s, hs, hnil⟩, hleft⟩
  · rw [hread]
    exact and_congr_right fun _ => and_congr_left fun _ => iff_of_true hend hall
  · exact iff_of_false (fun h => hleft h.2.1) fun h => h.2.1 s hs hnil

theorem ofText_of_isLayout {sections : List WrittenSection} {t : Text} (hne : sections ≠ [])
    (hsections : ∀ s ∈ sections, IsWritable s) (h : IsLayout sections t) :
    (ofText t : Except Error (Document α)) = .ok (ofSections sections) :=
  (ofText_eq_ok_iff_of_isWriting (fun s hs => (hsections s hs).isSpelled) h.isWriting).mpr
    ⟨hne, fun s hs => (hsections s hs).pairs_ne_nil, rfl⟩

end Univariate.Document
