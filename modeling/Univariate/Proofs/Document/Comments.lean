import Univariate.Proofs.Document.Writing

/-!
# Lines that do not count

Comments and blank lines are left out before anything is read. What remains of a writing has the
same words.
-/

namespace Univariate.Document

open Text (endLines chomp isBlank)

theorem isBlank_of_isSpace {c : Char} (h : IsSpace c) : isBlank c = true := by
  rcases h with rfl | rfl <;> decide

theorem isBlank_of_between {c low high : Char} (hlow : low.val ≤ c.val) (hhigh : c.val ≤ high.val)
    (hvisible : 0x21 ≤ low.toNat ∧ high.toNat < 0x85) : isBlank c = false :=
  Text.isBlank_of_visible (Nat.le_trans hvisible.1 (UInt32.le_iff_toNat_le.mp hlow))
    (Nat.lt_of_le_of_lt (UInt32.le_iff_toNat_le.mp hhigh) hvisible.2)

theorem isBlank_eq_false_of_isNameStart {c : Char} (h : isNameStart c = true) :
    isBlank c = false := by
  rcases isNameStart_iff.mp h with hletter | rfl
  · rcases Bool.or_eq_true_iff.mp hletter with hupper | hlower
    · obtain ⟨hA, hZ⟩ := of_decide_eq_true hupper
      exact isBlank_of_between hA hZ (by decide)
    · obtain ⟨ha, hz⟩ := Bool.and_eq_true_iff.mp hlower
      exact isBlank_of_between (of_decide_eq_true ha) (of_decide_eq_true hz) (by decide)
  · decide

theorem trim_append_cons {blanks : Text} (hblanks : ∀ c ∈ blanks, isBlank c = true) {c : Char}
    (hc : isBlank c = false) (t : Text) : (blanks ++ c :: t).trim = c :: t.trimEnd := by
  rw [Text.trim, Text.trimStart_append hblanks, Text.trimStart_cons hc, Text.trimEnd_cons hc]

/-- Of an ignored line the blanks are trimmed and the mark is left. -/
theorem isIgnored_of_isIgnoredLine {line : Text} (h : IsIgnoredLine line) :
    isIgnored line = true := by
  obtain ⟨blanks, rest, rfl, hblanks, -, hmark⟩ := h
  unfold isIgnored
  rcases hmark with rfl | ⟨t, rfl⟩ | ⟨t, rfl⟩ | ⟨t, rfl⟩ | ⟨t, rfl⟩
  · rw [Text.trim, Text.trimStart_append hblanks]
    rfl
  · simp only [List.cons_append, List.nil_append]
    rw [trim_append_cons hblanks (by decide), Text.trimEnd_cons (by decide)]
    rfl
  · simp only [List.cons_append, List.nil_append]
    rw [trim_append_cons hblanks (by decide)]
    rfl
  · simp only [List.cons_append, List.nil_append]
    rw [trim_append_cons hblanks (by decide)]
    rfl
  · simp only [List.cons_append, List.nil_append]
    rw [trim_append_cons hblanks (by decide)]
    rfl

theorem isIgnored_chomp (line : Text) : isIgnored line.chomp = isIgnored line := by
  unfold isIgnored
  rw [Text.trim_chomp]

/-- Only lines that are ignored change when they are ended. -/
theorem filter_endLines {lines : List Text}
    (h : ∀ line ∈ lines, isIgnored line = false → '\r' ∉ line) :
    (endLines lines).filter (!isIgnored ·) = lines.filter (!isIgnored ·) := by
  induction lines with
  | nil => rfl
  | cons line rest ih =>
      obtain ⟨hline, hrest⟩ := List.forall_mem_cons.mp h
      cases rest with
      | nil =>
          by_cases hnil : line = []
          · rw [hnil]
            rfl
          · exact congrArg (List.filter _) (if_neg hnil)
      | cons next rest =>
          rw [Text.endLines_cons (List.cons_ne_nil next rest), List.filter_cons, List.filter_cons,
            ih hrest, isIgnored_chomp]
          cases hignored : isIgnored line with
          | true => rfl
          | false => rw [Text.chomp_of_not_mem (hline hignored)]

namespace Interspersed

variable {lines lines' : List Text}

theorem mem_or_isIgnoredLine (h : Interspersed lines lines') {line : Text} (hline : line ∈ lines') :
    line ∈ lines ∨ IsIgnoredLine line := by
  induction h with
  | nil => cases hline
  | ignored hignored _ ih =>
      rcases List.mem_cons.mp hline with rfl | hline
      · exact Or.inr hignored
      · exact ih hline
  | kept kept _ ih =>
      rcases List.mem_cons.mp hline with rfl | hline
      · exact Or.inl List.mem_cons_self
      · exact (ih hline).imp_left (List.mem_cons_of_mem kept)

theorem ne_nil (h : Interspersed lines lines') (hne : lines ≠ []) : lines' ≠ [] := by
  cases h with
  | nil => exact hne
  | ignored => exact List.cons_ne_nil _ _
  | kept => exact List.cons_ne_nil _ _

theorem filter_eq (h : Interspersed lines lines') :
    lines'.filter (!isIgnored ·) = lines.filter (!isIgnored ·) := by
  induction h with
  | nil => rfl
  | ignored hignored _ ih =>
      rw [List.filter_cons_of_neg (by simp [isIgnored_of_isIgnoredLine hignored]), ih]
  | kept line _ ih => rw [List.filter_cons, List.filter_cons, ih]

end Interspersed

section Lines

variable {words : List Word} {line : Text}

theorem isIgnored_of_typeset_nil (h : Typeset IsSpace [] line) : isIgnored line = true := by
  apply isIgnored_of_isIgnoredLine
  refine ⟨line, [], (List.append_nil line).symm, fun c hc => isBlank_of_isSpace (h.mem_nil c hc),
    fun hc => ?_, Or.inl rfl⟩
  rcases h.mem_nil _ hc with h | h <;> cases h

theorem isIgnored_eq_false_of_typeset {word : Word} (hword : IsWord word.text)
    (h : Typeset IsSpace (word :: words) line) : isIgnored line = false := by
  obtain ⟨blanks, rest, rfl, hblanks, -, -⟩ := h.exists_append
  obtain ⟨c, tail, htext, hc⟩ := hword.starts
  have htrim : (blanks ++ (c :: tail ++ rest)).trim = c :: Text.trimEnd (tail ++ rest) :=
    trim_append_cons (fun b hb => isBlank_of_isSpace (hblanks b hb))
      (isBlank_eq_false_of_isNameStart hc) _
  unfold isIgnored
  rw [htext, htrim]
  split <;> simp_all [isNameStart]

theorem not_mem_of_typeset (h : Typeset IsSpace words line)
    (hwords : ∀ word ∈ words, IsWord word.text) : '\n' ∉ line ∧ '\r' ∉ line := by
  have hspace : ∀ c, c = '\n' ∨ c = '\r' → ¬IsSpace c := by
    rintro c (rfl | rfl) (h | h) <;> cases h
  constructor
  · intro hc
    rcases h.mem hc with hc | ⟨word, hword, hc⟩
    · exact hspace _ (.inl rfl) hc
    · exact (hwords word hword).newline_not_mem hc
  · intro hc
    rcases h.mem hc with hc | ⟨word, hword, hc⟩
    · exact hspace _ (.inr rfl) hc
    · exact (hwords word hword).return_not_mem hc

theorem not_mem_of_forall₂ {wss : List (List Word)} {lines : List Text}
    (h : List.Forall₂ (Typeset IsSpace) wss lines)
    (hwords : ∀ word ∈ wss.flatten, IsWord word.text) (hline : line ∈ lines) :
    '\n' ∉ line ∧ '\r' ∉ line := by
  obtain ⟨words, hmem, htypeset⟩ := exists_mem_of_forall₂ h hline
  exact not_mem_of_typeset htypeset fun word hword =>
    hwords word (List.mem_flatten.mpr ⟨words, hmem, hword⟩)

end Lines

/-- The lines with words, joined again. -/
theorem typeset_intercalate_filter {wss : List (List Word)} {lines : List Text}
    (h : List.Forall₂ (Typeset IsSpace) wss lines)
    (hwords : ∀ word ∈ wss.flatten, IsWord word.text) :
    Typeset IsGap wss.flatten (List.intercalate ['\n'] (lines.filter (!isIgnored ·))) := by
  induction h with
  | nil => exact .nil
  | @cons words line wss lines hline hlines ih =>
      rw [List.flatten_cons] at hwords ⊢
      have hrest := ih fun word hword => hwords word (List.mem_append_right _ hword)
      cases words with
      | nil =>
          rw [List.filter_cons_of_neg (by simp [isIgnored_of_typeset_nil hline])]
          exact hrest
      | cons word words =>
          have hword : IsWord word.text := hwords word List.mem_cons_self
          rw [List.filter_cons_of_pos (by simp [isIgnored_eq_false_of_typeset hword hline])]
          have hline' : Typeset IsGap (word :: words) line := hline.imp fun _ => Or.inl
          cases hkept : lines.filter (!isIgnored ·) with
          | nil =>
              rw [hkept] at hrest
              have h : Typeset IsGap (word :: words ++ wss.flatten) (line ++ []) :=
                hline'.append (.inr rfl) hrest nofun
              rw [List.intercalate_singleton]
              rwa [List.append_nil] at h
          | cons next kept =>
              rw [hkept] at hrest
              rw [List.intercalate_cons_cons, List.append_assoc]
              refine hline'.append (.inr rfl) (.gap (.inr rfl) hrest) fun c hc => ?_
              exact (Option.some.inj hc).symm

/-- **Comments leave the words.** -/
theorem typeset_withoutComments {words : List Word} {lines : List Text} {plain : Text}
    (hwords : ∀ word ∈ words, IsWord word.text) (hplain : Typeset IsGap words plain)
    (hlines : Interspersed (plain.splitOn '\n') lines) :
    Typeset IsGap words (withoutComments (List.intercalate ['\n'] lines)) := by
  obtain ⟨wss, rfl, htypeset⟩ := hplain.exists_forall₂_splitOn hwords
  have hplainLines : ∀ line ∈ plain.splitOn '\n', '\n' ∉ line ∧ '\r' ∉ line :=
    fun _ => not_mem_of_forall₂ htypeset hwords
  have hsplit : (List.intercalate ['\n'] lines).splitOn '\n' = lines := by
    apply List.splitOn_intercalate
    · intro line hline
      rcases hlines.mem_or_isIgnoredLine hline with hline | hignored
      · exact (hplainLines line hline).1
      · obtain ⟨-, -, -, -, hnewline, -⟩ := hignored
        exact hnewline
    · exact hlines.ne_nil (List.splitOnP_ne_nil _ _)
  unfold withoutComments
  rw [Text.lines_eq, hsplit, filter_endLines, hlines.filter_eq]
  · exact typeset_intercalate_filter htypeset hwords
  · intro line hline hkept
    rcases hlines.mem_or_isIgnoredLine hline with hline | hignored
    · exact (hplainLines line hline).2
    · rw [isIgnored_of_isIgnoredLine hignored] at hkept
      cases hkept

end Univariate.Document
