import Univariate.Proofs.Document.Entries
import Univariate.Proofs.Document.Reading
import Univariate.Scalar.Binary64

/-!
# Documents that are written

A layout of sections is read as the map in which every title and key has the values of the last pair
that is written with them.
-/

namespace Univariate

namespace Document

variable {α : Type} [Scalar α]

/-- The pairs in the order in which they are written, each under its title and key. -/
def writtenPairs (sections : List WrittenSection) : List ((Text × Text) × List Text) :=
  sections.flatMap fun s => s.pairs.map fun pair => ((s.title, pair.1), pair.2)

/-- The values of the last pair that is written with the title and the key. -/
def lastWritten? (sections : List WrittenSection) (title key : Text) : Option (List Text) :=
  ((writtenPairs sections).reverse.find? (·.1 = (title, key))).map Prod.snd

/-- What a document has under a title and a key. -/
def valuesAt? (d : Document α) (title key : Text) : Option (Option (List (Value α))) :=
  (Entries.get? d title).bind (Entries.get? · key)

/-- Each title once, and under it each key once. -/
structure IsMap (d : Document α) : Prop where
  titles : (d.map Prod.fst).Nodup
  keys : ∀ entry ∈ d, (entry.2.map Prod.fst).Nodup

namespace Section

variable (s : Section α) (pairs : List (Text × List Text))

theorem nodup_foldl_write {s : Section α} (h : (s.map Prod.fst).Nodup) :
    ((pairs.foldl write s).map Prod.fst).Nodup := by
  induction pairs generalizing s with
  | nil => exact h
  | cons pair pairs ih => exact ih (Entries.nodup_update h _ _)

theorem get?_foldl_write (key : Text) :
    Entries.get? (pairs.foldl write s) key =
      ((pairs.reverse.find? (·.1 = key)).map fun pair => some (pair.2.map Value.ofText)).or
        (Entries.get? s key) := by
  induction pairs generalizing s with
  | nil => rfl
  | cons pair pairs ih =>
      rw [List.foldl_cons, ih, List.reverse_cons, List.find?_append, Option.map_or, Option.or_assoc]
      congr 1
      by_cases hkey : pair.1 = key
      · subst hkey
        rw [write, Entries.get?_update_self]
        simp
      · rw [write, Entries.get?_update_of_ne _ _ (Ne.symm hkey)]
        simp [hkey]

end Section

theorem isMap_foldl_write (sections : List WrittenSection) {d : Document α} (h : d.IsMap) :
    IsMap (sections.foldl write d) := by
  induction sections generalizing d with
  | nil => exact h
  | cons s sections ih =>
      apply ih
      refine ⟨Entries.nodup_update h.titles _ _, ?_⟩
      apply Entries.forall_update (P := fun s : Section α => (s.map Prod.fst).Nodup) h.keys
      · exact Section.nodup_foldl_write s.pairs List.nodup_nil
      · exact fun _ => Section.nodup_foldl_write s.pairs

theorem isMap_of_ofText {t : Text} {d : Document α} (h : ofText t = .ok d) : d.IsMap := by
  rw [(ofText_eq_ok_iff.mp h).2.2]
  exact isMap_foldl_write _ ⟨List.nodup_nil, nofun⟩

theorem isSome_get?_foldl_write (sections : List WrittenSection) (d : Document α) (title : Text) :
    (Entries.get? (sections.foldl write d) title).isSome ↔
      (Entries.get? d title).isSome ∨ ∃ s ∈ sections, s.title = title := by
  induction sections generalizing d with
  | nil => simp
  | cons s sections ih =>
      rw [List.foldl_cons, ih, write]
      by_cases htitle : s.title = title
      · subst htitle
        simp [Entries.get?_update_self]
      · rw [Entries.get?_update_of_ne _ _ (Ne.symm htitle)]
        simp [htitle]

theorem lastWritten?_cons (s : WrittenSection) (sections : List WrittenSection)
    (title key : Text) :
    lastWritten? (s :: sections) title key =
      (lastWritten? sections title key).or (lastWritten? [s] title key) := by
  have hpairs : writtenPairs (s :: sections) = writtenPairs [s] ++ writtenPairs sections := by
    simp [writtenPairs]
  rw [lastWritten?, hpairs, List.reverse_append, List.find?_append, Option.map_or]
  rfl

theorem lastWritten?_self (s : WrittenSection) (key : Text) :
    lastWritten? [s] s.title key = (s.pairs.reverse.find? (·.1 = key)).map Prod.snd := by
  unfold lastWritten? writtenPairs
  rw [List.flatMap_singleton, ← List.map_reverse, List.find?_map, Option.map_map]
  simp [Function.comp_def]

theorem lastWritten?_of_ne {s : WrittenSection} {title : Text} (h : s.title ≠ title) (key : Text) :
    lastWritten? [s] title key = none := by
  unfold lastWritten? writtenPairs
  rw [List.flatMap_singleton, ← List.map_reverse, List.find?_map, Option.map_map]
  simp [Function.comp_def, h]

theorem valuesAt?_write (d : Document α) (s : WrittenSection) (title key : Text) :
    valuesAt? (write d s) title key =
      ((lastWritten? [s] title key).map fun values => some (values.map Value.ofText)).or
        (valuesAt? d title key) := by
  unfold valuesAt? write
  by_cases htitle : s.title = title
  · subst htitle
    rw [Entries.get?_update_self, Option.bind_some, Section.get?_foldl_write, lastWritten?_self,
      Option.map_map]
    cases Entries.get? d s.title <;> rfl
  · rw [Entries.get?_update_of_ne _ _ (Ne.symm htitle), lastWritten?_of_ne htitle]
    rfl

theorem valuesAt?_foldl_write (sections : List WrittenSection) (d : Document α) (title key : Text) :
    valuesAt? (sections.foldl write d) title key =
      ((lastWritten? sections title key).map fun values => some (values.map Value.ofText)).or
        (valuesAt? d title key) := by
  induction sections generalizing d with
  | nil => rfl
  | cons s sections ih =>
      rw [List.foldl_cons, ih, valuesAt?_write, lastWritten?_cons s sections, Option.map_or,
        Option.or_assoc]

/-- **Written documents are read.** A layout of sections is read as the map that has under each
title and key the values of the last pair written with them, and nothing else. -/
theorem exists_ofText_eq_ok {sections : List WrittenSection} {t : Text} (hne : sections ≠ [])
    (hsections : ∀ s ∈ sections, IsWritable s) (h : IsLayout sections t) :
    ∃ d : Document α, ofText t = .ok d ∧ IsMap d ∧
      (∀ title, (Entries.get? d title).isSome ↔ ∃ s ∈ sections, s.title = title) ∧
      ∀ title key, valuesAt? d title key =
        (lastWritten? sections title key).map fun values => some (values.map Value.ofText) := by
  refine ⟨ofSections sections, ofText_of_isLayout hne hsections h, ?_, fun title => ?_,
    fun title key => ?_⟩
  · exact isMap_foldl_write sections ⟨List.nodup_nil, nofun⟩
  · exact (isSome_get?_foldl_write sections [] title).trans (or_iff_right nofun)
  · exact (valuesAt?_foldl_write sections [] title key).trans (Option.or_none)

/-- A section in two parts, with comments, a blank line, and a key that is written again. -/
theorem exists_ofText_eq_ok_task :
    let sections : List WrittenSection := [
      ⟨"function".toList, [("expression".toList, ["x**2".toList, "1e3".toList]),
        ("mode".toList, ["strict".toList])]⟩,
      ⟨"function".toList, [("mode".toList, ["7".toList])]⟩]
    let t : Text := "// first\r\nfunction\n  expression: x**2 , 1e3\n\n".toList ++
      "  mode\t:strict function\n # again\nmode: 7\n".toList
    sections ≠ [] ∧ (∀ s ∈ sections, IsWritable s) ∧ IsLayout sections t ∧
      ∃ d : Document Float, ofText t = .ok d ∧
        valuesAt? d "function".toList "expression".toList =
          some (some [.text "x**2".toList, .number 1000]) ∧
        valuesAt? d "function".toList "mode".toList = some (some [.integer 7]) ∧
        valuesAt? d "function".toList "n".toList = none ∧
        (Entries.get? d "mode".toList).isSome = false := by
  intro sections t
  have hne : sections ≠ [] := by simp [sections]
  have hsections : ∀ s ∈ sections, IsWritable s := by decide +kernel
  have hlayout : IsLayout sections t := by
    have hexpression : WritesPair ("expression".toList, ["x**2".toList, "1e3".toList]) _ :=
      @WritesPair.mk _ [] [' '] _ _ (by decide) (by decide)
        (@WritesValues.cons _ [' '] [' '] _ _ (by decide) (by decide) (.single _))
    have hmode : WritesPair ("mode".toList, ["strict".toList]) _ :=
      @WritesPair.mk _ ['\t'] [] _ _ (by decide) (by decide) (.single _)
    have hagain : WritesPair ("mode".toList, ["7".toList]) _ :=
      @WritesPair.mk _ [] [' '] _ _ (by decide) (by decide) (.single _)
    have hwrites : WritesSections sections _ :=
      .cons (.cons hexpression (.cons hmode .nil)) (.cons (.cons hagain .nil) .nil)
    let lines : List Text := ["// first\r".toList, "function".toList,
      "  expression: x**2 , 1e3".toList, [], "  mode\t:strict function".toList, " # again".toList,
      "mode: 7".toList, []]
    have hlines : Interspersed ["function".toList, "  expression: x**2 , 1e3".toList, [],
        "  mode\t:strict function".toList, "mode: 7".toList, []] lines :=
      .ignored ⟨[], _, rfl, by decide, by decide, by decide⟩ (.kept _ (.kept _ (.kept _ (.kept _
        (.ignored ⟨[' '], "# again".toList, by decide, by decide, by decide, by decide⟩
          (.kept _ (.kept _ .nil)))))))
    refine ⟨_, _, lines, hwrites, .word_append ['\n', ' ', ' '] (by decide) (by decide)
      (.word_append ['\n', '\n', ' ', ' '] (by decide) (by decide)
      (.word_append [' '] (by decide) (by decide)
      (.word_append ['\n'] (by decide) (by decide)
      (.word_append ['\n'] (by decide) (by decide) .nil)))), ?_, ?_⟩
    · refine Eq.mpr (congrArg (Interspersed · lines) ?_) hlines
      decide +kernel
    · decide +kernel
  obtain ⟨d, hd, -, htitles, hentries⟩ := exists_ofText_eq_ok (α := Float) hne hsections hlayout
  refine ⟨hne, hsections, hlayout, d, hd, ?_, ?_, ?_, ?_⟩
  · rw [hentries]
    decide +kernel
  · rw [hentries]
    decide +kernel
  · rw [hentries]
    decide +kernel
  · rw [Bool.eq_false_iff, Ne, htitles]
    decide +kernel

end Document

end Univariate
