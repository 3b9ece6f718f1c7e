import Mathlib.Data.List.Forall2
import Univariate.Csv.Saving
import Univariate.Proofs.Csv.Reader
import Univariate.Scalar.Binary64

/-! What becomes of files when a sheet is saved: the sheet is written whole, so that its records
are read back, or no file is touched. -/

namespace Univariate.Csv

variable {name text : Text} {files files' : Files}

/-! Runs -/

namespace Saving

variable {β γ : Type} {first : Saving β} {next : β → Saving γ}

theorem runOn_bind_of_ok {value : β} (h : first.runOn files = (.ok value, files')) :
    (first >>= next).runOn files = (next value).runOn files' := by
  simp only [runOn] at h
  simp only [runOn, ExceptT.run_bind, StateT.run_bind, h]
  rfl

theorem runOn_bind_of_error {fault : Fault} (h : first.runOn files = (.error fault, files')) :
    (first >>= next).runOn files = (.error fault, files') := by
  simp only [runOn] at h
  simp only [runOn, ExceptT.run_bind, StateT.run_bind, h]
  rfl

theorem runOn_create :
    (create name).runOn files = (.ok (), Entries.update name (fun _ => []) files) := rfl

theorem runOn_append :
    (append name text).runOn files =
      (.ok (), Entries.update name (fun old => old.getD [] ++ text) files) := rfl

/-- Where the file exists, this succeeds, puts the text at its end and leaves other files. -/
def Appends (name text : Text) (saving : Saving Unit) : Prop :=
  ∀ files old, Entries.get? files name = some old →
    ∃ files', saving.runOn files = (.ok (), files') ∧
      Entries.get? files' name = some (old ++ text) ∧
      ∀ other ≠ name, Entries.get? files' other = Entries.get? files other

theorem appends_pure : Appends name [] (pure ()) :=
  fun files old hold => ⟨files, rfl, by simpa using hold, fun _ _ => rfl⟩

theorem Appends.bind {more : Text} {saving after : Saving Unit} (h : Appends name text saving)
    (hafter : Appends name more after) :
    Appends name (text ++ more) (saving >>= fun _ => after) := by
  intro files old hold
  obtain ⟨between, hrun, hbetween, hothers⟩ := h files old hold
  obtain ⟨files', hrun', hfiles', hothers'⟩ := hafter between (old ++ text) hbetween
  refine ⟨files', ?_, by simpa using hfiles', fun other hother => ?_⟩
  · rw [runOn_bind_of_ok hrun, hrun']
  · rw [hothers' other hother, hothers other hother]

theorem appends_write {width : Nat} {cells : List Text} (h : cells.length = width) :
    Appends name (record cells) (write name width cells) := by
  intro files old hold
  rw [write, if_pos h]
  refine ⟨_, runOn_append, ?_, fun other hother => Entries.get?_update_of_ne _ _ hother⟩
  rw [Entries.get?_update_self, hold, Option.getD_some]

theorem appends_records {width : Nat} {rows : List (List Text)}
    (h : ∀ cells ∈ rows, cells.length = width) :
    Appends name (records rows) (rows.forM (write name width)) := by
  induction rows with
  | nil => exact appends_pure
  | cons cells rest ih =>
    rw [List.forall_mem_cons] at h
    exact (appends_write h.1).bind (ih h.2)

end Saving

/-! Sheets -/

namespace Sheet

open Saving

variable {α : Type} {s : Sheet α} {x : α} {i : Nat}

/-- Every column has a header and one value per place of the grid. -/
structure Fits (s : Sheet α) : Prop where
  headers : s.headers.length = s.columns.length
  columns : ∀ column ∈ s.columns, column.length = s.grid.length

theorem isComplete_iff : s.isComplete = true ↔ s.Fits := by
  simp only [isComplete, Bool.and_eq_true, beq_iff_eq, List.all_eq_true]
  exact ⟨fun ⟨hheaders, hcolumns⟩ => ⟨hheaders, hcolumns⟩, fun h => ⟨h.headers, h.columns⟩⟩

/-- Samples are never refused. -/
theorem fits_ofSamples (samples : List (α × α)) (argument value : Text) :
    (ofSamples samples argument value).Fits where
  headers := rfl
  columns := by simp [ofSamples]

theorem forall₂_filterMap_getElem? {columns : List (List α)}
    (h : ∀ column ∈ columns, i < column.length) :
    List.Forall₂ (fun column value => column[i]? = some value) columns
      (columns.filterMap (·[i]?)) := by
  induction columns with
  | nil => exact .nil
  | cons column rest ih =>
    rw [List.forall_mem_cons] at h
    have hvalue : column[i]? = some column[i] := List.getElem?_eq_getElem h.1
    rw [List.filterMap_cons_some (f := (·[i]?)) hvalue]
    exact .cons hvalue (ih h.2)

variable [Scalar α]

/-- The cells are the printed values of the grid and of every column at a place. -/
def IsRecordAt (s : Sheet α) (i : Nat) (cells : List Text) : Prop :=
  ∃ x values, s.grid[i]? = some x ∧
    List.Forall₂ (fun column value => column[i]? = some value) s.columns values ∧
    cells = (x :: values).map Scalar.plain

theorem Fits.isRecordAt_row (h : s.Fits) (hx : s.grid[i]? = some x) :
    s.IsRecordAt i (s.row i x) := by
  obtain ⟨hi, -⟩ := List.getElem?_eq_some_iff.mp hx
  have hcolumns : ∀ column ∈ s.columns, i < column.length := fun column hcolumn => by
    rwa [h.columns column hcolumn]
  exact ⟨x, _, hx, forall₂_filterMap_getElem? hcolumns, rfl⟩

theorem IsRecordAt.length_eq {cells : List Text} (h : s.IsRecordAt i cells) :
    cells.length = s.columns.length + 1 := by
  obtain ⟨x, values, -, hvalues, rfl⟩ := h
  simp [hvalues.length_eq]

theorem Fits.forall₂_isRecordAt_rows (h : s.Fits) :
    List.Forall₂ s.IsRecordAt (List.range s.grid.length) s.rows := by
  rw [List.range_eq_range', ← List.zipIdx_map_snd 0 s.grid, rows, List.forall₂_map_left_iff,
    List.forall₂_map_right_iff, List.forall₂_same]
  exact fun _ hentry => h.isRecordAt_row (List.mem_zipIdx_iff_getElem?.mp hentry)

theorem Fits.length_eq (h : s.Fits) :
    ∀ cells ∈ s.heading :: s.rows, cells.length = s.heading.length := by
  refine List.forall_mem_cons.mpr ⟨rfl, fun cells hcells => ?_⟩
  obtain ⟨⟨x, i⟩, hentry, rfl⟩ := List.mem_map.mp hcells
  have hrecord := h.isRecordAt_row (List.mem_zipIdx_iff_getElem?.mp hentry)
  rw [hrecord.length_eq, heading, List.length_cons, h.headers]

theorem runOn_save_of_not_fits (h : ¬s.Fits) (name : Text) (files : Files) :
    (s.save name).runOn files = (.error (.invalidInput incompleteMessage), files) := by
  have hcheck : s.isComplete = false := by rwa [← Bool.not_eq_true, isComplete_iff]
  simp only [save, hcheck]
  exact runOn_bind_of_error rfl

theorem Fits.runOn_save (h : s.Fits) (name : Text) (files : Files) :
    ∃ files', (s.save name).runOn files = (.ok (), files') ∧
      Entries.get? files' name = some (records (s.heading :: s.rows)) ∧
      ∀ other ≠ name, Entries.get? files' other = Entries.get? files other := by
  have hcheck : s.isComplete = true := isComplete_iff.mpr h
  have hwrites : Appends name (records (s.heading :: s.rows)) _ := appends_records h.length_eq
  obtain ⟨files', hrun, htext, hothers⟩ :=
    hwrites (Entries.update name (fun _ => []) files) [] (Entries.get?_update_self files name _)
  refine ⟨files', ?_, htext, fun other hother => ?_⟩
  · simp only [save, hcheck]
    exact (runOn_bind_of_ok runOn_create).trans hrun
  · rw [hothers other hother, Entries.get?_update_of_ne _ _ hother]

/-- **Whole or not at all.** A sheet that does not fit changes no file. Any other is written so
that its heading and, place by place, the printed values are read back. -/
theorem save_readable_or_untouched (s : Sheet α) (name : Text) (files : Files) :
    (¬s.Fits → s.text? = none ∧
      (s.save name).runOn files = (.error (.invalidInput incompleteMessage), files)) ∧
    (s.Fits → ∃ text files', s.text? = some text ∧
      (s.save name).runOn files = (.ok (), files') ∧ Entries.get? files' name = some text ∧
      (∀ other ≠ name, Entries.get? files' other = Entries.get? files other) ∧
      ∃ rows, List.Forall₂ s.IsRecordAt (List.range s.grid.length) rows ∧
        read? text = some ((s.argument :: s.headers) :: rows)) := by
  refine ⟨fun h => ⟨?_, runOn_save_of_not_fits h name files⟩, fun h => ?_⟩
  · rw [← isComplete_iff] at h
    simp [text?, h]
  · obtain ⟨files', hrun, htext, hothers⟩ := h.runOn_save name files
    refine ⟨_, files', ?_, hrun, htext, hothers, s.rows, h.forall₂_isRecordAt_rows, ?_⟩
    · simp [text?, isComplete_iff.mpr h]
    · refine read?_records fun cells hcells => List.ne_nil_of_length_pos ?_
      rw [h.length_eq cells hcells, heading, List.length_cons]
      exact Nat.succ_pos _

/-- Headers with every character that is told apart by quotes, and without any. -/
def tangled : Sheet Float where
  argument := []
  grid := [0.5, 1.5]
  headers := ["a,b".toList, "\"c\"\n".toList, []]
  columns := [[1.0, 2.0], [3.0, 4.0], [5.0, 6.0]]

/-- A sheet whose heading is one empty cell. -/
def blank : Sheet Float where
  argument := []
  grid := [0.5]
  headers := []
  columns := []

/-- A sheet whose column is too short. -/
def lame : Sheet Float where
  argument := ['x']
  grid := [0.5, 1.5]
  headers := [['f']]
  columns := [[1.0]]

theorem save_readable_or_untouched_tangled :
    (∃ text rows, tangled.text? = some text ∧ rows.length = 2 ∧
      read? text = some (([] :: ["a,b".toList, "\"c\"\n".toList, []]) :: rows)) ∧
    (∃ text rows, blank.text? = some text ∧ rows.length = 1 ∧
      read? text = some ([[]] :: rows)) ∧
    (lame.save ['f']).runOn [(['f'], ['1'])] =
      (.error (.invalidInput incompleteMessage), [(['f'], ['1'])]) := by
  refine ⟨?_, ?_, ?_⟩
  · obtain ⟨text, _, htext, -, -, -, rows, hrows, hread⟩ :=
      (save_readable_or_untouched tangled [] []).2 ⟨rfl, by simp [tangled]⟩
    exact ⟨text, rows, htext, hrows.length_eq.symm, hread⟩
  · obtain ⟨text, _, htext, -, -, -, rows, hrows, hread⟩ :=
      (save_readable_or_untouched blank [] []).2 ⟨rfl, by simp [blank]⟩
    exact ⟨text, rows, htext, hrows.length_eq.symm, hread⟩
  · have hlame : ¬lame.Fits := fun h => by simpa [lame] using h.columns [1.0] (by simp [lame])
    exact ((save_readable_or_untouched lame _ _).1 hlame).2

end Sheet

end Univariate.Csv
