import Mathlib.Tactic.Common
import Univariate.Csv

/-! A reader of comma-separated records, one character at a time, and what it makes of records that
were written.

A record ends in a newline, and a blank line is no record. A cell in double quotes stands for its
text with doubled quotes halved. A quote or a carriage return in a cell without quotes is refused,
and so is anything but a separator behind a closing quote. -/

namespace Univariate.Csv

inductive Place where
  | record
  | cell
  | bare
  | quoted
  /-- Behind a quote that closes the cell, or is the first of two. -/
  | quote
  deriving DecidableEq

/-- A reader in the middle of its text: complete records, complete cells of the next record, and
what there is of the next cell. -/
structure Reading where
  place : Place := .record
  complete : List (List Text) := []
  cells : List Text := []
  cell : Text := []

namespace Reading

def put (r : Reading) (place : Place) (c : Char) : Reading :=
  { r with place, cell := r.cell ++ [c] }

def endCell (r : Reading) : Reading :=
  { r with place := .cell, cells := r.cells ++ [r.cell], cell := [] }

def endRecord (r : Reading) : Reading :=
  { complete := r.complete ++ [r.cells ++ [r.cell]] }

def separate (r : Reading) (c : Char) : Option Reading :=
  if c = ',' then some r.endCell
  else if c = '\n' then some r.endRecord
  else none

def bareStep (r : Reading) (c : Char) : Option Reading :=
  if c = '"' ∨ c = '\r' then none
  else r.separate c <|> some (r.put .bare c)

def step (r : Reading) (c : Char) : Option Reading :=
  match r.place with
  | .record => if c = '\n' then some r else if c = '"' then some { r with place := .quoted }
    else r.bareStep c
  | .cell => if c = '"' then some { r with place := .quoted } else r.bareStep c
  | .bare => r.bareStep c
  | .quoted => some (if c = '"' then { r with place := .quote } else r.put .quoted c)
  | .quote => if c = '"' then some (r.put .quoted c) else r.separate c

end Reading

/-- The records of a text; none if the text is not one of complete records. -/
def read? (text : Text) : Option (List (List Text)) :=
  match text.foldlM Reading.step {} with
  | some { place := .record, complete, .. } => some complete
  | _ => none

/-! Cells -/

namespace Reading

variable {r : Reading} {cell : Text} {c : Char}

theorem step_of_ordinary (hplace : r.place ∈ [.record, .cell, .bare])
    (hc : ¬(c = ',' ∨ c = '"' ∨ c = '\r' ∨ c = '\n')) : r.step c = some (r.put .bare c) := by
  simp only [not_or] at hc
  simp only [List.mem_cons, List.not_mem_nil, or_false] at hplace
  rcases hplace with h | h | h <;> simp [step, h, bareStep, separate, hc]

theorem step_of_separator (hplace : r.place ∈ [.record, .cell, .bare]) (hc : c = ',' ∨ c = '\n')
    (hblank : ¬(r.place = .record ∧ c = '\n')) : r.step c = r.separate c := by
  simp only [List.mem_cons, List.not_mem_nil, or_false] at hplace
  rcases hc with rfl | rfl <;> rcases hplace with h | h | h <;>
    simp_all [step, bareStep, separate]

/-- Without quotes, an empty cell that is alone on its line is lost. -/
theorem foldlM_bare (hplace : r.place ∈ [.record, .cell, .bare])
    (hcell : needsQuotes cell = false) (hc : c = ',' ∨ c = '\n')
    (hblank : ¬(r.place = .record ∧ cell = [] ∧ c = '\n')) :
    (cell ++ [c]).foldlM step r = { r with cell := r.cell ++ cell }.separate c := by
  induction cell generalizing r with
  | nil =>
    have hstep := step_of_separator hplace hc (by simpa using hblank)
    simpa using hstep
  | cons d rest ih =>
    simp only [needsQuotes, List.any_cons, Bool.or_eq_false_iff] at hcell
    have hstep : r.step d = some (r.put .bare d) :=
      step_of_ordinary hplace (by simpa [not_or, and_assoc] using hcell.1)
    have hrest := @ih (r.put .bare d) (by simp [put]) hcell.2 (by simp [put])
    simp only [List.cons_append, List.foldlM_cons, hstep, Option.bind_eq_bind, Option.bind_some,
      hrest]
    simp [put, separate, endCell, endRecord]

theorem foldlM_doubled (hplace : r.place = .quoted) :
    (cell.flatMap fun c => if c == '"' then ['"', '"'] else [c]).foldlM step r =
      some { r with cell := r.cell ++ cell } := by
  induction cell generalizing r with
  | nil => simp
  | cons d rest ih =>
    have hstep : (if d == '"' then ['"', '"'] else [d]).foldlM step r = some (r.put .quoted d) := by
      by_cases hd : d = '"' <;> simp [hd, step, hplace, put]
    rw [List.flatMap_cons, List.foldlM_append, hstep, Option.bind_eq_bind, Option.bind_some,
      ih rfl]
    simp [put, hplace]

structure IsBeforeCell (r : Reading) : Prop where
  place : r.place = .record ∨ r.place = .cell
  cell : r.cell = []

theorem IsBeforeCell.foldlM_quote (h : r.IsBeforeCell) (hc : c = ',' ∨ c = '\n') :
    (quote cell ++ [c]).foldlM step r = { r with cell }.separate c := by
  have hopen : r.step '"' = some { r with place := .quoted } := by
    rcases h.place with hplace | hplace <;> simp [step, hplace]
  simp only [quote, List.append_assoc, List.cons_append, List.nil_append, List.foldlM_cons, hopen,
    List.foldlM_append, Option.bind_eq_bind, Option.bind_some, foldlM_doubled]
  rcases hc with rfl | rfl <;> simp [step, separate, endCell, endRecord, h.cell]

/-- Cells are told apart by what follows them, whether they are written in quotes or not. -/
theorem IsBeforeCell.foldlM_cell (h : r.IsBeforeCell) (alone : Bool) (cell : Text)
    (hc : c = ',' ∨ c = '\n') (hblank : r.place = .record → cell = [] → c = '\n' → alone) :
    ((if alone || needsQuotes cell then quote cell else cell) ++ [c]).foldlM step r =
      { r with cell }.separate c := by
  split
  · exact h.foldlM_quote hc
  · next hbare =>
    simp only [Bool.or_eq_true, not_or, Bool.not_eq_true] at hbare
    have hplace : r.place ∈ [.record, .cell, .bare] := by
      rcases h.place with hplace | hplace <;> simp [hplace]
    rw [foldlM_bare hplace hbare.2 hc]
    · simp [h.cell]
    · rintro ⟨hrecord, rfl, rfl⟩
      simp [hblank hrecord rfl rfl] at hbare

/-! Records -/

/-- The cells of a record, from any of them on. -/
theorem IsBeforeCell.foldlM_cells (h : r.IsBeforeCell) (alone : Bool) (cell : Text)
    (cells : List Text) (hblank : r.place = .record → cells = [] → cell = [] → alone) :
    (List.intercalate [','] ((cell :: cells).map fun cell =>
      if alone || needsQuotes cell then quote cell else cell) ++ ['\n']).foldlM step r =
      some { complete := r.complete ++ [r.cells ++ cell :: cells] } := by
  induction cells generalizing r cell with
  | nil =>
    have hlast := h.foldlM_cell alone cell (Or.inr rfl)
      (fun hrecord hcell _ => hblank hrecord rfl hcell)
    simpa [separate, endRecord] using hlast
  | cons next rest ih =>
    have hfirst := h.foldlM_cell alone cell (Or.inl rfl) (by simp)
    -- Behind a comma an empty cell is read, whatever follows it.
    have hbehind : { r with cell }.endCell.IsBeforeCell := ⟨Or.inr rfl, rfl⟩
    have hrest := ih hbehind next (by simp [endCell])
    rw [List.map_cons] at hrest
    rw [List.map_cons, List.map_cons, List.intercalate_cons_cons, List.append_assoc,
      List.foldlM_append, hfirst]
    simpa [separate, endCell] using hrest

theorem foldlM_record (done : List (List Text)) {row : List Text} (hrow : row ≠ []) :
    (record row).foldlM step { complete := done } = some { complete := done ++ [row] } := by
  obtain ⟨cell, cells, rfl⟩ := List.exists_cons_of_ne_nil hrow
  have hstart : IsBeforeCell { complete := done } := ⟨Or.inl rfl, rfl⟩
  have hcells := hstart.foldlM_cells (cell :: cells == [[]]) cell cells
    (by rintro - rfl rfl; rfl)
  simpa [record] using hcells

theorem foldlM_records (done : List (List Text)) {rows : List (List Text)}
    (hrows : ∀ row ∈ rows, row ≠ []) :
    (records rows).foldlM step { complete := done } = some { complete := done ++ rows } := by
  induction rows generalizing done with
  | nil => simp [records]
  | cons row rest ih =>
    rw [List.forall_mem_cons] at hrows
    have hrest := ih (done ++ [row]) hrows.2
    rw [records] at hrest
    simp [records, foldlM_record done hrows.1, hrest]

end Reading

theorem read?_records {rows : List (List Text)} (hrows : ∀ row ∈ rows, row ≠ []) :
    read? (records rows) = some rows := by
  simp [read?, Reading.foldlM_records [] hrows]

example : read? "x,\"a \"\"b\"\", c\"\n\"\"\n1,\n".toList =
    some [["x".toList, "a \"b\", c".toList], [[]], ["1".toList, []]] := by decide

end Univariate.Csv
