import Mathlib.Data.List.Basic
import Univariate.Proofs.Text.Blank

/-!
# Lines of a text

The lines of a text are what stands between its line feeds, without the carriage returns before
them, and without an empty last one.
-/

namespace Univariate.Text

/-! ### Between line feeds -/

theorem splitOn_newline (t : Text) : List.splitOn '\n' ('\n' :: t) = [] :: t.splitOn '\n' :=
  (List.splitOnP_cons_eq_if_modifyHead '\n' t).trans (if_pos (by decide))

theorem exists_splitOn_cons {c : Char} (hc : c ≠ '\n') (t : Text) :
    ∃ line lines, t.splitOn '\n' = line :: lines ∧
      List.splitOn '\n' (c :: t) = (c :: line) :: lines := by
  obtain ⟨line, lines, hlines⟩ := List.exists_cons_of_ne_nil (List.splitOnP_ne_nil (· == '\n') t)
  refine ⟨line, lines, hlines, ?_⟩
  have hcons := List.splitOnP_cons_eq_if_modifyHead (p := (· == '\n')) c t
  rw [if_neg (by simpa using hc), hlines] at hcons
  exact hcons

theorem exists_splitOn_append {u : Text} (hu : '\n' ∉ u) (t : Text) :
    ∃ line lines, t.splitOn '\n' = line :: lines ∧
      (u ++ t).splitOn '\n' = (u ++ line) :: lines := by
  induction u with
  | nil =>
      obtain ⟨line, lines, hlines⟩ :=
        List.exists_cons_of_ne_nil (List.splitOnP_ne_nil (· == '\n') t)
      exact ⟨line, lines, hlines, hlines⟩
  | cons c u ih =>
      obtain ⟨hc, hu⟩ := not_or.mp (mt List.mem_cons.mpr hu)
      obtain ⟨line, lines, hlines, happend⟩ := ih hu
      obtain ⟨line', lines', hlines', hcons⟩ := exists_splitOn_cons (Ne.symm hc) (u ++ t)
      rw [happend] at hlines'
      cases hlines'
      exact ⟨line, lines, hlines, hcons⟩

theorem head?_of_splitOn {t line : Text} {lines : List Text} (h : t.splitOn '\n' = line :: lines)
    {c : Char} (hc : line.head? = some c) : t.head? = some c ∧ c ≠ '\n' := by
  cases t with
  | nil =>
      rw [List.splitOn_nil] at h
      cases h
      cases hc
  | cons d t =>
      by_cases hd : d = '\n'
      · rw [hd, splitOn_newline] at h
        cases h
        cases hc
      · obtain ⟨line', lines', -, hcons⟩ := exists_splitOn_cons hd t
        rw [hcons] at h
        cases h
        cases hc
        exact ⟨rfl, hd⟩

theorem exists_append_of_splitOn {t line : Text} {lines : List Text}
    (h : t.splitOn '\n' = line :: lines) : ∃ rest, t = line ++ rest := by
  have hjoin : List.intercalate ['\n'] (line :: lines) = t := h ▸ List.intercalate_splitOn '\n'
  cases lines with
  | nil => exact ⟨[], by rw [← hjoin, List.intercalate_singleton, List.append_nil]⟩
  | cons =>
      rw [List.intercalate_cons_cons, List.append_assoc] at hjoin
      exact ⟨_, hjoin.symm⟩

/-! ### Ends of lines -/

theorem trimStart_append {u : Text} (hu : ∀ c ∈ u, isBlank c = true) (t : Text) :
    (u ++ t).trimStart = t.trimStart :=
  List.dropWhile_append_of_pos hu

theorem trimStart_cons {c : Char} (hc : isBlank c = false) (t : Text) :
    trimStart (c :: t) = c :: t :=
  List.dropWhile_cons_of_neg (by simp [hc])

theorem trimEnd_cons {c : Char} (hc : isBlank c = false) (t : Text) :
    trimEnd (c :: t) = c :: trimEnd t := by
  unfold trimEnd
  rw [List.reverse_cons, List.dropWhile_append]
  split
  · next hempty =>
      rw [List.isEmpty_iff] at hempty
      rw [hempty, List.dropWhile_cons_of_neg (by simp [hc])]
      rfl
  · rw [List.reverse_append]
    rfl

theorem trim_append_singleton {b : Char} (hb : isBlank b = true) (t : Text) :
    trim (t ++ [b]) = t.trim := by
  unfold trim trimStart
  rw [List.dropWhile_append]
  split
  · next hempty =>
      rw [List.isEmpty_iff] at hempty
      rw [hempty, List.dropWhile_cons_of_pos hb]
      rfl
  · unfold trimEnd
    rw [List.reverse_append, List.reverse_singleton, List.singleton_append,
      List.dropWhile_cons_of_pos hb]

/-- Without a carriage return at its end. -/
def chomp (line : Text) : Text := if line.getLast? = some '\r' then line.dropLast else line

theorem chomp_of_not_mem {line : Text} (h : '\r' ∉ line) : line.chomp = line :=
  if_neg fun hlast => h (List.mem_of_getLast? hlast)

theorem trim_chomp (line : Text) : line.chomp.trim = line.trim := by
  unfold chomp
  split
  · next hlast =>
      obtain ⟨u, rfl⟩ := List.getLast?_eq_some_iff.mp hlast
      rw [List.dropLast_concat, trim_append_singleton (by decide)]
  · rfl

theorem chomp_cons {c : Char} {line : Text} (h : line ≠ [] ∨ c ≠ '\r') :
    chomp (c :: line) = c :: line.chomp := by
  cases line with
  | nil =>
      apply if_neg
      intro hlast
      exact h.elim (fun hne => hne rfl) fun hc => hc (Option.some.inj hlast)
  | cons d line =>
      unfold chomp
      rw [List.getLast?_cons_cons]
      split <;> rfl

/-- The lines of a text from what stands between its line feeds. -/
def endLines : List Text → List Text
  | [] => []
  | [last] => if last = [] then [] else [last]
  | line :: rest => line.chomp :: endLines rest

theorem endLines_cons {line : Text} {rest : List Text} (h : rest ≠ []) :
    endLines (line :: rest) = line.chomp :: endLines rest := by
  cases rest with
  | nil => exact absurd rfl h
  | cons => rfl

theorem lines_ne_nil (c : Char) (t : Text) : lines (c :: t) ≠ [] := by
  rw [lines.eq_def]
  split
  · next h => cases h
  · exact List.cons_ne_nil _ _
  · exact List.cons_ne_nil _ _
  · split <;> exact List.cons_ne_nil _ _

/-- A character that ends no line belongs to the first one. -/
theorem exists_endLines_splitOn_cons {c d : Char} (hc : c ≠ '\n') (hreturn : c = '\r' → d ≠ '\n')
    (t : Text) :
    ∃ line others, endLines (List.splitOn '\n' (d :: t)) = line :: others ∧
      endLines (List.splitOn '\n' (c :: d :: t)) = (c :: line) :: others := by
  obtain ⟨line, others, hsplit, hcons⟩ := exists_splitOn_cons hc (d :: t)
  rw [hsplit, hcons]
  cases others with
  | nil =>
      have hline : line = d :: t := by
        have h : ['\n'].intercalate ((d :: t).splitOn '\n') = d :: t :=
          List.intercalate_splitOn '\n'
        rwa [hsplit, List.intercalate_singleton] at h
      refine ⟨line, [], if_neg ?_, if_neg (List.cons_ne_nil c line)⟩
      rw [hline]
      exact List.cons_ne_nil d t
  | cons next others =>
      refine ⟨chomp line, endLines (next :: others), rfl, ?_⟩
      rw [endLines_cons (List.cons_ne_nil next others), chomp_cons]
      cases line with
      | cons => exact Or.inl (List.cons_ne_nil _ _)
      | nil =>
          refine Or.inr fun hc' => hreturn hc' ?_
          by_contra hd
          obtain ⟨_, _, -, hcons'⟩ := exists_splitOn_cons hd t
          rw [hsplit] at hcons'
          cases hcons'

theorem lines_eq (t : Text) : t.lines = endLines (t.splitOn '\n') := by
  have hne : ∀ t : Text, t.splitOn '\n' ≠ [] := List.splitOnP_ne_nil _
  fun_induction lines t with
  | case1 => rfl
  | case2 rest ih =>
      rw [splitOn_newline, endLines_cons (hne rest), ih]
      rfl
  | case3 rest ih =>
      obtain ⟨line, lines, hsplit, hcons⟩ :=
        exists_splitOn_cons (by decide : '\r' ≠ '\n') ('\n' :: rest)
      rw [splitOn_newline] at hsplit
      cases hsplit
      rw [hcons, endLines_cons (hne rest), ih]
      rfl
  | case4 c hc line others d rest hreturn hlines ih =>
      obtain ⟨line', others', hrest, hall⟩ := exists_endLines_splitOn_cons
        (fun h => hc h) (fun h hd => hreturn rest h (congrArg (· :: rest) hd)) rest
      rw [hall, hlines]
      rw [hlines, hrest] at ih
      cases ih
      rfl
  | case5 c rest hc hreturn hnone ih =>
      cases rest with
      | nil =>
          obtain ⟨line, lines, hsplit, hcons⟩ := exists_splitOn_cons (fun h => hc h) []
          cases hsplit
          rw [hcons]
          rfl
      | cons d rest =>
          obtain ⟨line, others, hlines⟩ := List.exists_cons_of_ne_nil (lines_ne_nil d rest)
          exact (hnone line others d rest hlines rfl).elim

end Univariate.Text
