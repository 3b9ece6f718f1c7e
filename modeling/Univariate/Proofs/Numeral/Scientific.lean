import Univariate.Proofs.Numeral.Digits

/-!
# What is read as a number

A sign, and either one of three words or digits with at most one point and an optional exponent.
-/

namespace Univariate.Numeral

/-! ### Whole numbers -/

theorem natural?_eq_some_iff {t : Text} {n : Nat} :
    natural? t = some n ↔ IsDigits t ∧ n = digitsValue t := by
  unfold natural? IsDigits
  rw [Option.ite_none_right_eq_some, Option.some.injEq, Bool.and_eq_true, Bool.not_eq_true',
    List.isEmpty_eq_false_iff, List.all_eq_true, eq_comm]

theorem cast_natural?_eq_some {t : Text} {value : Int}
    (h : (do let n ← natural? t; pure (n : Int)) = some value) :
    IsDigits t ∧ value = digitsValue t := by
  obtain ⟨n, hn, hvalue⟩ := Option.bind_eq_some_iff.mp h
  obtain ⟨hdigits, rfl⟩ := natural?_eq_some_iff.mp hn
  exact ⟨hdigits, (Option.some.inj hvalue).symm⟩

/-- An integer text is digits behind an optional sign. -/
theorem integer?_eq_some {t : Text} {n : Int} (h : integer? t = some n) :
    IsDigits t.takeSign.2 ∧
      n = if t.takeSign.1 then -(digitsValue t.takeSign.2 : Int) else digitsValue t.takeSign.2 := by
  unfold integer? at h
  dsimp only at h
  obtain ⟨hvalue, -⟩ := Option.filter_eq_some_iff.mp h
  obtain ⟨value, hnatural, rfl⟩ := Option.map_eq_some_iff.mp hvalue
  obtain ⟨hdigits, rfl⟩ := cast_natural?_eq_some hnatural
  exact ⟨hdigits, rfl⟩

/-! ### Decimals -/

/-- Nothing, or `e` with digits behind it, a sign between them being optional. -/
inductive IsExponent : Text → Prop where
  | none : IsExponent []
  | mark {c : Char} {t : Text} (hc : c = 'e' ∨ c = 'E') (ht : IsDigits t.takeSign.2) :
    IsExponent (c :: t)

theorem isExponent_of_exponent? {t : Text} {n : Int} (h : exponent? t = some n) :
    IsExponent t := by
  cases t with
  | nil => exact .none
  | cons c t =>
      unfold exponent? at h
      obtain ⟨hc, h⟩ := (Option.ite_none_right_eq_some ..).mp h
      obtain ⟨value, hnatural, -⟩ := Option.map_eq_some_iff.mp h
      rw [Bool.or_eq_true, beq_iff_eq, beq_iff_eq] at hc
      exact .mark hc (cast_natural?_eq_some hnatural).1

theorem exists_eq_of_magnitude? {t : Text} {size : Nat × Int} (h : magnitude? t = some size) :
    ∃ k tail, t = k ++ tail ∧ IsMantissa k ∧ IsExponent tail := by
  have hwhole : ∀ c ∈ t.takeWhile Char.isDigit, c.isDigit = true :=
    fun _ hc => List.mem_takeWhile_imp hc
  have ht : t = t.takeWhile Char.isDigit ++ t.dropWhile Char.isDigit :=
    List.takeWhile_append_dropWhile.symm
  unfold magnitude? at h
  dsimp only at h
  split at h
  · next rest hrest =>
      obtain ⟨-, h⟩ := (Option.ite_none_left_eq_some ..).mp h
      obtain ⟨n, hexponent, -⟩ := Option.map_eq_some_iff.mp h
      have hfraction : ∀ c ∈ rest.takeWhile Char.isDigit, c.isDigit = true :=
        fun _ hc => List.mem_takeWhile_imp hc
      refine ⟨_, _, ?_, .point hwhole hfraction, isExponent_of_exponent? hexponent⟩
      rw [List.append_assoc, List.cons_append, List.takeWhile_append_dropWhile, ← hrest]
      exact ht
  · obtain ⟨-, h⟩ := (Option.ite_none_left_eq_some ..).mp h
    obtain ⟨n, hexponent, -⟩ := Option.map_eq_some_iff.mp h
    exact ⟨_, _, ht, .whole hwhole, isExponent_of_exponent? hexponent⟩

/-! ### Words -/

/-- A text of letters that stands for a value that is not finite. -/
def IsWord (t : Text) : Prop := t.map Char.toLower ∈ ["inf".toList, "infinity".toList, "nan".toList]

theorem isAlpha_of_toLower {c : Char} (h : c.toLower.isAlpha = true) : c.isAlpha = true := by
  unfold Char.toLower at h
  split at h
  · next hupper =>
      exact Bool.or_eq_true_iff.mpr (.inl (decide_eq_true hupper))
  · exact h

theorem isDigit_of_isAlpha {c : Char} (h : c.isAlpha = true) : c.isDigit = false := by
  rw [Bool.eq_false_iff]
  intro hdigit
  have hle : c.val.toNat ≤ 57 := of_decide_eq_true (Bool.and_eq_true_iff.mp hdigit).2
  rcases Bool.or_eq_true_iff.mp h with hupper | hlower
  · have hge : 65 ≤ c.val.toNat := (of_decide_eq_true hupper).1
    omega
  · have hge : 97 ≤ c.val.toNat := of_decide_eq_true (Bool.and_eq_true_iff.mp hlower).1
    omega

theorem IsWord.isAlpha {t : Text} (h : IsWord t) : ∀ c ∈ t, c.isAlpha = true := by
  intro c hc
  have hlower : c.toLower ∈ t.map Char.toLower := List.mem_map_of_mem hc
  have hletters : ∀ word ∈ ["inf".toList, "infinity".toList, "nan".toList],
      word.all Char.isAlpha = true := by decide
  exact isAlpha_of_toLower (List.all_eq_true.mp (hletters _ h) _ hlower)

theorem IsWord.ne_nil {t : Text} (h : IsWord t) : t ≠ [] := by
  rintro rfl
  unfold IsWord at h
  revert h
  decide

theorem ofText?_of_not_isWord {t : Text} (h : ¬IsWord t.takeSign.2) :
    ofText? t = (magnitude? t.takeSign.2).map fun size => .decimal t.takeSign.1 size.1 size.2 := by
  have hword : ∀ word : String, word.toList ∈ ["inf".toList, "infinity".toList, "nan".toList] →
      (String.ofList (t.takeSign.2.map Char.toLower) == word) = false := by
    intro word hmem
    rw [beq_eq_false_iff_ne]
    rintro rfl
    have hletters := String.toList_ofList (l := t.takeSign.2.map Char.toLower)
    rw [hletters] at hmem
    exact h hmem
  unfold ofText?
  dsimp only
  rw [hword "inf" (by simp), hword "infinity" (by simp), hword "nan" (by simp)]
  rfl

theorem ofText?_cases {t : Text} {v : Numeral} (h : ofText? t = some v) :
    IsWord t.takeSign.2 ∨ ∃ size, magnitude? t.takeSign.2 = some size := by
  have toList_eq : ∀ {u : Text} {word : String}, String.ofList u = word → u = word.toList := by
    rintro u _ rfl
    exact String.toList_ofList.symm
  unfold ofText? at h
  dsimp only at h
  split at h
  · next hword =>
      left
      rw [Bool.or_eq_true, beq_iff_eq, beq_iff_eq] at hword
      rcases hword with hinf | hinfinity
      · exact List.mem_cons.mpr (.inl (toList_eq hinf))
      · exact List.mem_cons_of_mem _ (List.mem_cons.mpr (.inl (toList_eq hinfinity)))
  · split at h
    · next hword =>
        left
        rw [beq_iff_eq] at hword
        have hnan := List.mem_singleton.mpr (toList_eq hword)
        exact List.mem_cons_of_mem _ (List.mem_cons_of_mem _ hnan)
    · right
      obtain ⟨size, hsize, -⟩ := Option.map_eq_some_iff.mp h
      exact ⟨size, hsize⟩

end Univariate.Numeral
