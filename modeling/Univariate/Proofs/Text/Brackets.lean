import Univariate.Text.Brackets

/-!
# Brackets across a concatenation

A text that closes its own brackets can stand anywhere: what comes after it is read as if it were
not there.
-/

namespace Univariate.Text

/-- The text closes so many open brackets, one character at a time. -/
inductive Closes : Nat → Text → Prop where
  | nil : Closes 0 []
  | opening {n : Nat} {t : Text} (h : Closes (n + 1) t) : Closes n ('(' :: t)
  | closing {n : Nat} {t : Text} (h : Closes n t) : Closes (n + 1) (')' :: t)
  | other {n : Nat} {c : Char} {t : Text} (hopen : c ≠ '(') (hclose : c ≠ ')')
      (h : Closes n t) : Closes n (c :: t)

theorem closes_cons_of_ne {c : Char} (hopen : c ≠ '(') (hclose : c ≠ ')') (n : Nat) (t : Text) :
    closes n (c :: t) = closes n t := by
  rw [closes.eq_def]
  split <;> simp_all

theorem splitClosing?_cons_of_ne {c : Char} (hopen : c ≠ '(') (hclose : c ≠ ')') (n : Nat)
    (t : Text) :
    splitClosing? n (c :: t) = (splitClosing? n t).map fun (u, v) => (c :: u, v) := by
  rw [splitClosing?.eq_def]
  split <;> simp_all

theorem closes_iff {n : Nat} {t : Text} : closes n t = true ↔ Closes n t := by
  constructor
  · intro h
    fun_induction closes n t with
    | case1 n =>
        have hn : n = 0 := by simpa using h
        exact hn ▸ .nil
    | case2 n t ih => exact .opening (ih h)
    | case3 => simp at h
    | case4 n t ih => exact .closing (ih h)
    | case5 n c t hopen hzero hsucc ih =>
        refine .other hopen (fun hc => ?_) (ih h)
        cases n with
        | zero => exact hzero rfl hc
        | succ n => exact hsucc n rfl hc
  · intro h
    induction h with
    | nil => rfl
    | opening _ ih => exact ih
    | closing _ ih => exact ih
    | other hopen hclose _ ih => rwa [closes_cons_of_ne hopen hclose]

theorem balanced_iff {t : Text} : t.balanced = true ↔ Closes 0 t := closes_iff

/-- Brackets closed by the first text leave the second one with those that were open besides. -/
theorem Closes.append {m n : Nat} {u v : Text} (hu : Closes m u) (hv : Closes n v) :
    Closes (m + n) (u ++ v) := by
  induction hu with
  | nil => simpa using hv
  | opening _ ih =>
      rw [Nat.add_right_comm] at ih
      exact .opening ih
  | closing _ ih =>
      rw [Nat.add_right_comm]
      exact .closing ih
  | other hopen hclose _ ih => exact .other hopen hclose ih

theorem closes_of_forall_ne {t : Text} (h : ∀ c ∈ t, c ≠ '(' ∧ c ≠ ')') : Closes 0 t := by
  induction t with
  | nil => exact .nil
  | cons c t ih =>
      obtain ⟨hopen, hclose⟩ := h c List.mem_cons_self
      exact .other hopen hclose (ih fun b hb => h b (List.mem_cons_of_mem c hb))

theorem Closes.group {u : Text} (h : Closes 0 u) : Closes 0 ('(' :: (u ++ [')'])) :=
  .opening (h.append (.closing .nil))

/-- The bracket after a text that closes the open ones is the one that closes one more. -/
theorem Closes.splitClosing?_append {n : Nat} {u : Text} (h : Closes n u) (v : Text) :
    splitClosing? n (u ++ ')' :: v) = some (u, v) := by
  induction h with
  | nil => rfl
  | opening _ ih =>
      rw [List.cons_append, splitClosing?, ih]
      rfl
  | closing _ ih =>
      rw [List.cons_append, splitClosing?, ih]
      rfl
  | other hopen hclose _ ih =>
      rw [List.cons_append, splitClosing?_cons_of_ne hopen hclose, ih]
      rfl

theorem closes_of_splitClosing? {n : Nat} {t u v : Text} (h : splitClosing? n t = some (u, v)) :
    u.Closes n := by
  fun_induction splitClosing? n t generalizing u v with
  | case1 => cases h
  | case2 n rest ih =>
      obtain ⟨⟨u', v'⟩, hrest, heq⟩ := Option.map_eq_some_iff.mp h
      cases heq
      exact .opening (ih hrest)
  | case3 =>
      cases h
      exact .nil
  | case4 n rest ih =>
      obtain ⟨⟨u', v'⟩, hrest, heq⟩ := Option.map_eq_some_iff.mp h
      cases heq
      exact .closing (ih hrest)
  | case5 n c rest hopen hzero hsucc ih =>
      obtain ⟨⟨u', v'⟩, hrest, heq⟩ := Option.map_eq_some_iff.mp h
      cases heq
      refine .other hopen (fun hc => ?_) (ih hrest)
      cases n with
      | zero => exact hzero rfl hc
      | succ n => exact hsucc n rfl hc

theorem closes_of_groupInterior? {t u : Text} (h : groupInterior? t = some u) : u.Closes 0 := by
  unfold groupInterior? at h
  split at h
  · split at h
    · next hsplit =>
        cases h
        exact closes_of_splitClosing? hsplit
    · cases h
  · cases h

theorem Closes.groupInterior?_group {u : Text} (h : Closes 0 u) :
    groupInterior? ('(' :: (u ++ [')'])) = some u := by
  rw [groupInterior?, h.splitClosing?_append]

theorem groupInterior?_of_not_mem {t : Text} (h : '(' ∉ t) : groupInterior? t = none := by
  rw [Option.eq_none_iff_forall_ne_some]
  intro u hu
  apply h
  rw [eq_of_groupInterior? hu]
  exact List.mem_cons_self

theorem groupInterior?_of_head_ne {c : Char} {t : Text} (h : c ≠ '(') :
    groupInterior? (c :: t) = none := by
  rw [groupInterior?]
  simpa using h

end Univariate.Text
