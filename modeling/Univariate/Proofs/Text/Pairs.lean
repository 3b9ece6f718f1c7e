import Mathlib.Logic.ExistsUnique
import Univariate.Proofs.Text.Brackets

/-!
# Pairs of brackets

An opening bracket is paired with the closing bracket that has a balanced text in between. No two
pairs share a bracket or cross, and a text is balanced when each of its brackets is in a pair.
Places are counted in UTF-8 bytes, so that not every number up to the length is a place.
-/

namespace Univariate.Text

/-! ### Texts around a bracket -/

section Around

variable {m n : Nat} {t u v : Text}

theorem splitClosing?_eq_some_iff :
    splitClosing? n t = some (u, v) ↔ t = u ++ ')' :: v ∧ u.Closes n := by
  constructor
  · exact fun h => ⟨eq_of_splitClosing? h, closes_of_splitClosing? h⟩
  · rintro ⟨rfl, h⟩
    exact h.splitClosing?_append v

/-- Texts that close as many brackets before the same closing bracket are the same. -/
theorem Closes.eq_of_append_closing {u' v' : Text} (hu : u.Closes n) (hu' : u'.Closes n)
    (h : u ++ ')' :: v = u' ++ ')' :: v') : u = u' := by
  have hsplit := hu.splitClosing?_append v
  rw [h, hu'.splitClosing?_append] at hsplit
  cases hsplit
  rfl

/-- What follows a text that closes some of the open brackets closes the others. -/
theorem Closes.of_append (hu : u.Closes m) (h : (u ++ v).Closes n) :
    ∃ k, n = m + k ∧ v.Closes k := by
  induction hu generalizing n with
  | nil => exact ⟨n, (Nat.zero_add n).symm, h⟩
  | opening _ ih =>
      cases h with
      | opening h =>
          obtain ⟨k, hk, hv⟩ := ih h
          exact ⟨k, by omega, hv⟩
      | other hopen => exact absurd rfl hopen
  | closing _ ih =>
      cases h with
      | closing h =>
          obtain ⟨k, hk, hv⟩ := ih h
          exact ⟨k, by omega, hv⟩
      | other _ hclose => exact absurd rfl hclose
  | other hopen hclose _ ih =>
      cases h with
      | opening => exact absurd rfl hopen
      | closing => exact absurd rfl hclose
      | other _ _ h => exact ih h

theorem Closes.not_closes_append_closing (hu : u.Closes 0) : ¬(u ++ ')' :: v).Closes 0 := by
  intro h
  obtain ⟨k, hk, hv⟩ := hu.of_append h
  obtain rfl : k = 0 := by omega
  cases hv with
  | other _ hclose => exact hclose rfl

/-- The brackets opened last are closed first, in front of the bracket that closes the next one. -/
theorem Closes.exists_closing (h : t.Closes (m + (n + 1))) :
    ∃ u v : Text, t = u ++ ')' :: v ∧ u.Closes m := by
  generalize hk : m + (n + 1) = k at h
  induction h generalizing m with
  | nil => omega
  | opening _ ih =>
      obtain ⟨u, v, rfl, hu⟩ := ih (m := m + 1) (by omega)
      exact ⟨'(' :: u, v, rfl, .opening hu⟩
  | @closing k t _ ih =>
      cases m with
      | zero => exact ⟨[], t, rfl, .nil⟩
      | succ m =>
          obtain ⟨u, v, rfl, hu⟩ := ih (m := m) (by omega)
          exact ⟨')' :: u, v, rfl, .closing hu⟩
  | @other _ c _ hopen hclose _ ih =>
      obtain ⟨u, v, rfl, hu⟩ := ih hk
      exact ⟨c :: u, v, rfl, .other hopen hclose hu⟩

theorem Closes.exists_of_append (h : (u ++ v).Closes n) : ∃ m, v.Closes m := by
  induction u generalizing n with
  | nil => exact ⟨n, h⟩
  | cons c u ih =>
      cases h with
      | opening h | closing h | other _ _ h => exact ih h

/-- A bracket that is opened in such a text is closed in it. -/
theorem Closes.exists_closing_of_append (h : (u ++ '(' :: v).Closes n) :
    ∃ inner rest : Text, v = inner ++ ')' :: rest ∧ inner.Closes 0 := by
  obtain ⟨m, hm⟩ := h.exists_of_append
  cases hm with
  | opening hv => exact Closes.exists_closing (m := 0) (n := m) (by rwa [Nat.zero_add])
  | other hopen => exact absurd rfl hopen

/-- A closing bracket that comes next is paired with a bracket of the text. -/
def LeavesOpen (t : Text) : Prop :=
  ∃ before inner : Text, t = before ++ '(' :: inner ∧ inner.Closes 0

theorem LeavesOpen.cons (h : t.LeavesOpen) (c : Char) : LeavesOpen (c :: t) := by
  obtain ⟨before, inner, rfl, hinner⟩ := h
  exact ⟨c :: before, inner, rfl, hinner⟩

theorem Closes.not_leavesOpen (h : t.Closes n) : ¬t.LeavesOpen := by
  rintro ⟨before, inner, rfl, hinner⟩
  obtain ⟨inner, rest, rfl, hclosed⟩ := h.exists_closing_of_append
  exact hclosed.not_closes_append_closing hinner

/-- A text either leaves a bracket open or closes its own and some of those opened before it. -/
theorem exists_closes_or_leavesOpen (t : Text) : (∃ n, t.Closes n) ∨ t.LeavesOpen := by
  induction t with
  | nil => exact .inl ⟨0, .nil⟩
  | cons c t ih =>
      rcases ih with ⟨n, ht⟩ | hopened
      · by_cases hopen : c = '('
        · subst hopen
          cases n with
          | zero => exact .inr ⟨[], t, rfl, ht⟩
          | succ n => exact .inl ⟨n, .opening ht⟩
        by_cases hclose : c = ')'
        · subst hclose
          exact .inl ⟨n + 1, .closing ht⟩
        · exact .inl ⟨n, .other hopen hclose ht⟩
      · exact .inr (hopened.cons c)

theorem Closes.leavesOpen_of_append (h : (u ++ ')' :: v).Closes 0) : u.LeavesOpen := by
  refine (exists_closes_or_leavesOpen u).resolve_left ?_
  rintro ⟨m, hu⟩
  obtain ⟨k, hk, -⟩ := hu.of_append h
  obtain rfl : m = 0 := by omega
  exact hu.not_closes_append_closing h

/-- The brackets of a text are closed when each of them belongs to a pair. -/
theorem closes_zero_iff :
    t.Closes 0 ↔
      (∀ u v : Text, t = u ++ '(' :: v →
        ∃ inner rest : Text, v = inner ++ ')' :: rest ∧ inner.Closes 0) ∧
      ∀ u v : Text, t = u ++ ')' :: v → u.LeavesOpen := by
  constructor
  · intro h
    constructor
    · rintro u v rfl
      exact h.exists_closing_of_append
    · rintro u v rfl
      exact h.leavesOpen_of_append
  · rintro ⟨hopened, hclosed⟩
    rcases exists_closes_or_leavesOpen t with ⟨_ | n, h⟩ | ⟨before, inner, rfl, hinner⟩
    · exact h
    · obtain ⟨u, v, rfl, hu⟩ := Closes.exists_closing (m := 0) (by rwa [Nat.zero_add])
      exact absurd (hclosed u v rfl) hu.not_leavesOpen
    · obtain ⟨inner, rest, rfl, hinner'⟩ := hopened before inner rfl
      exact absurd hinner hinner'.not_closes_append_closing

end Around

/-! ### Places -/

@[simp]
theorem utf8Length_nil : utf8Length [] = 0 := rfl

theorem utf8Length_cons (c : Char) (t : Text) :
    utf8Length (c :: t) = c.utf8Size + t.utf8Length := rfl

@[simp]
theorem utf8Length_opening_cons (t : Text) : utf8Length ('(' :: t) = 1 + t.utf8Length := rfl

@[simp]
theorem utf8Length_closing_cons (t : Text) : utf8Length (')' :: t) = 1 + t.utf8Length := rfl

@[simp]
theorem utf8Length_append (u v : Text) :
    utf8Length (u ++ v) = u.utf8Length + v.utf8Length := by
  induction u with
  | nil => simp
  | cons c u ih => rw [List.cons_append, utf8Length_cons, ih, utf8Length_cons, Nat.add_assoc]

theorem eq_nil_of_utf8Length_eq_zero {t : Text} (h : t.utf8Length = 0) : t = [] := by
  cases t with
  | nil => rfl
  | cons c t =>
      have hpos := c.utf8Size_pos
      rw [utf8Length_cons] at h
      omega

/-- Of two starts of a text the one that is not longer is a start of the other. -/
theorem exists_eq_append_of_utf8Length_le {u u' v v' : Text} (h : u ++ v = u' ++ v')
    (hle : u.utf8Length ≤ u'.utf8Length) : ∃ w, u' = u ++ w ∧ v = w ++ v' := by
  rcases List.append_eq_append_iff.mp h with ⟨w, hu', hv⟩ | ⟨w, rfl, rfl⟩
  · exact ⟨w, hu', hv⟩
  · rw [utf8Length_append] at hle
    obtain rfl : w = [] := eq_nil_of_utf8Length_eq_zero (by omega)
    exact ⟨[], by simp, rfl⟩

theorem eq_and_eq_of_utf8Length_eq {u u' v v' : Text} (h : u ++ v = u' ++ v')
    (hlength : u.utf8Length = u'.utf8Length) : u = u' ∧ v = v' := by
  obtain ⟨w, rfl, rfl⟩ := exists_eq_append_of_utf8Length_le h (Nat.le_of_eq hlength)
  rw [utf8Length_append] at hlength
  obtain rfl : w = [] := eq_nil_of_utf8Length_eq_zero (by omega)
  exact ⟨(List.append_nil u).symm, rfl⟩

theorem dropBytes?_eq_some_iff {n : Nat} {t v : Text} :
    t.dropBytes? n = some v ↔ ∃ u, t = u ++ v ∧ u.utf8Length = n := by
  constructor
  · intro h
    fun_induction dropBytes? n t with
    | case1 t =>
        cases h
        exact ⟨[], rfl, rfl⟩
    | case2 => cases h
    | case3 n c t hc ih =>
        obtain ⟨u, rfl, hu⟩ := ih h
        refine ⟨c :: u, rfl, ?_⟩
        rw [utf8Length_cons]
        omega
    | case4 => cases h
  · rintro ⟨u, rfl, rfl⟩
    exact dropBytes?_utf8Length u v

/-- The character starts at this place. -/
def HasAt (t : Text) (place : Nat) (c : Char) : Prop :=
  ∃ before after : Text, t = before ++ c :: after ∧ before.utf8Length = place

/-- The text from one place to another. -/
def HasBetween (t : Text) (start stop : Nat) (u : Text) : Prop :=
  ∃ before after : Text,
    t = before ++ (u ++ after) ∧ before.utf8Length = start ∧ start + u.utf8Length = stop

/-! ### Pairs -/

/-- Two brackets with a balanced text between them. -/
structure IsPair (t : Text) (p q : Nat) : Prop where
  opening : t.HasAt p '('
  closing : t.HasAt q ')'
  lt : p < q
  balanced : ∃ inner : Text, t.HasBetween (p + 1) q inner ∧ inner.balanced = true

section Pairs

variable {t u v : Text} {p p' q q' : Nat}

theorem isPair_iff :
    t.IsPair p q ↔ ∃ before inner after : Text, t = before ++ '(' :: (inner ++ ')' :: after) ∧
      before.utf8Length = p ∧ p + 1 + inner.utf8Length = q ∧ inner.Closes 0 := by
  constructor
  · rintro ⟨⟨before, rest, rfl, rfl⟩, ⟨upto, after, hupto, hq⟩, -, inner, hbetween, hinner⟩
    obtain ⟨start, rest', hstart, hlength, hstop⟩ := hbetween
    -- The text between starts behind the opening bracket, and the closing bracket comes after it.
    obtain ⟨-, rfl⟩ : before ++ ['('] = start ∧ rest = inner ++ rest' :=
      eq_and_eq_of_utf8Length_eq (by simpa using hstart) (by simpa using hlength.symm)
    obtain ⟨-, rfl⟩ : before ++ '(' :: inner = upto ∧ rest' = ')' :: after :=
      eq_and_eq_of_utf8Length_eq (by simpa using hupto) (by simp; omega)
    exact ⟨before, inner, after, rfl, rfl, hstop, balanced_iff.mp hinner⟩
  · rintro ⟨before, inner, after, rfl, rfl, rfl, hinner⟩
    constructor
    · exact ⟨before, inner ++ ')' :: after, rfl, rfl⟩
    · exact ⟨before ++ '(' :: inner, after, by simp, by simp; omega⟩
    · omega
    · exact ⟨inner, ⟨before ++ ['('], ')' :: after, by simp, by simp, rfl⟩, balanced_iff.mpr hinner⟩

theorem partner?_eq_some_iff : t.partner? p = some q ↔ t.IsPair p q := by
  rw [isPair_iff]
  constructor
  · intro h
    unfold partner? at h
    split at h
    · next rest hdrop =>
        obtain ⟨before, rfl, hbefore⟩ := dropBytes?_eq_some_iff.mp hdrop
        obtain ⟨⟨inner, after⟩, hsplit, hq⟩ := Option.map_eq_some_iff.mp h
        obtain ⟨rfl, hinner⟩ := splitClosing?_eq_some_iff.mp hsplit
        exact ⟨before, inner, after, rfl, hbefore, hq, hinner⟩
    · cases h
  · rintro ⟨before, inner, after, rfl, rfl, rfl, hinner⟩
    simp only [partner?, dropBytes?_utf8Length, hinner.splitClosing?_append, Option.map_some]

/-- A pair that starts inside another one ends inside it. -/
theorem IsPair.lt_of_lt (h : t.IsPair p q) (h' : t.IsPair p' q') (hp : p < p') (hq : p' < q) :
    q' < q := by
  obtain ⟨before, inner, after, rfl, rfl, rfl, hinner⟩ := isPair_iff.mp h
  obtain ⟨before', inner', after', heq, rfl, rfl, hinner'⟩ := isPair_iff.mp h'
  -- The text between the brackets is cut at the bracket inside it.
  obtain ⟨u, rfl, hu⟩ : ∃ u, before' = before ++ ['('] ++ u ∧
      inner ++ ')' :: after = u ++ '(' :: (inner' ++ ')' :: after') :=
    exists_eq_append_of_utf8Length_le (by simpa using heq) (by simp; omega)
  simp only [utf8Length_append, utf8Length_opening_cons, utf8Length_nil] at hq ⊢
  obtain ⟨v, rfl, hv⟩ := exists_eq_append_of_utf8Length_le hu.symm (by omega)
  cases v with
  | nil => cases hv
  | cons c v =>
      obtain ⟨rfl, hv⟩ := List.cons.inj hv
      obtain ⟨closed, rest, rfl, hclosed⟩ := hinner.exists_closing_of_append
      obtain rfl : inner' = closed := hinner'.eq_of_append_closing hclosed (by simpa using hv)
      simp only [utf8Length_append, utf8Length_opening_cons, utf8Length_closing_cons]
      omega

theorem IsPair.opening_eq (h : t.IsPair p q) (h' : t.IsPair p' q) : p = p' := by
  rcases Nat.lt_trichotomy p p' with hlt | heq | hlt
  · exact absurd (h.lt_of_lt h' hlt h'.lt) (Nat.lt_irrefl q)
  · exact heq
  · exact absurd (h'.lt_of_lt h hlt h.lt) (Nat.lt_irrefl q)

theorem exists_isPair_opening_iff :
    (∃ q, IsPair (u ++ '(' :: v) u.utf8Length q) ↔
      ∃ inner rest : Text, v = inner ++ ')' :: rest ∧ inner.Closes 0 := by
  constructor
  · rintro ⟨q, h⟩
    obtain ⟨before, inner, after, heq, hbefore, -, hinner⟩ := isPair_iff.mp h
    obtain ⟨-, hrest⟩ := eq_and_eq_of_utf8Length_eq heq hbefore.symm
    exact ⟨inner, after, (List.cons.inj hrest).2, hinner⟩
  · rintro ⟨inner, rest, rfl, hinner⟩
    exact ⟨_, isPair_iff.mpr ⟨u, inner, rest, rfl, rfl, rfl, hinner⟩⟩

theorem exists_isPair_closing_iff :
    (∃ p, IsPair (u ++ ')' :: v) p u.utf8Length) ↔ u.LeavesOpen := by
  constructor
  · rintro ⟨p, h⟩
    obtain ⟨before, inner, after, heq, rfl, hq, hinner⟩ := isPair_iff.mp h
    obtain ⟨rfl, -⟩ : u = before ++ '(' :: inner ∧ ')' :: v = ')' :: after :=
      eq_and_eq_of_utf8Length_eq (by simpa using heq) (by simp; omega)
    exact ⟨before, inner, rfl, hinner⟩
  · rintro ⟨before, inner, rfl, hinner⟩
    exact ⟨_, isPair_iff.mpr ⟨before, inner, v, by simp, rfl, by simp; omega, hinner⟩⟩

theorem balanced_iff_isPair :
    t.balanced = true ↔
      (∀ p, t.HasAt p '(' → ∃ q, t.IsPair p q) ∧ ∀ q, t.HasAt q ')' → ∃ p, t.IsPair p q := by
  rw [balanced_iff, closes_zero_iff]
  constructor
  · rintro ⟨hopened, hclosed⟩
    constructor
    · rintro p ⟨u, v, rfl, rfl⟩
      exact exists_isPair_opening_iff.mpr (hopened u v rfl)
    · rintro q ⟨u, v, rfl, rfl⟩
      exact exists_isPair_closing_iff.mpr (hclosed u v rfl)
  · rintro ⟨hopened, hclosed⟩
    constructor
    · rintro u v rfl
      exact exists_isPair_opening_iff.mp (hopened u.utf8Length ⟨u, v, rfl, rfl⟩)
    · rintro u v rfl
      exact exists_isPair_closing_iff.mp (hclosed u.utf8Length ⟨u, v, rfl, rfl⟩)

/-- Every opening bracket has a partner, and every closing bracket is the partner of exactly one. -/
structure IsPaired (t : Text) : Prop where
  opening (p : Nat) (h : t.HasAt p '(') : ∃ q, t.partner? p = some q
  closing (q : Nat) (h : t.HasAt q ')') : ∃! p, t.HasAt p '(' ∧ t.partner? p = some q

theorem isPaired_iff :
    t.IsPaired ↔
      (∀ p, t.HasAt p '(' → ∃ q, t.IsPair p q) ∧ ∀ q, t.HasAt q ')' → ∃ p, t.IsPair p q := by
  constructor
  · intro h
    constructor
    · intro p hp
      obtain ⟨q, hq⟩ := h.opening p hp
      exact ⟨q, partner?_eq_some_iff.mp hq⟩
    · intro q hq
      obtain ⟨p, ⟨-, hp⟩, -⟩ := h.closing q hq
      exact ⟨p, partner?_eq_some_iff.mp hp⟩
  · rintro ⟨hopened, hclosed⟩
    constructor
    · intro p hp
      obtain ⟨q, hpair⟩ := hopened p hp
      exact ⟨q, partner?_eq_some_iff.mpr hpair⟩
    · intro q hq
      obtain ⟨p, hpair⟩ := hclosed q hq
      refine ⟨p, ⟨hpair.opening, partner?_eq_some_iff.mpr hpair⟩, ?_⟩
      rintro p' ⟨-, hp'⟩
      exact (partner?_eq_some_iff.mp hp').opening_eq hpair

end Pairs

/-- **Balance and partners agree.** A text is balanced when its brackets are paired, and partners
are the brackets with a balanced text between them, so that pairs are disjoint and do not cross. -/
theorem balanced_iff_isPaired_and_partner_iff_isPair (t : Text) :
    (t.balanced = true ↔ t.IsPaired) ∧
      (∀ p q, t.partner? p = some q ↔ t.IsPair p q) ∧
      (∀ p p' q, t.partner? p = some q → t.partner? p' = some q → p = p') ∧
      (∀ p p' q q', t.partner? p = some q → t.partner? p' = some q' →
        p < p' → p' < q → q' < q) ∧
      ∀ p, (∀ q, ¬t.IsPair p q) → t.partner? p = none := by
  refine ⟨balanced_iff_isPair.trans isPaired_iff.symm, fun p q => partner?_eq_some_iff, ?_, ?_, ?_⟩
  · intro p p' q h h'
    exact (partner?_eq_some_iff.mp h).opening_eq (partner?_eq_some_iff.mp h')
  · intro p p' q q' h h'
    exact (partner?_eq_some_iff.mp h).lt_of_lt (partner?_eq_some_iff.mp h')
  · intro p h
    rw [Option.eq_none_iff_forall_ne_some]
    intro q hq
    exact h q (partner?_eq_some_iff.mp hq)

-- The first letter takes two bytes, and no place lies inside it.
example : partner? "é((x)-3)".toList 2 = some 8 ∧ partner? "é((x)-3)".toList 1 = none := by decide

/-! ### Groups -/

/-- **A group is a balanced text in brackets.** -/
theorem groupInterior_eq_some_iff (t u : Text) :
    t.groupInterior? = some u ↔ t = '(' :: (u ++ [')']) ∧ u.balanced = true := by
  rw [balanced_iff]
  constructor
  · exact fun h => ⟨eq_of_groupInterior? h, closes_of_groupInterior? h⟩
  · rintro ⟨rfl, hu⟩
    exact hu.groupInterior?_group

end Univariate.Text
