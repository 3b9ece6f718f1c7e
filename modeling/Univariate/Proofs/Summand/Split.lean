import Univariate.Summand
import Univariate.Proofs.Text.Blank
import Univariate.Proofs.Text.Brackets

/-!
# Where a sum is cut

The pieces of a sum are found one at a time: a text that is not cut inside, followed by nothing or
by a sign that is cut off, is the first piece, and the pieces of what follows are the others.
-/

namespace Univariate.Summand

def depthThrough (depth : Int) (t : Text) : Int := t.foldl depthAfter depth

def startsSigned : Text → Bool
  | [] => false
  | c :: _ => isSign c

/-- No cut lies before a character of the text. -/
def Uncut (depth : Int) (previous : Char) : Text → Prop
  | [] => True
  | c :: rest => cuts depth previous c = false ∧ Uncut (depthAfter depth c) c rest

def IsPiece : Text → Prop
  | [] => False
  | c :: rest => Uncut (depthAfter 0 c) c rest

/-- A sign that comes next is cut off. -/
structure IsCutAfter (t : Text) : Prop where
  depth : depthThrough 0 t = 0
  last : t.getLast? ≠ some '^'

@[simp]
theorem depthThrough_cons (depth : Int) (c : Char) (t : Text) :
    depthThrough depth (c :: t) = depthThrough (depthAfter depth c) t := rfl

theorem depthAfter_open (n : Nat) (depth : Int) :
    depthAfter (n + depth) '(' = (n + 1 : Nat) + depth := by
  change n + depth + 1 = _
  omega

theorem depthAfter_close (n : Nat) (depth : Int) :
    depthAfter ((n + 1 : Nat) + depth) ')' = n + depth := by
  change ((n + 1 : Nat) : Int) + depth - 1 = _
  omega

theorem depthAfter_of_isSign {c : Char} (h : isSign c = true) (depth : Int) :
    depthAfter depth c = depth := by
  have hc : c = '+' ∨ c = '-' := by simpa [isSign] using h
  rcases hc with rfl | rfl <;> rfl

theorem depthAfter_of_ne {c : Char} (hopen : c ≠ '(') (hclose : c ≠ ')') (depth : Int) :
    depthAfter depth c = depth := by
  simp [depthAfter, hopen, hclose]

theorem cuts_iff {depth : Int} {previous c : Char} :
    cuts depth previous c = true ↔ isSign c = true ∧ depth = 0 ∧ previous ≠ '^' := by
  simp [cuts, and_assoc]

theorem cuts_of_not_isSign {c : Char} (h : isSign c = false) (depth : Int) (previous : Char) :
    cuts depth previous c = false := by
  simp [cuts, h]

theorem uncut_append {depth : Int} {previous : Char} {u v : Text} :
    Uncut depth previous (u ++ v) ↔
      Uncut depth previous u ∧ Uncut (depthThrough depth u) (u.getLastD previous) v := by
  induction u generalizing depth previous with
  | nil => simp [Uncut, depthThrough]
  | cons c u ih => simp only [List.cons_append, Uncut, ih, depthThrough_cons, List.getLastD_cons,
      and_assoc]

theorem depthThrough_of_closes {n : Nat} {t : Text} (h : Text.Closes n t) (depth : Int) :
    depthThrough (n + depth) t = depth := by
  induction h with
  | nil => simp [depthThrough]
  | @opening n t _ ih =>
      rw [depthThrough_cons, depthAfter_open, ih]
  | @closing n t _ ih =>
      rw [depthThrough_cons, depthAfter_close, ih]
  | other hopen hclose _ ih =>
      rw [depthThrough_cons, depthAfter_of_ne hopen hclose, ih]

theorem uncut_of_closes {n : Nat} {t : Text} (h : Text.Closes n t) {depth : Int}
    (hdepth : 0 < depth) (previous : Char) : Uncut (n + depth) previous t := by
  have hcuts : ∀ (m : Nat) (a b : Char), cuts (m + depth) a b = false := by
    intro m a b
    have hne : (m : Int) + depth ≠ 0 := by omega
    simp [cuts, hne]
  induction h generalizing previous with
  | nil => trivial
  | @opening n t _ ih =>
      exact ⟨hcuts n _ _, depthAfter_open n depth ▸ ih _⟩
  | @closing n t _ ih =>
      exact ⟨hcuts (n + 1) _ _, depthAfter_close n depth ▸ ih _⟩
  | @other n c t hopen hclose _ ih =>
      refine ⟨hcuts n _ _, ?_⟩
      rw [depthAfter_of_ne hopen hclose]
      exact ih c

theorem uncut_group {t : Text} (h : Text.Closes 0 t) (previous : Char) :
    Uncut 0 previous ('(' :: (t ++ [')'])) := by
  refine ⟨cuts_of_not_isSign (by decide) _ _, uncut_append.mpr ⟨?_, ?_⟩⟩
  · exact uncut_of_closes h (by decide : (0 : Int) < 1) _
  · exact ⟨cuts_of_not_isSign (by decide) _ _, trivial⟩

theorem splitAfter_of_cuts {depth : Int} {previous c : Char} (h : cuts depth previous c = true)
    (rest : Text) : splitAfter depth previous (c :: rest) = [] :: split (c :: rest) := by
  obtain ⟨-, rfl, -⟩ := cuts_iff.mp h
  simp [splitAfter, h, split]

/-- The piece that is open ends where the uncut text does. -/
theorem splitAfter_append {depth : Int} {previous : Char} {u v : Text}
    (hu : Uncut depth previous u)
    (hv : v = [] ∨ startsSigned v = true ∧ depthThrough depth u = 0 ∧ u.getLastD previous ≠ '^') :
    splitAfter depth previous (u ++ v) = u :: split v := by
  induction u generalizing depth previous with
  | nil =>
      cases v with
      | nil => rfl
      | cons c v =>
          obtain ⟨hsign, hdepth, hprevious⟩ := hv.resolve_left (by simp)
          exact splitAfter_of_cuts (cuts_iff.mpr ⟨hsign, hdepth, hprevious⟩) v
  | cons c u ih =>
      obtain ⟨hc, hu⟩ := hu
      rw [List.getLastD_cons] at hv
      rw [List.cons_append, splitAfter, hc, ih hu hv]
      rfl

/-- Every text goes on uncut up to its end or to a sign that is cut off. -/
theorem exists_uncut_append (depth : Int) (previous : Char) (t : Text) :
    ∃ u v, t = u ++ v ∧ Uncut depth previous u ∧
      (v = [] ∨ startsSigned v = true ∧ depthThrough depth u = 0 ∧ u.getLastD previous ≠ '^') := by
  induction t generalizing depth previous with
  | nil => exact ⟨[], [], rfl, trivial, Or.inl rfl⟩
  | cons c t ih =>
      by_cases hc : cuts depth previous c = true
      · exact ⟨[], c :: t, rfl, trivial, Or.inr (cuts_iff.mp hc)⟩
      · obtain ⟨u, v, rfl, hu, hv⟩ := ih (depthAfter depth c) c
        exact ⟨c :: u, v, rfl, ⟨by simpa using hc, hu⟩, by rwa [List.getLastD_cons]⟩

theorem split_append {u v : Text} (hu : IsPiece u)
    (hv : v = [] ∨ startsSigned v = true ∧ IsCutAfter u) : split (u ++ v) = u :: split v := by
  cases u with
  | nil => exact hu.elim
  | cons c u =>
      have hv' : v = [] ∨ startsSigned v = true ∧ depthThrough (depthAfter 0 c) u = 0 ∧
          u.getLastD c ≠ '^' := by
        refine hv.imp id fun ⟨hsign, hcut⟩ => ⟨hsign, hcut.depth, fun hlast => hcut.last ?_⟩
        rw [List.getLast?_cons, ← List.getLastD_eq_getLast?, hlast]
      rw [List.cons_append, split, splitAfter_append hu hv']
      rfl

theorem exists_piece_append {t : Text} (h : t ≠ []) :
    ∃ u v, t = u ++ v ∧ IsPiece u ∧ (v = [] ∨ startsSigned v = true ∧ IsCutAfter u) := by
  cases t with
  | nil => exact absurd rfl h
  | cons c t =>
      obtain ⟨u, v, rfl, hu, hv⟩ := exists_uncut_append (depthAfter 0 c) c t
      refine ⟨c :: u, v, rfl, hu, hv.imp id fun ⟨hsign, hdepth, hlast⟩ => ⟨hsign, hdepth, ?_⟩⟩
      rw [List.getLast?_cons, ← List.getLastD_eq_getLast?]
      exact fun heq => hlast (Option.some.inj heq)

end Univariate.Summand
