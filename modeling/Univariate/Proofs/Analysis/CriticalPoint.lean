import Univariate.CriticalPoint
import Univariate.Proofs.Scalar.Binary64.Distance

/-!
# The second-derivative test

Which points are reported, and what the second derivative is at a point of each kind. All that is
neither flat nor a minimum is called a maximum, which is right as long as zero is flat.
-/

namespace Univariate.CriticalPoint.Classifier

open Scalar (LawfulOrder LawfulZero)

variable {α : Type} [Scalar α] (s : Classifier α) (f second : α → α) (xs : List α)

/-- The value is finite and not above the guard. -/
def Keeps (x : α) : Prop :=
  Scalar.isFinite (f x) = true ∧ ¬s.magnitudeGuard < Scalar.abs (f x)

instance (x : α) : Decidable (s.Keeps f x) := inferInstanceAs (Decidable (_ ∧ _))

/-- The points that are kept, in their order, with the values of the function. A minimum has a
positive second derivative, and the test is inconclusive where there is no finite one. -/
structure Reports (points : List (CriticalPoint α)) : Prop where
  location : points.map (·.location) = xs.filter (s.Keeps f ·)
  value : ∀ p ∈ points, p.value = f p.location
  minimum : ∀ p ∈ points, p.kind = .minimum → 0 < second p.location
  inconclusive : ∀ p ∈ points,
    p.kind = .inconclusive ↔ Scalar.isFinite (second p.location) = false

/-- Besides, a maximum has a negative second derivative. -/
structure IsSound (points : List (CriticalPoint α)) : Prop extends
    s.Reports f second xs points where
  maximum : ∀ p ∈ points, p.kind = .maximum → second p.location < 0

/-! ### Kinds -/

section Kind

variable {s} {c : α}

theorem kind_eq_inconclusive_iff : s.kind c = .inconclusive ↔ Scalar.isFinite c = false := by
  unfold kind
  cases Scalar.isFinite c with
  | false => simp
  | true =>
      rw [if_neg (by simp)]
      split
      · simp
      · split <;> simp

theorem lt_of_kind_eq_minimum (h : s.kind c = .minimum) : 0 < c := by
  unfold kind at h
  split at h
  · cases h
  · split at h
    · cases h
    · split at h
      · assumption
      · cases h

theorem kind_eq_maximum_iff :
    s.kind c = .maximum ↔
      Scalar.isFinite c = true ∧ ¬Scalar.abs c < s.flatThreshold ∧ ¬0 < c := by
  unfold kind
  cases Scalar.isFinite c with
  | false => simp
  | true =>
      rw [if_neg (by simp)]
      split
      · next hflat => simp [hflat]
      · next hsteep => split <;> simp_all

variable [LawfulOrder α] [LawfulZero α]

theorem isNaN_zero : Scalar.isNaN (0 : α) = false :=
  LawfulOrder.isNaN_of_isFinite LawfulZero.isFinite_zero

/-- What equals zero is flat for a positive threshold only. -/
theorem abs_lt_iff_of_beq_zero (h : (c == 0) = true) {t : α} : Scalar.abs c < t ↔ 0 < t := by
  obtain ⟨hle, hge⟩ := LawfulOrder.beq_iff_le_and_ge.mp (LawfulZero.abs_beq_zero h)
  exact ⟨Scalar.lt_of_le_of_lt hge, Scalar.lt_of_le_of_lt hle⟩

theorem kind_eq_maximum_iff_of_beq_zero (h : (c == 0) = true) :
    s.kind c = .maximum ↔ ¬0 < s.flatThreshold := by
  obtain ⟨hle, hge⟩ := LawfulOrder.beq_iff_le_and_ge.mp h
  have hfinite : Scalar.isFinite c = true := LawfulOrder.isFinite_of_le_of_le
    LawfulZero.isFinite_zero LawfulZero.isFinite_zero hge hle
  rw [kind_eq_maximum_iff, abs_lt_iff_of_beq_zero h]
  exact ⟨fun h => h.2.1, fun h => ⟨hfinite, h, Scalar.not_lt_of_le hle⟩⟩

theorem lt_zero_or_beq_zero_of_kind_eq_maximum (h : s.kind c = .maximum) :
    c < 0 ∨ (c == 0) = true := by
  obtain ⟨hfinite, -, hnot⟩ := kind_eq_maximum_iff.mp h
  have hle : c ≤ 0 :=
    Scalar.le_of_not_lt (LawfulOrder.isNaN_of_isFinite hfinite) isNaN_zero hnot
  by_cases hge : 0 ≤ c
  · exact .inr (LawfulOrder.beq_iff_le_and_ge.mpr ⟨hle, hge⟩)
  · exact .inl (LawfulOrder.lt_iff_le_not_ge.mpr ⟨hle, hge⟩)

end Kind

/-! ### Points -/

theorem point?_eq (x : α) :
    s.point? f second x =
      if s.Keeps f x then some { location := x, kind := s.kind (second x), value := f x }
      else none := by
  by_cases hfinite : Scalar.isFinite (f x) = true
  · by_cases hlarge : s.magnitudeGuard < Scalar.abs (f x) <;>
      simp [point?, Keeps, hfinite, hlarge]
  · simp [point?, Keeps, hfinite]

theorem points_eq_map_filter :
    s.points f second xs = (xs.filter (s.Keeps f ·)).map fun x =>
      { location := x, kind := s.kind (second x), value := f x } := by
  unfold points
  induction xs with
  | nil => rfl
  | cons x xs ih =>
      rw [List.filterMap_cons, point?_eq, ih]
      by_cases hx : s.Keeps f x <;> simp [hx]

variable {s f second xs}

theorem eq_of_mem_points {p : CriticalPoint α} (h : p ∈ s.points f second xs) :
    p.kind = s.kind (second p.location) ∧ p.value = f p.location := by
  rw [points_eq_map_filter] at h
  obtain ⟨x, -, rfl⟩ := List.mem_map.mp h
  exact ⟨rfl, rfl⟩

theorem reports_points : s.Reports f second xs (s.points f second xs) where
  location := by
    rw [points_eq_map_filter, List.map_map]
    exact List.map_id' _
  value p hp := (eq_of_mem_points hp).2
  minimum p hp hkind := lt_of_kind_eq_minimum ((eq_of_mem_points hp).1.symm.trans hkind)
  inconclusive p hp := by
    rw [(eq_of_mem_points hp).1]
    exact kind_eq_inconclusive_iff

variable [LawfulOrder α] [LawfulZero α]

variable (s f second xs) in
/-- **The second-derivative test.** Whatever the thresholds, the points are those that are kept, and
minima and inconclusive points are called so rightly. Maxima are if the flat threshold is positive;
otherwise a point where the second derivative is zero is called a maximum. -/
theorem reports_points_and_isSound_iff :
    s.Reports f second xs (s.points f second xs) ∧
      (s.IsSound f second xs (s.points f second xs) ↔
        0 < s.flatThreshold ∨ ∀ p ∈ s.points f second xs, (second p.location == 0) = false) := by
  refine ⟨reports_points, fun h => ?_, fun h => ⟨reports_points, fun p hp hkind => ?_⟩⟩
  · by_contra hnot
    obtain ⟨hthreshold, hzero⟩ := not_or.mp hnot
    apply hzero
    intro p hp
    by_contra hflat
    have hbeq : (second p.location == 0) = true := by simpa using hflat
    have hkind : p.kind = .maximum :=
      (eq_of_mem_points hp).1.trans ((kind_eq_maximum_iff_of_beq_zero hbeq).mpr hthreshold)
    have hle : 0 ≤ second p.location := (LawfulOrder.beq_iff_le_and_ge.mp hbeq).2
    exact Scalar.not_lt_of_le hle (h.maximum p hp hkind)
  · have hmaximum := (eq_of_mem_points hp).1.symm.trans hkind
    rcases lt_zero_or_beq_zero_of_kind_eq_maximum hmaximum with hlt | hbeq
    · exact hlt
    · rcases h with hthreshold | hcurved
      · exact absurd hthreshold ((kind_eq_maximum_iff_of_beq_zero hbeq).mp hmaximum)
      · rw [hcurved p hp] at hbeq
        cases hbeq

theorem reports_points_and_isSound_cubic :
    let s : Classifier Float := { magnitudeGuard := 10, flatThreshold := 0.5 }
    let f : Float → Float := fun x => x * x * x - 3 * x
    let second : Float → Float := fun x => 6 * x
    let points : List (CriticalPoint Float) :=
      [⟨-1, .maximum, 2⟩, ⟨0, .inflection, 0⟩, ⟨1, .minimum, -2⟩, ⟨-1, .maximum, 2⟩]
    0 < s.flatThreshold ∧ s.points f second [-1, 0, 1, 3, -1] = points ∧
      s.IsSound f second [-1, 0, 1, 3, -1] points := by
  intro s f second points
  have hthreshold : 0 < s.flatThreshold := by decide +kernel
  have hpoints : s.points f second [-1, 0, 1, 3, -1] = points := by decide +kernel
  obtain ⟨-, hsound⟩ := reports_points_and_isSound_iff s f second [-1, 0, 1, 3, -1]
  exact ⟨hthreshold, hpoints, hpoints ▸ hsound.mpr (.inl hthreshold)⟩

/-- With a threshold of zero the inflection of a cubic is called a maximum. -/
theorem not_isSound_of_flatThreshold_zero :
    let s : Classifier Float := { flatThreshold := 0 }
    let f : Float → Float := fun x => x * x * x
    let second : Float → Float := fun x => 6 * x
    s.points f second [0] = [⟨0, .maximum, 0⟩] ∧
      ¬s.IsSound f second [0] (s.points f second [0]) := by
  intro s f second
  have hpoints : s.points f second [0] = [⟨0, .maximum, 0⟩] := by decide +kernel
  refine ⟨hpoints, fun h => ?_⟩
  have hmaximum := h.maximum ⟨0, .maximum, 0⟩ (hpoints ▸ List.mem_singleton_self _) rfl
  revert hmaximum
  decide +kernel

end Univariate.CriticalPoint.Classifier
