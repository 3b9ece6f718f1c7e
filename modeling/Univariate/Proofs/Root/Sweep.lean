import Univariate.Proofs.Root.Pieces
import Univariate.Proofs.Root.Search
import Univariate.Proofs.Scalar.Exact
import Univariate.Proofs.Scalar.Order

/-!
# Sweeps

The roots of a range are gathered piece by piece: a piece contributes at most one candidate, a
candidate close to an earlier root is dropped, and the list is sorted at the end.
-/

namespace Univariate.Root

open Scalar Scalar.LawfulOrder Scalar.LawfulDistance

variable {α : Type} [Scalar α]

section Numbers

variable {s : Bisection α} {f : α → α} {a b lo hi : α} {r : Outcome α}

theorem Bracket.isNaN_half [LawfulDistance α] {b : Bracket α}
    (h : isNaN (b.lo + b.hi) = false) (value : α) :
    isNaN ((b.half value).lo + (b.half value).hi) = false := by
  obtain ⟨-, hlower, hupper⟩ := isNaN_add_midpoint h
  unfold half
  split
  · exact hlower
  · exact hupper

namespace Bisection

section Lawful

variable [LawfulOrder α]

theorem run_eq_runOrdered (hlo : isFinite lo = true) (hhi : isFinite hi = true) (hlt : lo < hi) :
    s.run f lo hi = s.runOrdered f lo hi := by
  have hne : (lo == hi) = false := by
    rw [← Bool.not_eq_true]
    exact fun heq => not_ge_of_lt hlt (beq_iff_le_and_ge.mp heq).2
  have hle : ¬hi < lo := not_lt_of_le (le_of_lt hlt)
  unfold run
  rw [hlo, hhi, hne, if_neg (by decide), if_neg hle]

/-- Samples of one sign end the search, however small they are. -/
theorem run_eq_noSignChange (hlo : isFinite lo = true) (hhi : isFinite hi = true) (hlt : lo < hi)
    (hfinite : isFinite (f lo) = true ∧ isFinite (f hi) = true) (hsign : 0 < f lo * f hi) :
    s.run f lo hi = .error .noSignChange := by
  rw [run_eq_runOrdered hlo hhi hlt]
  unfold runOrdered
  simp only [hfinite.1, hfinite.2]
  rw [if_neg (by decide), if_pos hsign]

/-- Otherwise a small sample is the root. -/
theorem exists_run_eq_ok_of_small (hlo : isFinite lo = true) (hhi : isFinite hi = true)
    (hlt : lo < hi) (hfinite : isFinite (f lo) = true ∧ isFinite (f hi) = true)
    (hsign : ¬0 < f lo * f hi)
    (hsmall : Scalar.abs (f lo) < s.tolerance ∨ Scalar.abs (f hi) < s.tolerance) :
    ∃ outcome, s.run f lo hi = .ok outcome ∧ (outcome.root = lo ∨ outcome.root = hi) ∧
      Scalar.abs (f outcome.root) < s.tolerance := by
  rw [run_eq_runOrdered hlo hhi hlt]
  unfold runOrdered
  simp only [hfinite.1, hfinite.2]
  rw [if_neg (by decide), if_neg hsign]
  by_cases hsmallLo : Scalar.abs (f lo) < s.tolerance
  · rw [if_pos hsmallLo]
    exact ⟨_, rfl, .inl rfl, hsmallLo⟩
  · have hsmallHi := hsmall.resolve_left hsmallLo
    rw [if_neg hsmallLo, if_pos hsmallHi]
    exact ⟨_, rfl, .inr rfl, hsmallHi⟩

variable [LawfulDistance α]

omit [LawfulOrder α] in
theorem isNaN_refine {done remaining : Nat} {b : Bracket α} (h : isNaN (b.lo + b.hi) = false)
    (hr : s.refine f done b remaining = .ok r) : isNaN r.root = false := by
  induction remaining generalizing done b with
  | zero =>
      cases hr
      exact (isNaN_add_midpoint h).1
  | succ remaining ih =>
      rcases refine_succ_eq_ok hr with ⟨-, rfl⟩ | ⟨-, -, -, rfl⟩ | ⟨-, -, hrest⟩
      · exact (isNaN_add_midpoint h).1
      · exact (isNaN_add_midpoint h).1
      · exact ih (Bracket.isNaN_half h _) hrest

theorem isNaN_runOrdered (ha : isFinite a = true) (hb : isFinite b = true)
    (hr : s.runOrdered f a b = .ok r) : isNaN r.root = false := by
  obtain ⟨-, -, -, ⟨-, rfl⟩ | ⟨-, rfl⟩ | ⟨-, hrest⟩⟩ := runOrdered_eq_ok hr
  · exact isNaN_of_isFinite ha
  · exact isNaN_of_isFinite hb
  · exact isNaN_refine (isNaN_add ha hb) hrest

/-- A root is a number, even when the middle of the interval overflows. -/
theorem isNaN_run (hr : s.run f a b = .ok r) : isNaN r.root = false := by
  obtain ⟨ha, hb, -, ⟨-, hrest⟩ | ⟨-, hrest⟩⟩ := run_eq_ok hr
  · exact isNaN_runOrdered hb ha hrest
  · exact isNaN_runOrdered ha hb hrest

end Lawful

end Bisection

end Numbers

namespace Sweep

variable {s : Sweep α} {f : α → α} {start stop c d root : α} {piece : α × α} {roots found : List α}

/-! ### Duplicates -/

theorem isDuplicate_eq_true_iff :
    isDuplicate d roots root = true ↔ ∃ r ∈ roots, Scalar.abs (r - root) < d := by
  simp [isDuplicate]

theorem subset_insert : roots ⊆ insert d roots root := by
  unfold insert
  split
  · exact List.Subset.refl roots
  · exact List.subset_cons_self root roots

theorem mem_insert {r : α} (h : r ∈ insert d roots root) : r = root ∨ r ∈ roots := by
  unfold insert at h
  split at h
  · exact .inr h
  · exact List.mem_cons.mp h

/-- A root that is dropped has one nearby. -/
theorem exists_near_insert : ∃ r ∈ insert d roots root, r = root ∨ Scalar.abs (r - root) < d := by
  unfold insert
  split
  · next hduplicate =>
      obtain ⟨r, hr, hnear⟩ := isDuplicate_eq_true_iff.mp hduplicate
      exact ⟨r, hr, .inr hnear⟩
  · exact ⟨root, List.mem_cons_self, .inl rfl⟩

/-- No two roots at different places of the list are duplicates. -/
def Apart (d : α) (roots : List α) : Prop := roots.Pairwise fun x y => ¬Scalar.abs (x - y) < d

theorem Apart.insert [LawfulDistance α] (h : Apart d roots) : Apart d (insert d roots root) := by
  unfold Sweep.insert
  split
  · exact h
  · next hduplicate =>
      refine List.pairwise_cons.mpr ⟨?_, h⟩
      intro r hr hnear
      rw [LawfulDistance.abs_sub_comm] at hnear
      exact hduplicate (isDuplicate_eq_true_iff.mpr ⟨r, hr, hnear⟩)

theorem Apart.foldl_insert [LawfulDistance α] (h : Apart d roots) :
    Apart d (found.foldl (Sweep.insert d) roots) := by
  induction found generalizing roots with
  | nil => exact h
  | cons root found ih => exact ih h.insert

theorem subset_foldl_insert : roots ⊆ found.foldl (insert d) roots := by
  induction found generalizing roots with
  | nil => exact List.Subset.refl roots
  | cons root found ih => exact List.Subset.trans subset_insert ih

theorem mem_foldl_insert {r : α} (h : r ∈ found.foldl (insert d) roots) : r ∈ found ∨ r ∈ roots := by
  induction found generalizing roots with
  | nil => exact .inr h
  | cons root found ih =>
      rcases ih h with hfound | hinsert
      · exact .inl (List.mem_cons_of_mem root hfound)
      · rcases mem_insert hinsert with rfl | hroots
        · exact .inl List.mem_cons_self
        · exact .inr hroots

/-- Every candidate is kept or has a root nearby that is. -/
theorem exists_near_foldl_insert (h : root ∈ found) :
    ∃ r ∈ found.foldl (insert d) roots, r = root ∨ Scalar.abs (r - root) < d := by
  induction found generalizing roots with
  | nil => cases h
  | cons first found ih =>
      rw [List.foldl_cons]
      rcases List.mem_cons.mp h with rfl | hrest
      · obtain ⟨r, hr, hnear⟩ : ∃ r ∈ insert d roots root, r = root ∨ Scalar.abs (r - root) < d :=
          exists_near_insert
        exact ⟨r, subset_foldl_insert hr, hnear⟩
      · exact ih hrest

/-- Equal candidates are one root. -/
theorem foldl_insert_eq_singleton (hne : found ≠ []) (hall : ∀ r ∈ found, r = root)
    (hself : Scalar.abs (root - root) < d) : found.foldl (insert d) [] = [root] := by
  have hkeep : ∀ n, (List.replicate n root).foldl (insert d) [root] = [root] := by
    intro n
    induction n with
    | zero => rfl
    | succ n ih =>
        have hduplicate : isDuplicate d [root] root = true :=
          isDuplicate_eq_true_iff.mpr ⟨root, List.mem_singleton_self root, hself⟩
        rw [List.replicate_succ, List.foldl_cons, insert, if_pos hduplicate, ih]
  obtain ⟨r, rest, rfl⟩ := List.exists_cons_of_ne_nil hne
  obtain rfl := hall r List.mem_cons_self
  rw [List.eq_replicate_of_mem fun x hx => hall x (List.mem_cons_of_mem r hx)]
  exact hkeep _

/-! ### Candidates -/

/-- At these ends, which are kept off zero, a piece has samples to search from. -/
structure Sampled (s : Sweep α) (f : α → α) (piece : α × α) (lo hi : α) : Prop where
  lower : s.guardEnd? piece.1 = some lo
  upper : s.guardEnd? piece.2 = some hi
  finite : isFinite (f lo) = true ∧ isFinite (f hi) = true
  tame : Scalar.abs (f lo) ≤ s.magnitudeGuard ∧ Scalar.abs (f hi) ≤ s.magnitudeGuard

/-- A sample is close to zero, or the samples are not of one sign. -/
structure Searched (s : Sweep α) (f : α → α) (piece : α × α) (lo hi : α) : Prop
    extends Sampled s f piece lo hi where
  promising : ¬(0 < f lo * f hi ∧ s.tolerance ≤ Scalar.abs (f lo) ∧ s.tolerance ≤ Scalar.abs (f hi))

/-- A root of the range, as far as values can tell. -/
structure Accepted (s : Sweep α) (f : α → α) (start stop root : α) : Prop where
  lower : start ≤ root
  upper : root ≤ stop
  finite : isFinite (f root) = true
  small : Scalar.abs (f root) < s.acceptance

theorem candidate?_eq_some_iff :
    s.candidate? f start stop piece = some c ↔
      ∃ lo hi outcome, s.guardEnd? piece.1 = some lo ∧ s.guardEnd? piece.2 = some hi ∧
        s.isTame (f lo) = true ∧ s.isTame (f hi) = true ∧ s.excludesRoot (f lo) (f hi) = false ∧
        s.bisection.run f lo hi = .ok outcome ∧ s.accepts f start stop outcome.root = true ∧
        outcome.root = c := by
  unfold candidate?
  constructor
  · intro h
    split at h
    · next lo hi hlower hupper =>
        dsimp only at h
        split at h
        · cases h
        · next hsamples =>
            simp only [Bool.or_eq_true, Bool.not_eq_true', not_or, Bool.not_eq_false,
              Bool.not_eq_true] at hsamples
            obtain ⟨⟨hlo, hhi⟩, hpromising⟩ := hsamples
            split at h
            · next outcome hrun =>
                split at h
                · next haccepts =>
                    exact ⟨lo, hi, outcome, hlower, hupper, hlo, hhi, hpromising, hrun, haccepts,
                      Option.some.inj h⟩
                · cases h
            · cases h
    · cases h
  · rintro ⟨lo, hi, outcome, hlower, hupper, hlo, hhi, hpromising, hrun, haccepts, rfl⟩
    simp [hlower, hupper, hlo, hhi, hpromising, hrun, haccepts]

theorem isTame_eq_true [LawfulOrder α] {sample : α} (hfinite : isFinite sample = true)
    (h : Scalar.abs sample ≤ s.magnitudeGuard) : s.isTame sample = true := by
  have hguard : ¬s.magnitudeGuard < Scalar.abs sample := not_lt_of_le h
  simp [isTame, hfinite, hguard]

theorem excludesRoot_eq_false {atLo atHi : α}
    (h : ¬(0 < atLo * atHi ∧ s.tolerance ≤ Scalar.abs atLo ∧ s.tolerance ≤ Scalar.abs atHi)) :
    s.excludesRoot atLo atHi = false := by
  rw [← Bool.not_eq_true]
  intro hexcludes
  apply h
  simpa [excludesRoot, and_assoc] using hexcludes

theorem accepts_eq_true_iff :
    s.accepts f start stop root = true ↔
      ¬root < start ∧ ¬stop < root ∧ isFinite (f root) = true ∧
        ¬s.acceptance ≤ Scalar.abs (f root) := by
  simp [accepts, and_assoc]

namespace Accepted

theorem accepts [LawfulOrder α] (h : Accepted s f start stop root) :
    s.accepts f start stop root = true :=
  accepts_eq_true_iff.mpr
    ⟨not_lt_of_le h.lower, not_lt_of_le h.upper, h.finite, not_ge_of_lt h.small⟩

theorem of_accepts [LawfulOrder α] (hstart : isFinite start = true) (hstop : isFinite stop = true)
    (hroot : isNaN root = false) (hacceptance : isNaN s.acceptance = false)
    (h : s.accepts f start stop root = true) : Accepted s f start stop root := by
  obtain ⟨hlower, hupper, hfinite, hsmall⟩ := accepts_eq_true_iff.mp h
  have hvalue : isNaN (Scalar.abs (f root)) = false := by
    rw [isNaN_abs]
    exact isNaN_of_isFinite hfinite
  exact
    { lower := le_of_not_lt (isNaN_of_isFinite hstart) hroot hlower
      upper := le_of_not_lt hroot (isNaN_of_isFinite hstop) hupper
      finite := hfinite
      small := lt_of_not_ge hvalue hacceptance hsmall }

end Accepted

theorem Searched.candidate?_eq [LawfulOrder α] {lo hi : α} {outcome : Outcome α}
    (h : Searched s f piece lo hi) (hrun : s.bisection.run f lo hi = .ok outcome)
    (haccepted : Accepted s f start stop outcome.root) :
    s.candidate? f start stop piece = some outcome.root :=
  candidate?_eq_some_iff.mpr ⟨lo, hi, outcome, h.lower, h.upper, isTame_eq_true h.finite.1 h.tame.1,
    isTame_eq_true h.finite.2 h.tame.2, excludesRoot_eq_false h.promising, hrun,
    haccepted.accepts, rfl⟩

/-! ### The whole range -/

theorem isFinite_of_fault?_eq_none (h : s.fault? start stop = none) :
    isFinite start = true ∧ isFinite stop = true :=
  (fault?_eq_none_iff.mp h).finite

theorem run_eq_ok_iff :
    s.run f start stop = .ok roots ↔ s.fault? start stop = none ∧
      roots = (((s.pieces start stop).filterMap (s.candidate? f start stop)).foldl
        (insert s.duplicateDistance) []).mergeSort sortsBefore := by
  unfold run
  split
  · next error herror => simp [herror]
  · next hfault => simp [hfault, eq_comm]

/-- A candidate is a root, or close to one. -/
theorem exists_root_near_candidate (hrun : s.run f start stop = .ok roots)
    (hpiece : piece ∈ s.pieces start stop) (hcandidate : s.candidate? f start stop piece = some c) :
    ∃ r ∈ roots, r = c ∨ Scalar.abs (r - c) < s.duplicateDistance := by
  obtain ⟨-, rfl⟩ := run_eq_ok_iff.mp hrun
  obtain ⟨r, hr, hnear⟩ :=
    exists_near_foldl_insert (List.mem_filterMap.mpr ⟨piece, hpiece, hcandidate⟩)
  exact ⟨r, List.mem_mergeSort.mpr hr, hnear⟩

section Lawful

variable [LawfulOrder α]

theorem pairwise_mergeSort (roots : List α) (hroots : ∀ r ∈ roots, isNaN r = false) :
    (roots.mergeSort sortsBefore).Pairwise (· ≤ ·) := by
  have hsorted := List.pairwise_mergeSort
    (fun x y z hxy hyz => sortsBefore_trans (x := x) (y := y) (z := z) hxy hyz)
    (fun x y => by simpa using sortsBefore_total x y) roots
  refine hsorted.imp_of_mem ?_
  intro x y hx hy hxy
  exact le_of_sortsBefore (hroots x (List.mem_mergeSort.mp hx)) (hroots y (List.mem_mergeSort.mp hy))
    hxy

/-- What the roots of a range are. -/
structure Finds (s : Sweep α) (f : α → α) (start stop : α) (roots : List α) : Prop where
  ascending : roots.Pairwise (· ≤ ·)
  accepted : ∀ r ∈ roots, Accepted s f start stop r
  apart : ∀ i j (hi : i < roots.length) (hj : j < roots.length), i ≠ j →
    ¬Scalar.abs (roots[i] - roots[j]) < s.duplicateDistance
  complete : ∀ piece ∈ s.pieces start stop, ∀ lo hi outcome, Searched s f piece lo hi →
    s.bisection.run f lo hi = .ok outcome → Accepted s f start stop outcome.root →
    ∃ r ∈ roots, r = outcome.root ∨ Scalar.abs (r - outcome.root) < s.duplicateDistance

variable [LawfulDistance α]

theorem candidate?_sound (hstart : isFinite start = true) (hstop : isFinite stop = true)
    (hacceptance : isNaN s.acceptance = false) (h : s.candidate? f start stop piece = some c) :
    Accepted s f start stop c := by
  obtain ⟨lo, hi, outcome, -, -, -, -, -, hrun, haccepts, rfl⟩ := candidate?_eq_some_iff.mp h
  exact .of_accepts hstart hstop (Bisection.isNaN_run hrun) hacceptance haccepts

/-- **A sweep finds the roots, and each of them once.** -/
theorem run_finds (s : Sweep α) (f : α → α) (start stop : α) (roots : List α)
    (hacceptance : isNaN s.acceptance = false) (hrun : s.run f start stop = .ok roots) :
    Finds s f start stop roots := by
  obtain ⟨hfault, rfl⟩ := run_eq_ok_iff.mp hrun
  obtain ⟨hstart, hstop⟩ := isFinite_of_fault?_eq_none hfault
  set found := (s.pieces start stop).filterMap (s.candidate? f start stop) with hfound
  set kept := found.foldl (insert s.duplicateDistance) [] with hkept
  have haccepted : ∀ r ∈ kept, Accepted s f start stop r := by
    intro r hr
    rcases mem_foldl_insert hr with hr | hr
    · obtain ⟨piece, -, hcandidate⟩ := List.mem_filterMap.mp hr
      exact candidate?_sound hstart hstop hacceptance hcandidate
    · cases hr
  have hapart : Apart s.duplicateDistance (kept.mergeSort sortsBefore) := by
    have hkept : Apart s.duplicateDistance kept := Apart.foldl_insert .nil
    refine (List.Perm.pairwise_iff ?_ (List.mergeSort_perm kept sortsBefore)).mpr hkept
    intro x y hxy
    rwa [LawfulDistance.abs_sub_comm]
  have hsorted := List.pairwise_iff_getElem.mp hapart
  constructor
  case ascending =>
    exact pairwise_mergeSort kept fun r hr => (isNaN_of_le (haccepted r hr).lower).2
  case accepted => exact fun r hr => haccepted r (List.mem_mergeSort.mp hr)
  case apart =>
    intro i j hi hj hij
    rcases Nat.lt_or_gt_of_ne hij with hlt | hgt
    · exact hsorted i j hi hj hlt
    · rw [LawfulDistance.abs_sub_comm]
      exact hsorted j i hj hi hgt
  case complete =>
    intro piece hpiece lo hi outcome hsearched houtcome hroot
    exact exists_root_near_candidate hrun hpiece (hsearched.candidate?_eq houtcome hroot)

/-- A root at an end of one piece. -/
theorem run_finds_one :
    let s : Sweep (Exact .rationalPart) := { granularity := .rational (1 / 2) }
    let f : Exact .rationalPart → Exact .rationalPart := fun x => x * x - 1
    let roots : List (Exact .rationalPart) := [.rational 1]
    isNaN s.acceptance = false ∧ s.run f (.rational (1 / 2)) (.rational 2) = .ok roots ∧
      Finds s f (.rational (1 / 2)) (.rational 2) roots := by
  intro s f roots
  have hrun : s.run f (.rational (1 / 2)) (.rational 2) = .ok roots := by decide +kernel
  exact ⟨rfl, hrun, run_finds s f _ _ roots rfl hrun⟩

/-- A bound that is no number lets every value pass. -/
theorem not_finds_of_isNaN_acceptance :
    let s : Sweep (Exact .rationalPart) :=
      { granularity := .rational (1 / 2), acceptance := .notFinite }
    let f : Exact .rationalPart → Exact .rationalPart := fun x => x * x - 1
    let roots : List (Exact .rationalPart) := [.rational 1]
    s.run f (.rational (1 / 2)) (.rational 2) = .ok roots ∧
      ¬Finds s f (.rational (1 / 2)) (.rational 2) roots := by
  intro s f roots
  have hrun : s.run f (.rational (1 / 2)) (.rational 2) = .ok roots := by decide +kernel
  refine ⟨hrun, fun hfinds => ?_⟩
  have hsmall := (hfinds.accepted (.rational 1) List.mem_cons_self).small
  exact Exact.not_lt_notFinite _ hsmall

/-! ### Samples close to zero -/

/-- What is a root or next to it, for a root between two ends. -/
theorem le_and_le_of_near {lo hi r : α} (hlo : isFinite lo = true) (hhi : isFinite hi = true)
    (hdistance : 0 ≤ d) (hlower : lo ≤ root) (hupper : root ≤ hi)
    (h : r = root ∨ Scalar.abs (r - root) < d) : lo - d ≤ r ∧ r ≤ hi + d := by
  have hroot : isFinite root = true := isFinite_of_le_of_le hlo hhi hlower hupper
  have hnan : isNaN d = false := (isNaN_of_le hdistance).2
  have hbelow : lo - d ≤ root - d := sub_le_sub hlo hroot hnan hlower
  have habove : root + d ≤ hi + d := LawfulDistance.add_le_add hroot hhi hnan hupper
  rcases h with rfl | hnear
  · exact ⟨LawfulOrder.le_trans hbelow (sub_le_of_nonneg hroot hdistance),
      LawfulOrder.le_trans (LawfulDistance.le_add_of_nonneg hroot hdistance) habove⟩
  · exact ⟨LawfulOrder.le_trans hbelow (sub_le_of_abs_sub_lt hnear),
      LawfulOrder.le_trans (le_add_of_abs_sub_lt hnear) habove⟩

section Ends

variable {lo hi : α} (hlo : isFinite lo = true) (hhi : isFinite hi = true)
include hlo hhi

omit [LawfulDistance α] in
theorem Sampled.exists_accepted (h : Sampled s f piece lo hi) (hlt : lo < hi) (hlower : start ≤ lo)
    (hupper : hi ≤ stop) (hacceptance : s.tolerance ≤ s.acceptance) (hsign : ¬0 < f lo * f hi)
    (hsmall : Scalar.abs (f lo) < s.tolerance ∨ Scalar.abs (f hi) < s.tolerance) :
    ∃ outcome, s.bisection.run f lo hi = .ok outcome ∧ lo ≤ outcome.root ∧ outcome.root ≤ hi ∧
      Accepted s f start stop outcome.root := by
  have hle : lo ≤ hi := le_of_lt hlt
  obtain ⟨outcome, houtcome, hroot, hvalue⟩ : ∃ outcome, s.bisection.run f lo hi = .ok outcome ∧
      (outcome.root = lo ∨ outcome.root = hi) ∧ Scalar.abs (f outcome.root) < s.tolerance :=
    Bisection.exists_run_eq_ok_of_small hlo hhi hlt h.finite hsign hsmall
  have hbetween : lo ≤ outcome.root ∧ outcome.root ≤ hi := by
    rcases hroot with hroot | hroot <;> rw [hroot]
    · exact ⟨Scalar.le_refl (isNaN_of_isFinite hlo), hle⟩
    · exact ⟨hle, Scalar.le_refl (isNaN_of_isFinite hhi)⟩
  have hfinite : isFinite (f outcome.root) = true := by
    rcases hroot with hroot | hroot <;> rw [hroot]
    · exact h.finite.1
    · exact h.finite.2
  refine ⟨outcome, houtcome, hbetween.1, hbetween.2, ?_⟩
  exact
    { lower := LawfulOrder.le_trans hlower hbetween.1
      upper := LawfulOrder.le_trans hbetween.2 hupper
      finite := hfinite
      small := lt_of_lt_of_le hvalue hacceptance }

omit [LawfulDistance α] in
theorem Sampled.candidate?_eq_none (h : Sampled s f piece lo hi) (hlt : lo < hi)
    (hsign : 0 < f lo * f hi) : s.candidate? f start stop piece = none := by
  rw [← Option.not_isSome_iff_eq_none, Option.isSome_iff_exists]
  rintro ⟨c, hcandidate⟩
  obtain ⟨lo', hi', outcome, hlo', hhi', -, -, -, hrun, -⟩ := candidate?_eq_some_iff.mp hcandidate
  obtain rfl := Option.some.inj (h.lower.symm.trans hlo')
  obtain rfl := Option.some.inj (h.upper.symm.trans hhi')
  rw [Bisection.run_eq_noSignChange hlo hhi hlt h.finite hsign] at hrun
  cases hrun

end Ends

/-- **A sample close to zero makes a root**, unless the other one has its sign: then the piece makes
none. -/
theorem exists_root_near_small_sample (s : Sweep α) (f : α → α) (start stop : α) (roots : List α)
    (piece : α × α) (lo hi : α) (hrun : s.run f start stop = .ok roots)
    (hdistance : 0 ≤ s.duplicateDistance) (hacceptance : s.tolerance ≤ s.acceptance)
    (hpiece : piece ∈ s.pieces start stop) (hsampled : Sampled s f piece lo hi) (hlt : lo < hi)
    (hlower : start ≤ lo) (hupper : hi ≤ stop)
    (hsmall : Scalar.abs (f lo) < s.tolerance ∨ Scalar.abs (f hi) < s.tolerance) :
    (¬0 < f lo * f hi →
        ∃ r ∈ roots, lo - s.duplicateDistance ≤ r ∧ r ≤ hi + s.duplicateDistance) ∧
      (0 < f lo * f hi → s.candidate? f start stop piece = none) := by
  obtain ⟨hstart, hstop⟩ := isFinite_of_fault?_eq_none (run_eq_ok_iff.mp hrun).1
  have hle : lo ≤ hi := le_of_lt hlt
  have hlo : isFinite lo = true :=
    isFinite_of_le_of_le hstart hstop hlower (LawfulOrder.le_trans hle hupper)
  have hhi : isFinite hi = true :=
    isFinite_of_le_of_le hstart hstop (LawfulOrder.le_trans hlower hle) hupper
  constructor
  · intro hsign
    obtain ⟨outcome, houtcome, hbelow, habove, haccepted⟩ :=
      hsampled.exists_accepted hlo hhi hlt hlower hupper hacceptance hsign hsmall
    have hsearched : Searched s f piece lo hi := ⟨hsampled, fun h => hsign h.1⟩
    obtain ⟨r, hr, hnear⟩ :=
      exists_root_near_candidate hrun hpiece (hsearched.candidate?_eq houtcome haccepted)
    exact ⟨r, hr, le_and_le_of_near hlo hhi hdistance hbelow habove hnear⟩
  · exact hsampled.candidate?_eq_none hlo hhi hlt

end Lawful

theorem exists_root_near_one :
    let s : Sweep (Exact .rationalPart) := { granularity := .rational (1 / 2) }
    let f : Exact .rationalPart → Exact .rationalPart := fun x => x - 1
    let roots : List (Exact .rationalPart) := [.rational 1]
    s.run f (.rational (1 / 2)) (.rational (3 / 2)) = .ok roots ∧ ∃ r ∈ roots,
      .rational (1 / 2) - s.duplicateDistance ≤ r ∧ r ≤ .rational 1 + s.duplicateDistance := by
  intro s f roots
  have hrun : s.run f (.rational (1 / 2)) (.rational (3 / 2)) = .ok roots := by decide +kernel
  have hpieces : s.pieces (.rational (1 / 2)) (.rational (3 / 2)) =
      [(.rational (1 / 2), .rational 1), (.rational 1, .rational (3 / 2))] := by decide +kernel
  have hsampled : Sampled s f (.rational (1 / 2), .rational 1) (.rational (1 / 2)) (.rational 1) :=
    ⟨by decide +kernel, by decide +kernel, ⟨rfl, rfl⟩, by decide +kernel⟩
  have hnear := exists_root_near_small_sample s f (.rational (1 / 2)) (.rational (3 / 2))
    roots _ _ _ hrun (by decide +kernel) (by decide +kernel) (hpieces ▸ List.mem_cons_self) hsampled
    (by decide +kernel) (by decide +kernel) (by decide +kernel) (by decide +kernel)
  exact ⟨hrun, hnear.1 (by decide +kernel)⟩

/-- Next to a root where the function does not change its sign. -/
theorem run_misses_even_root :
    let s : Sweep (Exact .rationalPart) := { granularity := .rational (1 / 2) }
    let f : Exact .rationalPart → Exact .rationalPart := fun x => x * x - 2 * x + 1
    let start : Exact .rationalPart := .rational (5001 / 10000)
    let middle : Exact .rationalPart := .rational (10001 / 10000)
    let stop : Exact .rationalPart := .rational (15001 / 10000)
    let roots : List (Exact .rationalPart) := []
    s.run f start stop = .ok roots ∧ 0 ≤ s.duplicateDistance ∧ s.tolerance ≤ s.acceptance ∧
      (start, middle) ∈ s.pieces start stop ∧ Sampled s f (start, middle) start middle ∧
      start < middle ∧ start ≤ start ∧ middle ≤ stop ∧ Scalar.abs (f middle) < s.tolerance ∧
      ¬∃ r ∈ roots, start - s.duplicateDistance ≤ r ∧ r ≤ middle + s.duplicateDistance := by
  intro s f start middle stop roots
  have hpieces : s.pieces start stop = [(start, middle), (middle, stop)] := by decide +kernel
  refine ⟨by decide +kernel, by decide +kernel, by decide +kernel, ?_, ?_, by decide +kernel,
    by decide +kernel, by decide +kernel, by decide +kernel, by simp [roots]⟩
  · rw [hpieces]
    exact List.mem_cons_self
  · exact ⟨by decide +kernel, by decide +kernel, ⟨rfl, rfl⟩, by decide +kernel⟩

end Sweep

end Univariate.Root
