import Mathlib.Data.List.Perm.Basic
import Univariate.Proofs.Document.Written

/-!
# Documents in another order

Sections and the pairs in them can change places. Where no title and key occur together twice, the
values that they have stay the same.
-/

namespace Univariate.Document

/-! ### Rearrangements -/

section Rearranged

variable {κ β γ : Type} {entries entries' : List (κ × List β)}

/-- The same key, and under it the same in another order. -/
def SameEntry (entry entry' : κ × List β) : Prop := entry.1 = entry'.1 ∧ entry.2.Perm entry'.2

/-- The entries in another order, and what is under each of them in another order. -/
def Rearranged (entries entries' : List (κ × List β)) : Prop :=
  ∃ middle, entries.Perm middle ∧ List.Forall₂ SameEntry middle entries'

namespace Rearranged

theorem symm (h : Rearranged entries entries') : Rearranged entries' entries := by
  obtain ⟨middle, hperm, hsame⟩ := h
  have hflip : List.Forall₂ SameEntry entries' middle :=
    (hsame.imp fun _ _ h => ⟨h.1.symm, h.2.symm⟩ : List.Forall₂ (flip SameEntry) middle _).flip
  have hcomp : Relation.Comp (List.Forall₂ SameEntry) List.Perm entries' entries :=
    ⟨middle, hflip, hperm.symm⟩
  rwa [List.forall₂_comp_perm_eq_perm_comp_forall₂] at hcomp

theorem exists_mem (h : Rearranged entries entries') {entry' : κ × List β}
    (hmem : entry' ∈ entries') : ∃ entry ∈ entries, SameEntry entry entry' := by
  obtain ⟨middle, hperm, hsame⟩ := h
  obtain ⟨entry, hentry, hsame⟩ := exists_mem_of_forall₂ hsame hmem
  exact ⟨entry, hperm.mem_iff.mpr hentry, hsame⟩

theorem perm_map_fst (h : Rearranged entries entries') :
    (entries.map Prod.fst).Perm (entries'.map Prod.fst) := by
  obtain ⟨middle, hperm, hsame⟩ := h
  have hmap : middle.map Prod.fst = entries'.map Prod.fst := by
    induction hsame generalizing entries with
    | nil => rfl
    | cons hentry _ ih => exact congrArg₂ List.cons hentry.1 (ih (List.Perm.refl _))
  exact hmap ▸ hperm.map Prod.fst

theorem perm_flatMap (h : Rearranged entries entries') (f : κ → β → γ) :
    (entries.flatMap fun entry => entry.2.map (f entry.1)).Perm
      (entries'.flatMap fun entry => entry.2.map (f entry.1)) := by
  obtain ⟨middle, hperm, hsame⟩ := h
  refine (hperm.flatMap_right _).trans ?_
  induction hsame generalizing entries with
  | nil => exact List.Perm.refl _
  | @cons entry entry' _ _ hentry _ ih =>
      rw [List.flatMap_cons, List.flatMap_cons, hentry.1]
      exact (hentry.2.map _).append (ih (List.Perm.refl _))

end Rearranged

end Rearranged

/-! ### Maps -/

section IsMap

variable {α : Type} {d d' : Document α}

theorem Rearranged.isMap (h : Rearranged d d') (hd : d.IsMap) : d'.IsMap := by
  refine ⟨h.perm_map_fst.nodup_iff.mp hd.titles, fun entry' hentry' => ?_⟩
  obtain ⟨entry, hentry, -, hperm⟩ := h.exists_mem hentry'
  exact (hperm.map Prod.fst).nodup_iff.mp (hd.keys entry hentry)

theorem Rearranged.isSome_get?_iff (h : Rearranged d d') (title : Text) :
    (Entries.get? d title).isSome = true ↔ (Entries.get? d' title).isSome = true := by
  rw [Entries.isSome_get?_iff, Entries.isSome_get?_iff, h.perm_map_fst.mem_iff]

theorem Rearranged.valuesAt?_eq (h : Rearranged d d') (hd : d.IsMap) (title key : Text) :
    valuesAt? d title key = valuesAt? d' title key := by
  unfold valuesAt?
  cases hs' : Entries.get? d' title with
  | none =>
      have hs : Entries.get? d title = none := by
        rw [← Option.not_isSome_iff_eq_none, h.isSome_get?_iff, hs']
        exact Bool.false_ne_true
      rw [hs]
  | some s' =>
      obtain ⟨⟨_, s⟩, hmem, rfl, hperm⟩ := h.exists_mem (Entries.mem_of_get?_eq_some hs')
      rw [(Entries.get?_eq_some_iff hd.titles).mpr hmem]
      exact Entries.get?_perm hperm (hd.keys _ hmem) key

end IsMap

/-! ### Written sections -/

def WrittenSection.entry (s : WrittenSection) : Text × List (Text × List Text) := (s.title, s.pairs)

section Written

variable {sections sections' : List WrittenSection}

theorem writtenPairs_eq_flatMap (sections : List WrittenSection) :
    writtenPairs sections =
      (sections.map WrittenSection.entry).flatMap fun entry =>
        entry.2.map fun pair => ((entry.1, pair.1), pair.2) := by
  rw [List.flatMap_map]
  rfl

theorem perm_writtenPairs
    (h : Rearranged (sections.map WrittenSection.entry) (sections'.map WrittenSection.entry)) :
    (writtenPairs sections).Perm (writtenPairs sections') := by
  rw [writtenPairs_eq_flatMap, writtenPairs_eq_flatMap]
  exact h.perm_flatMap fun title pair => ((title, pair.1), pair.2)

/-- Where each title and key stand together once, the last values are the only ones. -/
theorem lastWritten?_perm (hperm : (writtenPairs sections).Perm (writtenPairs sections'))
    (hnodup : ((writtenPairs sections).map Prod.fst).Nodup) (title key : Text) :
    lastWritten? sections title key = lastWritten? sections' title key := by
  change Entries.get? (writtenPairs sections).reverse (title, key) =
    Entries.get? (writtenPairs sections').reverse (title, key)
  apply Entries.get?_perm
  · exact (List.reverse_perm _).trans (hperm.trans (List.reverse_perm _).symm)
  · rw [List.map_reverse]
    exact List.nodup_reverse.mpr hnodup

theorem exists_mem_of_rearranged
    (h : Rearranged (sections.map WrittenSection.entry) (sections'.map WrittenSection.entry))
    {s' : WrittenSection} (hs' : s' ∈ sections') :
    ∃ s ∈ sections, s.title = s'.title ∧ s.pairs.Perm s'.pairs := by
  obtain ⟨entry, hentry, htitle, hperm⟩ := h.exists_mem (List.mem_map_of_mem hs')
  obtain ⟨s, hs, rfl⟩ := List.mem_map.mp hentry
  exact ⟨s, hs, htitle, hperm⟩

theorem isSpelled_of_rearranged
    (h : Rearranged (sections.map WrittenSection.entry) (sections'.map WrittenSection.entry))
    (hsections : ∀ s ∈ sections, IsSpelled s) : ∀ s ∈ sections', IsSpelled s := by
  intro s' hs'
  obtain ⟨s, hs, htitle, hperm⟩ := exists_mem_of_rearranged h hs'
  refine ⟨htitle ▸ (hsections s hs).title, fun pair hpair => ?_⟩
  exact (hsections s hs).pairs pair (hperm.mem_iff.mpr hpair)

theorem pairs_ne_nil_of_rearranged
    (h : Rearranged (sections.map WrittenSection.entry) (sections'.map WrittenSection.entry))
    (hsections : sections ≠ [] ∧ ∀ s ∈ sections, s.pairs ≠ []) :
    sections' ≠ [] ∧ ∀ s ∈ sections', s.pairs ≠ [] := by
  constructor
  · rintro rfl
    have hperm := h.perm_map_fst
    rw [List.map_map] at hperm
    exact hsections.1 (List.map_eq_nil_iff.mp hperm.eq_nil)
  · intro s' hs' hnil
    obtain ⟨s, hs, -, hperm⟩ := exists_mem_of_rearranged h hs'
    rw [hnil] at hperm
    exact hsections.2 s hs hperm.eq_nil

end Written

end Univariate.Document
