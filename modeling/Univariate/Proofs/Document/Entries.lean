import Mathlib.Data.List.Nodup
import Univariate.Document.Entries

/-!
# Entries with distinct keys

Where no key occurs twice, looking up a key finds the entry that has it, wherever it stands.
-/

namespace Univariate.Entries

variable {κ β : Type} [DecidableEq κ]

theorem eq_or_mem_of_mem_update {key other : κ} {f : Option β → β} {entries : Entries κ β}
    (h : other ∈ (update key f entries).map Prod.fst) :
    other = key ∨ other ∈ entries.map Prod.fst := by
  induction entries with
  | nil => exact Or.inl (List.mem_singleton.mp h)
  | cons entry rest ih =>
      unfold update at h
      split at h
      · exact Or.inr h
      · rcases List.mem_cons.mp h with rfl | h
        · exact Or.inr List.mem_cons_self
        · exact (ih h).imp_right (List.mem_cons_of_mem _)

theorem nodup_update {entries : Entries κ β} (h : (entries.map Prod.fst).Nodup) (key : κ)
    (f : Option β → β) : ((update key f entries).map Prod.fst).Nodup := by
  induction entries with
  | nil => exact List.nodup_singleton key
  | cons entry rest ih =>
      obtain ⟨hmem, hrest⟩ := List.nodup_cons.mp h
      unfold update
      split
      · exact h
      · next hne =>
          refine List.nodup_cons.mpr ⟨fun hupdated => ?_, ih hrest⟩
          rcases eq_or_mem_of_mem_update hupdated with hkey | hupdated
          · exact hne hkey
          · exact hmem hupdated

theorem forall_update {P : β → Prop} {entries : Entries κ β} (h : ∀ entry ∈ entries, P entry.2)
    (key : κ) {f : Option β → β} (hnone : P (f none)) (hsome : ∀ v, P v → P (f (some v))) :
    ∀ entry ∈ update key f entries, P entry.2 := by
  induction entries with
  | nil =>
      intro entry hentry
      rw [List.mem_singleton.mp hentry]
      exact hnone
  | cons first rest ih =>
      obtain ⟨hfirst, hrest⟩ := List.forall_mem_cons.mp h
      unfold update
      split
      · exact List.forall_mem_cons.mpr ⟨hsome _ hfirst, hrest⟩
      · exact List.forall_mem_cons.mpr ⟨hfirst, ih hrest⟩

theorem isSome_get?_iff {entries : Entries κ β} {key : κ} :
    (get? entries key).isSome = true ↔ key ∈ entries.map Prod.fst := by
  rw [get?, Option.isSome_map, List.find?_isSome, List.mem_map]
  simp

theorem mem_of_get?_eq_some {entries : Entries κ β} {key : κ} {v : β}
    (h : get? entries key = some v) : (key, v) ∈ entries := by
  obtain ⟨⟨k, w⟩, hfind, rfl⟩ := Option.map_eq_some_iff.mp h
  have hkey : k = key := by simpa using List.find?_some hfind
  exact hkey ▸ List.mem_of_find?_eq_some hfind

theorem get?_eq_some_iff {entries : Entries κ β} (h : (entries.map Prod.fst).Nodup) {key : κ}
    {v : β} : get? entries key = some v ↔ (key, v) ∈ entries := by
  refine ⟨mem_of_get?_eq_some, fun hmem => ?_⟩
  have hsome : (get? entries key).isSome = true :=
    isSome_get?_iff.mpr (List.mem_map.mpr ⟨_, hmem, rfl⟩)
  obtain ⟨w, hw⟩ := Option.isSome_iff_exists.mp hsome
  have hentry := List.inj_on_of_nodup_map h (mem_of_get?_eq_some hw) hmem rfl
  rw [hw, (Prod.mk.inj hentry).2]

theorem get?_perm {entries entries' : Entries κ β} (hperm : entries.Perm entries')
    (h : (entries.map Prod.fst).Nodup) (key : κ) : get? entries key = get? entries' key := by
  have h' : (entries'.map Prod.fst).Nodup := (hperm.map Prod.fst).nodup_iff.mp h
  apply Option.ext
  intro v
  rw [get?_eq_some_iff h, get?_eq_some_iff h', hperm.mem_iff]

end Univariate.Entries
