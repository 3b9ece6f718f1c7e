import Univariate.Proofs.Document.Written

/-!
# Completed documents

A template adds the keys that a document lacks, without values, and leaves all else as it is.
-/

namespace Univariate.Document

variable {α : Type}

/-- The template asks for the key under the title. -/
def Template.Names (template : Template) (title key : Text) : Prop :=
  ∃ entry ∈ template, entry.1 = title ∧ key ∈ entry.2

instance (template : Template) (title key : Text) : Decidable (template.Names title key) :=
  inferInstanceAs (Decidable (∃ entry ∈ template, _))

theorem Template.names_cons {title title' key : Text} {keys : List Text} {template : Template} :
    Template.Names ((title', keys) :: template) title key ↔
      (title' = title ∧ key ∈ keys) ∨ template.Names title key := by
  simp [Template.Names]

theorem Section.get?_complete (s : Section α) (keys : List Text) (key : Text) :
    Entries.get? (s.complete keys) key =
      if key ∈ keys then some (Entries.get? s key).join else Entries.get? s key := by
  induction keys generalizing s with
  | nil => rfl
  | cons other keys ih =>
      change Entries.get? (Section.complete (Entries.update other Option.join s) keys) key = _
      rw [ih]
      by_cases hkey : key = other
      · subst hkey
        simp [Entries.get?_update_self]
      · simp [Entries.get?_update_of_ne _ _ hkey, hkey]

theorem get?_getD (d : Document α) (title key : Text) :
    Entries.get? ((Entries.get? d title).getD []) key = valuesAt? d title key := by
  unfold valuesAt?
  cases Entries.get? d title <;> rfl

/-- What one section of a template does. -/
theorem valuesAt?_update_complete (d : Document α) (title' : Text) (keys : List Text)
    (title key : Text) :
    valuesAt? (Entries.update title' (fun s => Section.complete (s.getD []) keys) d) title key =
      if title' = title ∧ key ∈ keys then some (valuesAt? d title key).join
      else valuesAt? d title key := by
  by_cases htitle : title' = title
  · subst htitle
    rw [valuesAt?, Entries.get?_update_self, Option.bind_some, Section.get?_complete, get?_getD]
    simp
  · rw [valuesAt?, Entries.get?_update_of_ne _ _ (Ne.symm htitle), if_neg (htitle ·.1)]
    rfl

theorem valuesAt?_complete (d : Document α) (template : Template) (title key : Text) :
    valuesAt? (d.complete template) title key =
      if template.Names title key then some (valuesAt? d title key).join
      else valuesAt? d title key := by
  induction template generalizing d with
  | nil => rfl
  | cons entry template ih =>
      obtain ⟨title', keys⟩ := entry
      change valuesAt? (complete (Entries.update title' _ d) template) title key = _
      rw [ih, valuesAt?_update_complete]
      simp only [Template.names_cons]
      by_cases hnames : Template.Names template title key
      · by_cases hentry : title' = title ∧ key ∈ keys <;> simp [hnames, hentry]
      · by_cases hentry : title' = title ∧ key ∈ keys <;> simp [hnames, hentry]

theorem isSome_get?_complete (d : Document α) (template : Template) (title : Text) :
    (Entries.get? (d.complete template) title).isSome = true ↔
      (Entries.get? d title).isSome = true ∨ title ∈ template.map Prod.fst := by
  induction template generalizing d with
  | nil => simp [complete]
  | cons entry template ih =>
      obtain ⟨title', keys⟩ := entry
      change (Entries.get? (complete (Entries.update title' _ d) template) title).isSome = true ↔ _
      rw [ih]
      by_cases htitle : title = title'
      · subst htitle
        simp [Entries.get?_update_self]
      · simp [Entries.get?_update_of_ne _ _ htitle, htitle]

theorem Section.nodup_complete {s : Section α} (h : (s.map Prod.fst).Nodup) (keys : List Text) :
    ((s.complete keys).map Prod.fst).Nodup := by
  induction keys generalizing s with
  | nil => exact h
  | cons key keys ih => exact ih (Entries.nodup_update h key _)

theorem IsMap.complete {d : Document α} (h : d.IsMap) (template : Template) :
    (d.complete template).IsMap := by
  induction template generalizing d with
  | nil => exact h
  | cons entry template ih =>
      apply ih
      refine ⟨Entries.nodup_update h.titles _ _, ?_⟩
      apply Entries.forall_update (P := fun s : Section α => (s.map Prod.fst).Nodup) h.keys
      · exact Section.nodup_complete (s := []) List.nodup_nil entry.2
      · exact fun s hs => Section.nodup_complete hs entry.2

end Univariate.Document
