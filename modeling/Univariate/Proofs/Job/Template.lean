import Univariate.Proofs.Job.Reading
import Univariate.Scalar.Binary64

/-!
# The template of jobs

Completing a document by the template before it is read changes nothing in the job.
-/

namespace Univariate.Job

open Document (Value valuesAt? Template)

variable {α : Type}

theorem hasKnownNames_complete_iff {d : Document α} :
    HasKnownNames (d.complete template) ↔ HasKnownNames d := by
  constructor
  · intro h
    refine ⟨fun title htitle => ?_, fun title key hkey => ?_⟩
    · exact h.titles title ((Document.isSome_get?_complete d template title).mpr (Or.inl htitle))
    · apply h.keys title key
      rw [Document.valuesAt?_complete]
      split
      · rfl
      · exact hkey
  · intro h
    refine ⟨fun title htitle => ?_, fun title key hkey => ?_⟩
    · exact ((Document.isSome_get?_complete d template title).mp htitle).elim (h.titles title) id
    · by_contra hnames
      rw [Document.valuesAt?_complete, if_neg hnames] at hkey
      exact hnames (h.keys title key hkey)

variable [Scalar α]

theorem ofDocument_complete_eq_ok_iff {d : Document α} {job : Job α} (hd : d.IsMap) :
    ofDocument (d.complete template) = .ok job ↔ ofDocument d = .ok job := by
  apply ofDocument_eq_ok_iff_of_sameValues (hd.complete template) hd hasKnownNames_complete_iff
  intro title key
  rw [Document.valuesAt?_complete]
  split
  · rw [Option.join_some]
  · rfl

/-- What a text gives as a job is what its document gives, with or without the template. -/
theorem ofText_eq_ok_iff {t : Text} {job : Job α} :
    ofText t = .ok job ↔ ∃ d, Document.ofText t = .ok d ∧ ofDocument d = .ok job := by
  unfold ofText
  cases ht : Document.ofText (α := α) t with
  | error error => exact iff_of_false nofun nofun
  | ok d =>
      rw [ofDocument_complete_eq_ok_iff (Document.isMap_of_ofText ht)]
      constructor
      · exact fun h => ⟨d, rfl, h⟩
      · rintro ⟨_, hd, h⟩
        exact Except.ok.inj hd ▸ h

/-- **The template is invisible in jobs.** A text gives the job that its document gives without the
template, or both give none. Any template keeps all that a document has, and adds its own titles and
keys where they are missing, the keys without values. -/
theorem ofText_iff_ofDocument_and_complete :
    (∀ (t : Text) (job : Job α),
      ofText t = .ok job ↔ ∃ d, Document.ofText t = .ok d ∧ ofDocument d = .ok job) ∧
    ∀ (d : Document α) (template : Template),
      (d.IsMap → (d.complete template).IsMap) ∧
      (∀ title, (Entries.get? (d.complete template) title).isSome = true ↔
        (Entries.get? d title).isSome = true ∨ title ∈ template.map Prod.fst) ∧
      ∀ title key, valuesAt? (d.complete template) title key =
        (valuesAt? d title key).or (if template.Names title key then some none else none) := by
  refine ⟨fun t job => ofText_eq_ok_iff, fun d template => ⟨fun hd => hd.complete template,
    fun title => Document.isSome_get?_complete d template title, fun title key => ?_⟩⟩
  rw [Document.valuesAt?_complete]
  cases valuesAt? d title key with
  | none => rw [Option.join_none, Option.none_or]
  | some values => rw [Option.join_some, ite_self, Option.some_or]

/-- One section with one of its two keys, and an empty value list in another. -/
theorem ofText_iff_ofDocument_and_complete_task :
    let d : Document Float := .ofSections [⟨"function".toList, [("expression".toList, ["x".toList])]⟩,
      ⟨"integral".toList, [("method".toList, [])]⟩]
    d.IsMap ∧ (d.complete template).IsMap ∧
      valuesAt? (d.complete template) "function".toList "expression".toList =
        some (some [.text "x".toList]) ∧
      valuesAt? (d.complete template) "function".toList "mode".toList = some none ∧
      valuesAt? (d.complete template) "integral".toList "method".toList = some (some []) := by
  intro d
  have hd : d.IsMap := ⟨by decide, by decide⟩
  obtain ⟨hmap, -, hvalues⟩ := (ofText_iff_ofDocument_and_complete (α := Float)).2 d template
  refine ⟨hd, hmap hd, ?_, ?_, ?_⟩
  · rw [hvalues]
    decide +kernel
  · rw [hvalues]
    decide +kernel
  · rw [hvalues]
    decide +kernel

end Univariate.Job
