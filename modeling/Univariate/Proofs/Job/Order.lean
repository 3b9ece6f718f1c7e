import Univariate.Proofs.Document.Order
import Univariate.Proofs.Job.Template

/-!
# The order of writing

Jobs do not depend on the order in which sections and pairs are written, nor on the order of the
entries in a document. Only which error is reported first depends on it.
-/

namespace Univariate.Job

open Document (Rearranged WrittenSection IsSpelled IsWriting writtenPairs ofSections valuesAt?)

variable {α : Type}

theorem HasKnownNames.congr {d d' : Document α}
    (htitles : ∀ title, (Entries.get? d title).isSome = true ↔ (Entries.get? d' title).isSome = true)
    (hvalues : ∀ title key, valuesAt? d title key = valuesAt? d' title key) :
    HasKnownNames d ↔ HasKnownNames d' := by
  constructor
  · exact fun h => ⟨fun title htitle => h.titles title ((htitles title).mpr htitle),
      fun title key hkey => h.keys title key (hvalues title key ▸ hkey)⟩
  · exact fun h => ⟨fun title htitle => h.titles title ((htitles title).mp htitle),
      fun title key hkey => h.keys title key (hvalues title key ▸ hkey)⟩

variable [Scalar α]

/-- Documents with the same titles, keys and values give the same job, or none. -/
theorem ofDocument_congr {d d' : Document α} {job : Job α} (hd : d.IsMap) (hd' : d'.IsMap)
    (htitles : ∀ title, (Entries.get? d title).isSome = true ↔ (Entries.get? d' title).isSome = true)
    (hvalues : ∀ title key, valuesAt? d title key = valuesAt? d' title key) :
    ofDocument d = .ok job ↔ ofDocument d' = .ok job := by
  apply ofDocument_eq_ok_iff_of_sameValues hd hd' (HasKnownNames.congr htitles hvalues)
  intro title key
  rw [hvalues]

section Written

variable {sections sections' : List WrittenSection} {job : Job α}

theorem ofDocument_ofSections_congr
    (hnodup : ((writtenPairs sections).map Prod.fst).Nodup)
    (h : Rearranged (sections.map WrittenSection.entry) (sections'.map WrittenSection.entry)) :
    ofDocument (ofSections sections) = .ok job ↔ ofDocument (ofSections sections') = .ok job := by
  have hmap : ∀ sections, (ofSections sections : Document α).IsMap := fun sections =>
    Document.isMap_foldl_write sections ⟨List.nodup_nil, nofun⟩
  have htitles : ∀ sections title, (Entries.get? (ofSections sections : Document α) title).isSome =
      true ↔ title ∈ (sections.map WrittenSection.entry).map Prod.fst := by
    intro sections title
    rw [ofSections, Document.isSome_get?_foldl_write, or_iff_right nofun, List.map_map,
      List.mem_map]
    rfl
  have hvalues : ∀ sections title key, valuesAt? (ofSections sections : Document α) title key =
      (Document.lastWritten? sections title key).map fun values =>
        some (values.map Document.Value.ofText) := fun sections title key =>
    (Document.valuesAt?_foldl_write sections [] title key).trans Option.or_none
  apply ofDocument_congr (hmap sections) (hmap sections')
  · intro title
    rw [htitles, htitles, h.perm_map_fst.mem_iff]
  · intro title key
    rw [hvalues, hvalues,
      Document.lastWritten?_perm (Document.perm_writtenPairs h) hnodup title key]

/-- A written text gives the job of its document, if there is a section and each one has pairs. -/
theorem ofText_eq_ok_iff_of_isWriting {t : Text} (hsections : ∀ s ∈ sections, IsSpelled s)
    (ht : IsWriting sections t) :
    ofText t = .ok job ↔ (sections ≠ [] ∧ ∀ s ∈ sections, s.pairs ≠ []) ∧
      ofDocument (ofSections sections) = .ok job := by
  rw [ofText_eq_ok_iff]
  simp only [Document.ofText_eq_ok_iff_of_isWriting hsections ht]
  constructor
  · rintro ⟨_, ⟨hne, hpairs, rfl⟩, h⟩
    exact ⟨⟨hne, hpairs⟩, h⟩
  · rintro ⟨⟨hne, hpairs⟩, h⟩
    exact ⟨_, ⟨hne, hpairs, rfl⟩, h⟩

theorem ofText_eq_ok_iff_of_rearranged {t t' : Text} (hsections : ∀ s ∈ sections, IsSpelled s)
    (hnodup : ((writtenPairs sections).map Prod.fst).Nodup)
    (h : Rearranged (sections.map WrittenSection.entry) (sections'.map WrittenSection.entry))
    (ht : IsWriting sections t) (ht' : IsWriting sections' t') :
    ofText t = .ok job ↔ ofText t' = .ok job := by
  have hsections' := Document.isSpelled_of_rearranged h hsections
  rw [ofText_eq_ok_iff_of_isWriting hsections ht, ofText_eq_ok_iff_of_isWriting hsections' ht']
  apply and_congr _ (ofDocument_ofSections_congr hnodup h)
  constructor
  · exact Document.pairs_ne_nil_of_rearranged h
  · exact Document.pairs_ne_nil_of_rearranged h.symm

end Written

/-- **The order does not matter.** Sections in which no title and key are written together twice give
the same job in every order of the sections and of the pairs in them, or none in every order. So do
documents, in every order of their entries. -/
theorem ofText_and_ofDocument_congr_rearranged :
    (∀ {sections sections' : List WrittenSection} {t t' : Text},
      (∀ s ∈ sections, IsSpelled s) → ((writtenPairs sections).map Prod.fst).Nodup →
      Rearranged (sections.map WrittenSection.entry) (sections'.map WrittenSection.entry) →
      IsWriting sections t → IsWriting sections' t' →
        ∀ job : Job α, ofText t = .ok job ↔ ofText t' = .ok job) ∧
    ∀ {d d' : Document α}, d.IsMap → Rearranged d d' →
      ∀ job, ofDocument d = .ok job ↔ ofDocument d' = .ok job := by
  constructor
  · intro sections sections' t t' hsections hnodup h ht ht' job
    exact ofText_eq_ok_iff_of_rearranged hsections hnodup h ht ht'
  · intro d d' hd h job
    exact ofDocument_congr hd (h.isMap hd) h.isSome_get?_iff (h.valuesAt?_eq hd)

/-- A section in two parts that change places, with a key without values; a document with a key that
only a template names. -/
theorem ofText_and_ofDocument_congr_rearranged_task :
    let integral : WrittenSection := ⟨"integral".toList, [("n".toList, ["5".toList])]⟩
    let sections : List WrittenSection := [integral,
      ⟨"function".toList, [("expression".toList, ["x".toList]), ("mode".toList, ["strict".toList])]⟩,
      ⟨"integral".toList, [("method".toList, []), ("a".toList, ["1".toList])]⟩]
    let sections' : List WrittenSection := [
      ⟨"integral".toList, [("a".toList, ["1".toList]), ("method".toList, [])]⟩,
      ⟨"function".toList, [("mode".toList, ["strict".toList]), ("expression".toList, ["x".toList])]⟩,
      integral]
    let t : Text :=
      "integral\nn:5\nfunction\nexpression:x\nmode:strict\nintegral\nmethod:\na:1\n".toList
    let t' : Text :=
      "integral\na:1\nmethod:\nfunction\nmode:strict\nexpression:x\nintegral\nn:5\n".toList
    let function : Document.Section Float :=
      [("mode".toList, none), ("expression".toList, some [.text "x".toList])]
    let d : Document Float := [("function".toList, function), ("logging".toList, [])]
    let d' : Document Float := [("logging".toList, []), ("function".toList, function.reverse)]
    (∀ s ∈ sections, IsSpelled s) ∧ ((writtenPairs sections).map Prod.fst).Nodup ∧
      Rearranged (sections.map WrittenSection.entry) (sections'.map WrittenSection.entry) ∧
      IsWriting sections t ∧ IsWriting sections' t' ∧
      (∀ job : Job Float, ofText t = .ok job ↔ ofText t' = .ok job) ∧
      (ofText t : Except Error (Job Float)).isOk = true ∧ d.IsMap ∧ Rearranged d d' ∧
      (∀ job : Job Float, ofDocument d = .ok job ↔ ofDocument d' = .ok job) ∧
      (ofDocument d).isOk = true := by
  intro integral sections sections' t t' function d d'
  have hsections : ∀ s ∈ sections, IsSpelled s := by decide +kernel
  have hnodup : ((writtenPairs sections).map Prod.fst).Nodup := by decide +kernel
  have hperm : Rearranged (sections.map WrittenSection.entry)
      (sections'.map WrittenSection.entry) := by
    refine ⟨(sections.map WrittenSection.entry).reverse, (List.reverse_perm _).symm, ?_⟩
    exact .cons ⟨rfl, .swap _ _ _⟩ (.cons ⟨rfl, .swap _ _ _⟩ (.cons ⟨rfl, .refl _⟩ .nil))
  have hwriting : Document.inLines sections = t := by decide +kernel
  have hwriting' : Document.inLines sections' = t' := by decide +kernel
  have ht : IsWriting sections t := hwriting ▸ Document.isWriting_inLines sections
  have ht' : IsWriting sections' t' := hwriting' ▸ Document.isWriting_inLines sections'
  have hd : d.IsMap := ⟨by decide, by decide⟩
  have hentries : Rearranged d d' := by
    refine ⟨d.reverse, (List.reverse_perm _).symm, ?_⟩
    exact .cons ⟨rfl, .refl _⟩ (.cons ⟨rfl, (List.reverse_perm _).symm⟩ .nil)
  obtain ⟨htexts, hdocuments⟩ := ofText_and_ofDocument_congr_rearranged (α := Float)
  exact ⟨hsections, hnodup, hperm, ht, ht', htexts hsections hnodup hperm ht ht',
    by decide +kernel, hd, hentries, hdocuments hd hentries, by decide +kernel⟩

end Univariate.Job
