import Univariate.Job
import Univariate.Proofs.Document.Completion

/-!
# What a job takes from a document

A job is read from the values that are written under known titles and keys, and from nothing else: a
section that is missing reads like an empty one, a key without values like one that is missing.
-/

namespace Univariate.Job

open Document (Section Value valuesAt? Template)

variable {α : Type}

/-! ### Sections with the same values -/

section Section

variable {s s' : Section α}

/-- Under every key there are the same values in both, or in both none. -/
def SameValues (s s' : Section α) : Prop :=
  ∀ key, (Entries.get? s key).join = (Entries.get? s' key).join

theorem single_eq (h : SameValues s s') : single s = single s' := by
  funext place
  unfold single
  rw [h place.key]

theorem isWritten_iff (h : (s.map Prod.fst).Nodup) :
    isWritten s = true ↔ ∃ key, (Entries.get? s key).join ≠ none := by
  rw [isWritten, List.any_eq_true]
  constructor
  · rintro ⟨⟨key, values⟩, hmem, hvalues⟩
    refine ⟨key, ?_⟩
    rw [(Entries.get?_eq_some_iff h).mpr hmem]
    exact Option.isSome_iff_ne_none.mp hvalues
  · rintro ⟨key, hvalues⟩
    obtain ⟨values, hget⟩ := Option.ne_none_iff_exists'.mp hvalues
    rw [Option.join_eq_some_iff] at hget
    exact ⟨_, Entries.mem_of_get?_eq_some hget, rfl⟩

theorem isWritten_eq (hs : (s.map Prod.fst).Nodup) (hs' : (s'.map Prod.fst).Nodup)
    (h : SameValues s s') : isWritten s = isWritten s' := by
  rw [Bool.eq_iff_iff, isWritten_iff hs, isWritten_iff hs']
  exact exists_congr fun key => by rw [h key]

variable [Scalar α]

theorem textOf_eq (h : SameValues s s') : textOf s = textOf s' := by
  funext title key
  unfold textOf
  rw [single_eq h]

theorem numberOr_eq (h : SameValues s s') : numberOr s = numberOr s' := by
  funext title key default
  unfold numberOr
  rw [single_eq h]

theorem readStrictness_eq (h : SameValues s s') : readStrictness s = readStrictness s' := by
  unfold readStrictness
  rw [textOf_eq h]

theorem readDerivative_eq (h : SameValues s s') : readDerivative s = readDerivative s' := by
  unfold readDerivative readZeroPolicy
  rw [numberOr_eq h, textOf_eq h]

theorem readIntegral_eq (h : SameValues s s') : readIntegral s = readIntegral s' := by
  unfold readIntegral readPieces
  rw [single_eq h, numberOr_eq h, h "method".toList]

theorem readToFile_eq (h : SameValues s s') : readToFile s = readToFile s' := by
  unfold readToFile
  rw [single_eq h]

end Section

/-! ### Documents -/

/-- What is written under a title; nothing where the title is missing. -/
def sectionAt (d : Document α) (title : String) : Section α :=
  (Entries.get? d title.toList).getD []

theorem readPart_eq {β : Type} (d : Document α) (title : String)
    (read : Section α → Except Error β) :
    readPart d title read =
      if isWritten (sectionAt d title) then (read (sectionAt d title)).map some else .ok none := by
  unfold readPart sectionAt
  cases Entries.get? d title.toList with
  | none => rfl
  | some s =>
      rw [Option.getD_some]
      cases hwritten : isWritten s with
      | true => rw [Option.filter_some_pos hwritten, if_pos rfl]
      | false => rw [Option.filter_some_neg (by simp [hwritten]), if_neg Bool.false_ne_true]

theorem sectionAt_of_eq_some {d : Document α} {title : String} {s : Section α}
    (h : Entries.get? d title.toList = some s) : sectionAt d title = s := by
  rw [sectionAt, h, Option.getD_some]

theorem sameValues_sectionAt {d d' : Document α}
    (h : ∀ title key, (valuesAt? d title key).join = (valuesAt? d' title key).join)
    (title : String) : SameValues (sectionAt d title) (sectionAt d' title) := by
  intro key
  rw [sectionAt, sectionAt, Document.get?_getD, Document.get?_getD, h]

theorem nodup_sectionAt {d : Document α} (hd : d.IsMap) (title : String) :
    ((sectionAt d title).map Prod.fst).Nodup := by
  unfold sectionAt
  cases hs : Entries.get? d title.toList with
  | none => exact List.nodup_nil
  | some s => exact hd.keys _ (Entries.mem_of_get?_eq_some hs)

/-! ### Known names -/

theorem nodup_template : (template.map Prod.fst).Nodup := by decide

theorem names_template_iff {title key : Text} :
    Document.Template.Names template title key ↔
      ∃ keys, Entries.get? template title = some keys ∧ key ∈ keys := by
  simp only [Entries.get?_eq_some_iff nodup_template]
  constructor
  · rintro ⟨⟨_, keys⟩, hmem, rfl, hkey⟩
    exact ⟨keys, hmem, hkey⟩
  · rintro ⟨keys, hmem, hkey⟩
    exact ⟨_, hmem, rfl, hkey⟩

theorem unknownName?_eq_none_iff_forall {d : Document α} :
    unknownName? d = none ↔
      ∀ entry ∈ d, ∃ keys, Entries.get? template entry.1 = some keys ∧
        ∀ pair ∈ entry.2, pair.1 ∈ keys := by
  unfold unknownName?
  rw [List.findSome?_eq_none_iff]
  refine forall₂_congr fun entry _ => ?_
  obtain ⟨title, s⟩ := entry
  cases hkeys : Entries.get? template title with
  | none => simp [hkeys]
  | some keys => simp [hkeys]

/-- All titles and keys are those of the template. -/
structure HasKnownNames (d : Document α) : Prop where
  titles : ∀ title, (Entries.get? d title).isSome = true → title ∈ template.map Prod.fst
  keys : ∀ title key, (valuesAt? d title key).isSome = true → Template.Names template title key

theorem unknownName?_eq_none_iff {d : Document α} (hd : d.IsMap) :
    unknownName? d = none ↔ HasKnownNames d := by
  rw [unknownName?_eq_none_iff_forall]
  constructor
  · intro h
    refine ⟨fun title htitle => ?_, fun title key hkey => ?_⟩
    · obtain ⟨s, hs⟩ := Option.isSome_iff_exists.mp htitle
      obtain ⟨keys, hkeys, -⟩ := h _ (Entries.mem_of_get?_eq_some hs)
      exact Entries.isSome_get?_iff.mp (Option.isSome_of_mem hkeys)
    · obtain ⟨values, hvalues⟩ := Option.isSome_iff_exists.mp hkey
      obtain ⟨s, hs, hget⟩ := Option.bind_eq_some_iff.mp hvalues
      obtain ⟨keys, hkeys, hall⟩ := h _ (Entries.mem_of_get?_eq_some hs)
      exact names_template_iff.mpr ⟨keys, hkeys, hall _ (Entries.mem_of_get?_eq_some hget)⟩
  · rintro h ⟨title, s⟩ hmem
    have hs : Entries.get? d title = some s := (Entries.get?_eq_some_iff hd.titles).mpr hmem
    have htitle := Entries.isSome_get?_iff.mpr (h.titles title (Option.isSome_of_mem hs))
    obtain ⟨keys, hkeys⟩ := Option.isSome_iff_exists.mp htitle
    refine ⟨keys, hkeys, fun pair hpair => ?_⟩
    have hget := (Entries.get?_eq_some_iff (hd.keys _ hmem)).mpr hpair
    have hnames := h.keys title pair.1 (by rw [valuesAt?, hs, Option.bind_some, hget]; rfl)
    obtain ⟨keys', hkeys', hkey⟩ := names_template_iff.mp hnames
    rw [hkeys] at hkeys'
    exact Option.some.inj hkeys' ▸ hkey

/-! ### Jobs -/

variable [Scalar α]

/-- Everything in the job is what the document says. -/
structure Reads (d : Document α) (job : Job α) : Prop where
  names : unknownName? d = none
  expression : textOf (sectionAt d "function") "function" "expression" = .ok (some job.expression)
  strictness : readStrictness (sectionAt d "function") = .ok job.strictness
  derivative : readPart d "derivative" readDerivative = .ok job.derivative
  integral : readPart d "integral" readIntegral = .ok job.integral
  logLevel : textOf (sectionAt d "logging") "logging" "loglevel" = .ok job.logLevel
  logToFile : readToFile (sectionAt d "logging") = .ok job.logToFile

theorem bind_eq_ok_iff {ε β γ : Type} {x : Except ε β} {f : β → Except ε γ} {c : γ} :
    (x >>= f) = .ok c ↔ ∃ b, x = .ok b ∧ f b = .ok c := by
  cases x with
  | error error => exact iff_of_false nofun nofun
  | ok b => exact ⟨fun h => ⟨b, rfl, h⟩, fun ⟨_, hb, h⟩ => Except.ok.inj hb ▸ h⟩

/-- Each reader has succeeded, and the job holds what they gave. -/
theorem ofDocument_eq_ok_iff {d : Document α} {job : Job α} :
    ofDocument d = .ok job ↔ Reads d job := by
  unfold ofDocument
  constructor
  · intro h
    cases hnames : unknownName? d with
    | some error =>
        rw [hnames] at h
        cases h
    | none =>
        rw [hnames] at h
        cases hfunction : Entries.get? d "function".toList with
        | none =>
            rw [hfunction] at h
            cases h
        | some function =>
            rw [hfunction] at h
            obtain ⟨written, hwritten, h⟩ := bind_eq_ok_iff.mp h
            cases written with
            | none => cases h
            | some expression =>
                obtain ⟨strictness, hstrictness, h⟩ := bind_eq_ok_iff.mp h
                obtain ⟨derivative, hderivative, h⟩ := bind_eq_ok_iff.mp h
                obtain ⟨integral, hintegral, h⟩ := bind_eq_ok_iff.mp h
                obtain ⟨logLevel, hlogLevel, h⟩ := bind_eq_ok_iff.mp h
                obtain ⟨logToFile, hlogToFile, h⟩ := bind_eq_ok_iff.mp h
                obtain rfl := Except.ok.inj h
                rw [← sectionAt_of_eq_some hfunction] at hwritten hstrictness
                exact ⟨hnames, hwritten, hstrictness, hderivative, hintegral, hlogLevel, hlogToFile⟩
  · intro h
    cases hfunction : Entries.get? d "function".toList with
    | none =>
        have hexpression := h.expression
        rw [sectionAt, hfunction] at hexpression
        cases hexpression
    | some function =>
        have hexpression := h.expression
        have hstrictness := h.strictness
        rw [sectionAt_of_eq_some hfunction] at hexpression hstrictness
        rw [h.names]
        refine bind_eq_ok_iff.mpr ⟨_, hexpression, ?_⟩
        refine bind_eq_ok_iff.mpr ⟨_, hstrictness, ?_⟩
        refine bind_eq_ok_iff.mpr ⟨_, h.derivative, ?_⟩
        refine bind_eq_ok_iff.mpr ⟨_, h.integral, ?_⟩
        refine bind_eq_ok_iff.mpr ⟨_, h.logLevel, ?_⟩
        exact bind_eq_ok_iff.mpr ⟨_, h.logToFile, rfl⟩

theorem Reads.of_sameValues {d d' : Document α} {job : Job α} (h : Reads d job) (hd : d.IsMap)
    (hd' : d'.IsMap) (hnames : HasKnownNames d → HasKnownNames d')
    (hvalues : ∀ title key, (valuesAt? d title key).join = (valuesAt? d' title key).join) :
    Reads d' job := by
  have hsame := sameValues_sectionAt hvalues
  have hpart : ∀ {β : Type} (title : String) (read : Section α → Except Error β),
      read (sectionAt d title) = read (sectionAt d' title) →
        readPart d title read = readPart d' title read := by
    intro β title read hread
    rw [readPart_eq, readPart_eq, hread,
      isWritten_eq (nodup_sectionAt hd title) (nodup_sectionAt hd' title) (hsame title)]
  exact {
    names := (unknownName?_eq_none_iff hd').mpr (hnames ((unknownName?_eq_none_iff hd).mp h.names))
    expression := textOf_eq (hsame "function") ▸ h.expression
    strictness := readStrictness_eq (hsame "function") ▸ h.strictness
    derivative := hpart _ _ (readDerivative_eq (hsame _)) ▸ h.derivative
    integral := hpart _ _ (readIntegral_eq (hsame _)) ▸ h.integral
    logLevel := textOf_eq (hsame "logging") ▸ h.logLevel
    logToFile := readToFile_eq (hsame "logging") ▸ h.logToFile }

/-- **A job is read from the written values.** Documents that agree on them, and on whether all names
are known, give the same job, or none. -/
theorem ofDocument_eq_ok_iff_of_sameValues {d d' : Document α} {job : Job α} (hd : d.IsMap)
    (hd' : d'.IsMap) (hnames : HasKnownNames d ↔ HasKnownNames d')
    (hvalues : ∀ title key, (valuesAt? d title key).join = (valuesAt? d' title key).join) :
    ofDocument d = .ok job ↔ ofDocument d' = .ok job := by
  rw [ofDocument_eq_ok_iff, ofDocument_eq_ok_iff]
  constructor
  · exact fun h => h.of_sameValues hd hd' hnames.mp hvalues
  · exact fun h => h.of_sameValues hd' hd hnames.mpr fun title key => (hvalues title key).symm

end Univariate.Job
