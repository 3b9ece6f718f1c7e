import Mathlib.Data.List.Forall2
import Univariate.Scalar.Binary64
import Univariate.Proofs.Expression.Grammar
import Univariate.Proofs.Summand.Leaves
import Univariate.Proofs.Term.Stars

/-!
# Respelled texts

Respelling a text that strict reading accepts gives one that it accepts too, with as many terms and
the same value everywhere.
-/

namespace Univariate

open Integrand

variable {α : Type} [Scalar α]

namespace WrittenSum

/-- The same sum with other texts for its atoms. -/
def mapBodies (f : Text → Text) : WrittenSum → WrittenSum
  | nil => nil
  | lone sign rest => lone sign (rest.mapBodies f)
  | atom sign body rest => atom sign (f body) (rest.mapBodies f)
  | group sign inner rest => group sign (inner.mapBodies f) (rest.mapBodies f)

theorem isSigned_mapBodies (f : Text → Text) (s : WrittenSum) :
    (s.mapBodies f).IsSigned ↔ s.IsSigned := by
  cases s <;> exact Iff.rfl

theorem atoms_mapBodies (f : Text → Text) (s : WrittenSum) (outer : List Sign) :
    (s.mapBodies f).atoms outer = (s.atoms outer).map fun atom => (atom.1, f atom.2) := by
  induction s generalizing outer with
  | nil => rfl
  | lone sign rest ih => exact ih outer
  | atom sign body rest ih => exact congrArg (_ :: ·) (ih outer)
  | group sign inner rest ihinner ihrest =>
      rw [mapBodies, atoms, atoms, ihinner, ihrest, List.map_append]

theorem head?_text_ne_star {s : WrittenSum} (h : s.IsSigned) : s.text.head? ≠ some '*' := by
  rcases text_eq_nil_or_startsSigned h with hnil | hstarts
  · rw [hnil]
    exact nofun
  · intro hstar
    obtain ⟨rest, hrest⟩ := List.head?_eq_some_iff.mp hstar
    rw [hrest] at hstarts
    cases hstarts

theorem caretsForStars_sign_append (sign : Option Sign) (t : Text) :
    caretsForStars (Sign.text sign ++ t) = Sign.text sign ++ caretsForStars t := by
  cases sign with
  | none => rfl
  | some sign => cases sign <;> exact caretsForStars_cons_of_ne (by decide) t

/-- No stars meet between the items of a sum. -/
theorem text_mapBodies_caretsForStars {s : WrittenSum} (h : s.IsWellFormed α) :
    (s.mapBodies caretsForStars).text = caretsForStars s.text := by
  induction s with
  | nil => rfl
  | lone sign rest ih =>
      change sign.char :: (rest.mapBodies caretsForStars).text = _
      rw [ih h.2]
      exact (caretsForStars_sign_append (some sign) rest.text).symm
  | atom sign body rest ih =>
      obtain ⟨-, -, hsigned, hrest⟩ := h
      rw [text, caretsForStars_append _ (head?_text_ne_star hsigned), caretsForStars_sign_append,
        ← ih hrest]
      rfl
  | group sign inner rest ihinner ihrest =>
      obtain ⟨hinner, hsigned, hrest⟩ := h
      have hgroup : caretsForStars ('(' :: (inner.text ++ [')'])) =
          '(' :: (caretsForStars inner.text ++ [')']) := by
        rw [caretsForStars_cons_of_ne (by decide),
          caretsForStars_append inner.text (v := [')']) (by decide)]
        rfl
      rw [text, caretsForStars_append _ (head?_text_ne_star hsigned), caretsForStars_sign_append,
        hgroup, ← ihinner hinner, ← ihrest hrest]
      rfl

theorem isWellFormed_mapBodies_caretsForStars {s : WrittenSum} (h : s.IsWellFormed α)
    (hblanks : s.text.NoBlanks) : (s.mapBodies caretsForStars).IsWellFormed α := by
  induction s with
  | nil => trivial
  | lone sign rest ih =>
      obtain ⟨hsigned, hrest⟩ := h
      exact ⟨(isSigned_mapBodies _ rest).mpr hsigned, ih hrest (Text.noBlanks_cons.mp hblanks).2⟩
  | atom sign body rest ih =>
      obtain ⟨hatom, hcaret, hsigned, hrest⟩ := h
      obtain ⟨hhead, hblanks⟩ := Text.noBlanks_append.mp hblanks
      have hbody := (Text.noBlanks_append.mp hhead).2
      refine ⟨hatom.caretsForStars hbody, fun hlast => ?_, (isSigned_mapBodies _ rest).mpr hsigned,
        ih hrest hblanks⟩
      rw [hcaret (hatom.getLast?_of_caretsForStars hbody hlast)]
      rfl
  | group sign inner rest ihinner ihrest =>
      obtain ⟨hinner, hsigned, hrest⟩ := h
      obtain ⟨hhead, hblanks⟩ := Text.noBlanks_append.mp hblanks
      exact ⟨ihinner hinner (noBlanks_of_group hhead), (isSigned_mapBodies _ rest).mpr hsigned,
        ihrest hrest hblanks⟩

theorem alike_terms_mapBodies_caretsForStars {s : WrittenSum} (h : s.IsWellFormed α)
    (hblanks : s.text.NoBlanks) :
    List.Forall₂ Term.Alike (s.mapBodies caretsForStars).terms (s.terms : List (Term α)) := by
  unfold terms
  rw [atoms_mapBodies, List.map_map, List.forall₂_map_left_iff, List.forall₂_map_right_iff,
    List.forall₂_same]
  intro atom hatom
  obtain ⟨hbody, hblanksBody⟩ := isAtom_of_mem_atoms h hblanks hatom
  exact (hbody.alike_caretsForStars hblanksBody).scaled _

end WrittenSum

/-! ### Bare exponentials -/

theorem Coefficient.mem_span {isDigit : Char → Bool} {t : Text} {c : Char}
    (h : c ∈ (span isDigit t).1) : Summand.isSign c = true ∨ isDigit c = true ∨ c = '.' := by
  have hunsigned : ∀ {t : Text}, c ∈ (spanUnsigned isDigit t).1 → isDigit c = true ∨ c = '.' := by
    intro t hc
    unfold spanUnsigned at hc
    split at hc
    · rcases List.mem_append.mp hc with hc | hc
      · exact Or.inl (List.mem_takeWhile_imp hc)
      · rcases List.mem_cons.mp hc with rfl | hc
        · exact Or.inr rfl
        · exact Or.inl (List.mem_takeWhile_imp hc)
    · exact Or.inl (List.mem_takeWhile_imp hc)
  cases t with
  | nil => cases h
  | cons d t =>
      rw [span_cons] at h
      split at h
      · next hsign =>
          rcases List.mem_cons.mp h with rfl | h
          · exact Or.inl hsign
          · exact Or.inr (hunsigned h)
      · exact Or.inr (hunsigned h)

namespace Term

theorem mem_of_ofTail? {c : α} {tail : Text} {t : Term α} (h : ofTail? c tail = some t) :
    'x' ∈ tail ∨ '^' ∈ tail := by
  unfold ofTail? at h
  split at h <;> simp at h ⊢

/-- Without a variable and without `^` there is only a number. -/
theorem mem_of_ofTrimmed? {t : Text} {term : Term α} (h : ofTrimmed? t = some term) :
    isSignedNumber t = true ∨ 'x' ∈ t ∨ '^' ∈ t := by
  unfold ofTrimmed? at h
  split at h
  · next hnumber => exact Or.inl hnumber
  · obtain ⟨c, -, hterm⟩ := Option.bind_eq_some_iff.mp h
    have htail : ∀ b ∈ (Coefficient.span Char.isDigit t).2, b ∈ t := by
      intro b hb
      rw [← Coefficient.append_span Char.isDigit t]
      exact List.mem_append_right _ hb
    exact Or.inr ((mem_of_ofTail? hterm).imp (htail _) (htail _))

end Term

namespace Integrand

open Summand

theorem eq_of_mem_of_isBareExponential {piece : Text} (h : isBareExponential piece = true)
    {c : Char} (hc : c ∈ piece) :
    isSign c = true ∨ Text.isDecimalDigit c = true ∨ c = '.' ∨ c = 'e' := by
  have htail : (Coefficient.span Text.isDecimalDigit piece).2 = ['e'] := by
    simpa [isBareExponential] using h
  rw [← Coefficient.append_span Text.isDecimalDigit piece, htail] at hc
  rcases List.mem_append.mp hc with hc | hc
  · rcases Coefficient.mem_span hc with hc | hc | hc
    · exact Or.inl hc
    · exact Or.inr (.inl hc)
    · exact Or.inr (.inr (.inl hc))
  · exact Or.inr (.inr (.inr (List.mem_singleton.mp hc)))

theorem e_mem_of_isBareExponential {piece : Text} (h : isBareExponential piece = true) :
    'e' ∈ piece := by
  have htail : (Coefficient.span Text.isDecimalDigit piece).2 = ['e'] := by
    simpa [isBareExponential] using h
  rw [← Coefficient.append_span Text.isDecimalDigit piece, htail]
  exact List.mem_append_right _ List.mem_cons_self

theorem flatMap_completeExponential_split {t : Text}
    (h : ∀ piece ∈ split t, isBareExponential piece = false) :
    (split t).flatMap completeExponential = t := by
  have hpieces : ∀ piece ∈ split t, completeExponential piece = piece := by
    intro piece hpiece
    apply if_neg
    rw [h piece hpiece]
    exact Bool.false_ne_true
  rw [List.flatMap_congr hpieces]
  exact List.flatMap_id'.trans (flatten_split t)

/-- Without stars in pairs and bare exponentials only the blanks are removed. -/
theorem respell_eq_withoutBlanks {t : Text} (hstars : ¬['*', '*'] <:+: t.withoutBlanks)
    (hbare : ∀ piece ∈ Expression.pieces t, isBareExponential piece = false) :
    respell t = t.withoutBlanks := by
  rw [respell, caretsForStars_of_not_infix hstars]
  exact flatMap_completeExponential_split hbare

theorem not_mem_of_isBareExponential {piece : Text} (h : isBareExponential piece = true) {c : Char}
    (hc : ¬(isSign c = true ∨ Text.isDecimalDigit c = true ∨ c = '.' ∨ c = 'e')) : c ∉ piece :=
  fun hmem => hc (eq_of_mem_of_isBareExponential h hmem)

theorem isBareExponential_sign_append (sign : Option Sign) {body : Text}
    (h : startsSigned body = false) :
    isBareExponential (Sign.text sign ++ body) = isBareExponential body := by
  cases sign with
  | none => rfl
  | some sign =>
      change ((Coefficient.span Text.isDecimalDigit (sign.char :: body)).2 == ['e']) = _
      rw [Coefficient.span_cons, if_pos sign.isSign_char, isBareExponential,
        Coefficient.span_of_not_startsSigned _ h]

/-- What is still to be completed is of no known shape. -/
theorem isUnrecognized_of_isBareExponential {body : Text} (hbody : IsBody body)
    (h : isBareExponential body = true) : (Term.ofText body : Term α).isUnrecognized = true := by
  by_contra hrecognized
  rw [Bool.not_eq_true] at hrecognized
  have hatom : Term.IsAtom α body := ⟨hrecognized, hbody.unsigned⟩
  obtain ⟨term, hterm⟩ := hatom.exists_ofTrimmed?_eq hbody.noBlanks
  rcases Term.mem_of_ofTrimmed? hterm with hnumber | hvariable | hexponent
  · exact not_mem_of_isSignedNumber hnumber (by decide) (e_mem_of_isBareExponential h)
  · exact not_mem_of_isBareExponential h (by decide) hvariable
  · exact not_mem_of_isBareExponential h (by decide) hexponent

/-- Behind its sign a bare exponential is a leaf. -/
theorem exists_mem_leaves_of_isBareExponential {piece : Text} (hpiece : IsPiece piece)
    (hblanks : piece.NoBlanks) (h : isBareExponential piece = true) (outer : α) :
    ∃ leaf ∈ leaves outer piece, isBareExponential leaf.2 = true := by
  obtain ⟨sign, body, rfl, hbody⟩ := WrittenSum.exists_sign_append hpiece
  rw [isBareExponential_sign_append sign hbody] at h
  refine ⟨(outer * (sign.getD .plus).factor, body), mem_leaves_iff.mpr (Or.inr ?_), h⟩
  rw [takeSign_append hblanks hbody]
  have hgroup : Text.groupInterior? body = none :=
    Text.groupInterior?_of_not_mem (not_mem_of_isBareExponential h (by decide))
  exact ⟨hgroup, List.ne_nil_of_mem (e_mem_of_isBareExponential h), rfl⟩

theorem isBareExponential_eq_false {piece : Text} (hpiece : IsPiece piece)
    (hblanks : piece.NoBlanks)
    (h : ∀ leaf ∈ leaves (1 : α) piece, (Term.ofText leaf.2 : Term α).isUnrecognized = false) :
    isBareExponential piece = false := by
  rw [Bool.eq_false_iff]
  intro hbare
  obtain ⟨leaf, hleaf, hbareLeaf⟩ :=
    exists_mem_leaves_of_isBareExponential hpiece hblanks hbare (1 : α)
  have hrecognized := h leaf hleaf
  rw [isUnrecognized_of_isBareExponential (isBody_of_mem_leaves hpiece hblanks hleaf) hbareLeaf]
    at hrecognized
  cases hrecognized

end Integrand

namespace Expression

/-- Nothing is left to complete in a text that strict reading accepts. -/
theorem isBareExponential_eq_false_of_mem_split {t : Text} (ht : t.NoBlanks) {e : Expression α}
    (h : ofTextStrict t = .ok e) {piece : Text} (hpiece : piece ∈ Summand.split t) :
    isBareExponential piece = false := by
  obtain ⟨-, hrecognized, rfl⟩ := ofTextStrict_eq_ok.mp h
  apply isBareExponential_eq_false (α := α) (Summand.isPiece_of_mem_split hpiece)
    (Summand.noBlanks_of_mem_split ht hpiece)
  intro leaf hleaf
  have hexpand : leaf ∈ Summand.expand (pieces t) := by
    rw [pieces, ht.withoutBlanks_eq]
    exact List.mem_flatMap.mpr ⟨piece, hpiece, hleaf⟩
  rw [← Term.isUnrecognized_scaled _ leaf.1]
  exact hrecognized _ (List.mem_map_of_mem hexpand)

/-- **Respelling keeps what was understood.** -/
theorem exists_ofTextStrict_respell {t : Text} {e : Expression α} (h : ofTextStrict t = .ok e) :
    respell t = caretsForStars t.withoutBlanks ∧
      ∃ e' : Expression α, ofTextStrict (respell t) = .ok e' ∧
        List.Forall₂ Term.Alike e'.terms e.terms := by
  obtain ⟨s, hs, htext, hterms⟩ := exists_writtenSum_of_ofTextStrict h
  have hblanks : s.text.NoBlanks := htext ▸ Text.noBlanks_withoutBlanks t
  have hblanks' := noBlanks_caretsForStars hblanks
  have hread : ofTextStrict (caretsForStars s.text) =
      .ok (⟨(s.mapBodies caretsForStars).terms⟩ : Expression α) :=
    ofTextStrict_of_writtenSum (WrittenSum.isWellFormed_mapBodies_caretsForStars hs hblanks)
      ((WrittenSum.text_mapBodies_caretsForStars hs).trans hblanks'.withoutBlanks_eq.symm)
  have hrespell : respell t = caretsForStars t.withoutBlanks := by
    rw [respell, ← htext]
    exact flatMap_completeExponential_split fun _ =>
      isBareExponential_eq_false_of_mem_split hblanks' hread
  refine ⟨hrespell, ⟨(s.mapBodies caretsForStars).terms⟩, ?_, ?_⟩
  · rw [hrespell, ← htext, hread]
  · rw [hterms]
    exact WrittenSum.alike_terms_mapBodies_caretsForStars hs hblanks

theorem eval_eq_of_alike {e e' : Expression α} (h : List.Forall₂ Term.Alike e'.terms e.terms)
    (x : α) : e'.eval x = e.eval x := by
  have hvalues : List.Forall₂ (· = ·) (e'.terms.map (·.eval x)) (e.terms.map (·.eval x)) := by
    rw [List.forall₂_map_left_iff, List.forall₂_map_right_iff]
    exact h.imp fun _ _ halike => halike.eval_eq x
  exact congrArg Scalar.sum (List.forall₂_eq_eq_eq ▸ hvalues)

/-- **Respelling changes no function that was understood**, and where no two stars are next to each
other it changes the text no more than by its blanks. -/
theorem ofTextStrict_respell_agrees {t : Text} {e : Expression α} (h : ofTextStrict t = .ok e) :
    (∃ e' : Expression α, ofTextStrict (respell t) = .ok e' ∧
        e'.terms.length = e.terms.length ∧ ∀ x, e'.eval x = e.eval x) ∧
      (¬['*', '*'] <:+: t.withoutBlanks → respell t = t.withoutBlanks) := by
  obtain ⟨hrespell, e', he', halike⟩ := exists_ofTextStrict_respell h
  constructor
  · exact ⟨e', he', halike.length_eq, eval_eq_of_alike halike⟩
  · intro hstars
    rw [hrespell, caretsForStars_of_not_infix hstars]

/-- The argument keeps its text, with stars in it or a caret, and so the terms are not the same. -/
theorem ofTextStrict_respell_agrees_argument :
    let t : Text := "3x - (e^(2**x) + 1)".toList
    let u : Text := "3x - (e^(2*x) + 1)".toList
    (∃ e e' : Expression Float, ofTextStrict t = .ok e ∧ ofTextStrict (respell t) = .ok e' ∧
        e' ≠ e ∧ e'.terms.length = 3 ∧ ∀ x, e'.eval x = e.eval x) ∧
      (∃ e : Expression Float, ofTextStrict u = .ok e) ∧ respell u = "3x-(e^(2*x)+1)".toList := by
  intro t u
  have ht : ofTextStrict t = .ok (ofText t : Expression Float) := by decide +kernel
  have hu : ofTextStrict u = .ok (ofText u : Expression Float) := by decide +kernel
  obtain ⟨⟨e', he', hlength, hvalues⟩, -⟩ := ofTextStrict_respell_agrees ht
  obtain ⟨-, hsame⟩ := ofTextStrict_respell_agrees hu
  have hne : ofTextStrict (respell t) ≠ .ok (ofText t : Expression Float) := by decide +kernel
  refine ⟨⟨_, e', ht, he', ?_, hlength.trans (by decide +kernel), hvalues⟩, ⟨_, hu⟩, ?_⟩
  · rintro rfl
    exact hne he'
  · apply hsame
    decide +kernel

end Expression

end Univariate
