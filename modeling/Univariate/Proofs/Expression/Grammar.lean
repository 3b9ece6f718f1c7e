import Univariate.Proofs.Summand.WrittenSum
import Univariate.Proofs.Term.Reading

/-!
# The language of strict reading

Strict reading accepts exactly the written sums, and the terms it gives are their atoms.
-/

namespace Univariate

variable {α : Type} [Scalar α]

theorem Term.isUnrecognized_scaled (t : Term α) (factor : α) :
    (t.scaled factor).isUnrecognized = t.isUnrecognized := by
  cases t with
  | unrecognized raw =>
      unfold scaled
      dsimp only
      by_cases hfactor : factor < 0
      · rw [if_pos hfactor]
        split <;> rfl
      · rw [if_neg hfactor]
  | _ => rfl

namespace Expression

theorem firstUnrecognized?_eq_none_iff {e : Expression α} :
    e.firstUnrecognized? = none ↔ ∀ t ∈ e.terms, t.isUnrecognized = false := by
  have hfind : e.firstUnrecognized? = none ↔
      e.terms.zipIdx.find? (·.1.isUnrecognized) = none := by
    unfold firstUnrecognized?
    cases e.terms.zipIdx.find? (·.1.isUnrecognized) <;> simp
  rw [hfind, List.find?_eq_none]
  constructor
  · intro h t ht
    obtain ⟨position, hposition, rfl⟩ := List.getElem_of_mem ht
    simpa using h (e.terms[position], position) (by simp [List.mem_zipIdx_iff_getElem?])
  · intro h indexed hindexed
    simpa using h indexed.1 (List.fst_mem_of_mem_zipIdx hindexed)

theorem ofTextStrict_eq_ok {t : Text} {e : Expression α} :
    ofTextStrict t = .ok e ↔
      t.withoutBlanks.balanced = true ∧ (∀ term ∈ e.terms, term.isUnrecognized = false) ∧
        ofText t = e := by
  unfold ofTextStrict
  split
  · next hbalanced =>
      dsimp only
      rw [← firstUnrecognized?_eq_none_iff]
      constructor
      · intro h
        split at h
        · simp at h
        · next hnone =>
            cases h
            exact ⟨hbalanced, hnone, rfl⟩
      · rintro ⟨-, hnone, rfl⟩
        rw [hnone]
  · next hunbalanced => simp [hunbalanced]

theorem terms_ofText {t : Text} {s : WrittenSum} (hs : s.IsWellFormed α)
    (htext : s.text = t.withoutBlanks) : (ofText t : Expression α).terms = s.terms := by
  have hblanks : s.text.NoBlanks := htext ▸ Text.noBlanks_withoutBlanks t
  have hleaves := WrittenSum.flatMap_leaves_split hs hblanks []
  change ((Summand.split t.withoutBlanks).flatMap (Summand.leaves (Sign.product [] : α))).map _ = _
  rw [← htext, hleaves, List.map_map]
  rfl

end Expression

namespace WrittenSum

theorem isAtom_of_mem_atoms {s : WrittenSum} (hs : s.IsWellFormed α) (hblanks : s.text.NoBlanks)
    {outer : List Sign} {atom : List Sign × Text} (h : atom ∈ s.atoms outer) :
    Term.IsAtom α atom.2 ∧ atom.2.NoBlanks := by
  induction s generalizing outer with
  | nil => cases h
  | lone sign rest ih => exact ih hs.2 (Text.noBlanks_cons.mp hblanks).2 h
  | atom sign body rest ih =>
      obtain ⟨hbody, -, -, hrest⟩ := hs
      obtain ⟨hblanksHead, hblanksRest⟩ := Text.noBlanks_append.mp hblanks
      rcases List.mem_cons.mp h with rfl | h
      · exact ⟨hbody, (Text.noBlanks_append.mp hblanksHead).2⟩
      · exact ih hrest hblanksRest h
  | group sign inner rest ihinner ihrest =>
      obtain ⟨hinner, -, hrest⟩ := hs
      obtain ⟨hblanksHead, hblanksRest⟩ := Text.noBlanks_append.mp hblanks
      rcases List.mem_append.mp h with h | h
      · exact ihinner hinner (noBlanks_of_group hblanksHead) h
      · exact ihrest hrest hblanksRest h

theorem isRead_of_mem_terms {s : WrittenSum} (hs : s.IsWellFormed α) (hblanks : s.text.NoBlanks)
    {term : Term α} (h : term ∈ s.terms) : term.IsRead := by
  obtain ⟨atom, hatom, rfl⟩ := List.mem_map.mp h
  obtain ⟨hbody, hblanksBody⟩ := isAtom_of_mem_atoms hs hblanks hatom
  exact (Term.isRead_ofText hblanksBody hbody.recognized).scaled _

end WrittenSum

namespace Expression

theorem ofTextStrict_of_writtenSum {t : Text} {s : WrittenSum} (hs : s.IsWellFormed α)
    (htext : s.text = t.withoutBlanks) : ofTextStrict t = .ok (⟨s.terms⟩ : Expression α) := by
  have hblanks : s.text.NoBlanks := htext ▸ Text.noBlanks_withoutBlanks t
  refine ofTextStrict_eq_ok.mpr ⟨?_, ?_, ?_⟩
  · rw [← htext]
    exact Text.balanced_iff.mpr (WrittenSum.closes_text hs hblanks)
  · exact fun term hterm => (WrittenSum.isRead_of_mem_terms hs hblanks hterm).isUnrecognized_eq
  · exact congrArg Expression.mk (terms_ofText hs htext)

theorem exists_writtenSum_of_ofTextStrict {t : Text} {e : Expression α}
    (h : ofTextStrict t = .ok e) :
    ∃ s : WrittenSum, s.IsWellFormed α ∧ s.text = t.withoutBlanks ∧ e.terms = s.terms := by
  obtain ⟨-, hrecognized, rfl⟩ := ofTextStrict_eq_ok.mp h
  have hleaves : ∀ leaf ∈ (Summand.split t.withoutBlanks).flatMap (Summand.leaves (1 : α)),
      (Term.ofText leaf.2 : Term α).isUnrecognized = false := by
    intro leaf hleaf
    rw [← Term.isUnrecognized_scaled _ leaf.1]
    exact hrecognized _ (List.mem_map_of_mem hleaf)
  obtain ⟨s, hs, htext⟩ :=
    WrittenSum.exists_text_eq (Text.noBlanks_withoutBlanks t) (1 : α) hleaves
  exact ⟨s, hs, htext, terms_ofText hs htext⟩

theorem isRead_of_ofTextStrict {t : Text} {e : Expression α} (h : ofTextStrict t = .ok e) :
    ∀ term ∈ e.terms, term.IsRead := by
  obtain ⟨s, hs, htext, hterms⟩ := exists_writtenSum_of_ofTextStrict h
  intro term hterm
  rw [hterms] at hterm
  exact WrittenSum.isRead_of_mem_terms hs (htext ▸ Text.noBlanks_withoutBlanks t) hterm

/-- **The grammar of sums.** Strict reading succeeds exactly on the texts that are written sums when
their blanks are removed, and gives the atoms of the sum from left to right, each scaled by the
product of its signs. -/
theorem ofTextStrict_eq_ok_iff_writtenSum (t : Text) (e : Expression α) :
    ofTextStrict t = .ok e ↔
      ∃ s : WrittenSum, s.IsWellFormed α ∧ s.text = t.withoutBlanks ∧ e.terms = s.terms := by
  constructor
  · exact exists_writtenSum_of_ofTextStrict
  · rintro ⟨s, hs, htext, hterms⟩
    rw [ofTextStrict_of_writtenSum hs htext, ← hterms]

end Expression

end Univariate
