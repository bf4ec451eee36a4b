import HttpSig.MessageComponent
import HttpSig.Sfv.Reprint

/-! The normal form of `sf`. A printed dictionary of flags is a list as well, and the second time it is read as one;
it is printed alike from there, so that the normal form of a normal form is itself. -/

namespace HttpSig
open Rust Sfv

/-- What a line is printed as is a printed list or a printed dictionary. -/
theorem printed_of_reserialize {v t : Text} (h : reserialize v = .ok t) :
    (∃ l, serializeList l = some t) ∨ ∃ d, serializeDictionary d = some t := by
  unfold reserialize at h
  split at h
  · exact Or.inl ⟨_, Outcome.okOr_eq_ok.mp h⟩
  · split at h
    · exact Or.inr ⟨_, Outcome.okOr_eq_ok.mp h⟩
    · cases h

/-- The lines that stay as they are: printed lists and printed dictionaries. -/
theorem reserialize_eq_self_iff {t : Text} :
    reserialize t = .ok t ↔ (∃ l, serializeList l = some t) ∨ ∃ d, serializeDictionary d = some t := by
  refine ⟨printed_of_reserialize, ?_⟩
  rintro (⟨l, hl⟩ | ⟨d, hd⟩)
  · rw [reserialize, parseListField_serializeList hl]
    exact Outcome.okOr_eq_ok.mpr hl
  · rw [reserialize]
    cases hl : parseListField t with
    | none =>
      rw [parseDictionaryField_serializeDictionary hd]
      exact Outcome.okOr_eq_ok.mpr hd
    | some l => exact Outcome.okOr_eq_ok.mpr (serializeList_of_serializeDictionary hd hl)

/-- A line that was printed again is printed as it is, whichever of the two it is read as. -/
theorem reserialize_idempotent {v t : Text} (h : reserialize v = .ok t) : reserialize t = .ok t :=
  reserialize_eq_self_iff.mpr (printed_of_reserialize h)

/-- Normalising lines that `sf` has made changes nothing. -/
theorem handleParamsSf_idempotent {vs ws : List Text} (h : handleParamsSf vs = .ok ws) : handleParamsSf ws = .ok ws := by
  rw [handleParamsSf, Outcome.mapM_eq_ok] at h ⊢
  rw [List.forall₂_same]
  intro w hw
  obtain ⟨v, -, hv⟩ := Outcome.exists_of_mem_right h hw
  exact reserialize_idempotent hv

/-- A line that is no list at first, and one the second time. -/
theorem flagLine_twice : parseListField "a=?1, b;x".toList = none ∧ handleParamsSf ["a=?1, b;x".toList] = .ok ["a, b;x".toList] ∧
    parseListField "a, b;x".toList ≠ none ∧ handleParamsSf ["a, b;x".toList] = .ok ["a, b;x".toList] := by
  have hfirst : handleParamsSf ["a=?1, b;x".toList] = .ok ["a, b;x".toList] := by decide
  exact ⟨by decide, hfirst, by decide, handleParamsSf_idempotent hfirst⟩

end HttpSig
