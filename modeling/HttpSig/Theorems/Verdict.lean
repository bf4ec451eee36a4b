import HttpSig.Theorems.Verification

/-! The verdict of one key on one message, case by case: a panic on some label it is asked about, the first label it
selects, or a refusal that says whether it was asked about any. -/

namespace HttpSig
open Rust Sfv Http

section
variable {κ : Type} [VerifyingKey κ]

/-- A label that the key is asked about and panics on. -/
def PanicsOn (key : κ) (keyId : Option Text) (now : UInt64) (e : SignatureName × (HttpSignatureBase × HttpSignatureHeaders)) : Prop :=
  hasKeyId keyId e.2.1 = true ∧ e.2.1.verifySignatureHeaders key e.2.2 now = .panic

/-- Why a key names no label: it is asked about none, or accepts none. -/
def refusal (map : SignatureMap) (keyId : Option Text) : HyperSigError :=
  if (filterKeyId map keyId).isEmpty then
    .noSignatureHeaders "No signature as appropriate target for verification".toList
  else
    .invalidSignature "Invalid signature for the verifying key".toList

variable {map : SignatureMap} {key : κ} {keyId : Option Text} {now : UInt64}

theorem verifyWithKey_eq_error {e : HyperSigError} (h : verifyWithKey map now key keyId = .ok (.error e)) :
    e = refusal map keyId := by
  rw [verifyWithKey] at h
  rw [refusal]
  split at h
  · rename_i hemp
    cases h
    rw [if_pos hemp]
  · rename_i hemp
    obtain ⟨names, -, h⟩ := Outcome.bind_eq_ok.mp h
    split at h
    · cases h
    · cases h
      rw [if_neg hemp]

/-- Without a panic the verdict is the first label that is selected, or the refusal. -/
theorem verifyWithKey_of_forall (hno : ∀ e ∈ map.entries, ¬ PanicsOn key keyId now e) :
    verifyWithKey map now key keyId =
      .ok (((map.entries.find? (selects key keyId now)).map Prod.fst).elim (.error (refusal map keyId)) .ok) := by
  cases hr : verifyWithKey map now key keyId with
  | ok r =>
    have hname := verifyWithKey_eq_ok hr
    cases r with
    | ok name =>
      rw [(hname name).mp rfl]
      rfl
    | error e =>
      cases hfind : (map.entries.find? (selects key keyId now)).map Prod.fst with
      | none =>
        rw [verifyWithKey_eq_error hr]
        rfl
      | some name => cases (hname name).mpr hfind
  | err e => exact absurd hr (verifyWithKey_ne_err (k := (key, keyId)) e)
  | panic =>
    obtain ⟨e, he, hpanic⟩ := verifyWithKey_eq_panic.mp hr
    exact absurd hpanic (hno e he)

namespace Message
variable {β γ : Type} {m : Message β γ}

/-- What is asked of a single key. -/
theorem verifyMessageSignature_of_ok (h : m.extractSignatures = .ok map) : m.verifyMessageSignature key keyId now =
    verifyWithKey map now key keyId >>= fun r => popResult [r] := by
  rw [verifyMessageSignature_eq, verifyMessageSignatures_of_ok h, verifyMessageSignaturesInner, List.mapM_cons,
    List.mapM_nil]
  cases verifyWithKey map now key keyId <;> rfl

theorem verifyMessageSignature_panic_iff (h : m.extractSignatures = .ok map) :
    m.verifyMessageSignature key keyId now = .panic ↔ ∃ e ∈ map.entries, PanicsOn key keyId now e := by
  rw [verifyMessageSignature_of_ok h, Outcome.bind_eq_panic, or_iff_left]
  · exact verifyWithKey_eq_panic
  · rintro ⟨r, -, hr⟩
    cases r <;> cases hr

theorem verifyMessageSignature_of_forall (h : m.extractSignatures = .ok map) (hno : ∀ e ∈ map.entries, ¬ PanicsOn key keyId now e) :
    m.verifyMessageSignature key keyId now =
      ((map.entries.find? (selects key keyId now)).map Prod.fst).elim (.err (refusal map keyId)) .ok := by
  rw [verifyMessageSignature_of_ok h, verifyWithKey_of_forall hno, Outcome.ok_bind]
  cases (map.entries.find? (selects key keyId now)).map Prod.fst <;> rfl

/-- A key is asked about no label exactly when none of those that were extracted bears the key id. -/
theorem verifyMessageSignature_eq_noTarget (h : m.extractSignatures = .ok map) :
    m.verifyMessageSignature key keyId now =
        .err (.noSignatureHeaders "No signature as appropriate target for verification".toList) ↔
      ∀ e ∈ map.entries, hasKeyId keyId e.2.1 = false := by
  have hfilter : filterKeyId map keyId = [] ↔ ∀ e ∈ map.entries, hasKeyId keyId e.2.1 = false := by
    rw [filterKeyId_eq, List.filter_eq_nil_iff]
    simp only [Bool.not_eq_true]
  rw [← hfilter]
  constructor
  · intro herr
    rw [verifyMessageSignature_of_ok h] at herr
    cases hr : verifyWithKey map now key keyId with
    | ok r =>
      rw [hr] at herr
      cases r with
      | ok name => cases herr
      | error e =>
        cases herr
        have hrefusal := verifyWithKey_eq_error hr
        by_contra hne
        rw [refusal, if_neg (by simpa using hne)] at hrefusal
        cases hrefusal
    | err e => exact absurd hr (verifyWithKey_ne_err (k := (key, keyId)) e)
    | panic =>
      rw [hr] at herr
      cases herr
  · intro hnil
    rw [verifyMessageSignature_of_ok h, verifyWithKey, hnil]
    rfl

/-- What is not extracted is refused or panics whatever the key and the time. -/
theorem verifyMessageSignature_of_unread (key : κ) (keyId : Option Text) (h : ∀ map, m.extractSignatures ≠ .ok map) :
    (∀ now, m.verifyMessageSignature key keyId now = .panic) ∨ ∃ e, ∀ now, m.verifyMessageSignature key keyId now = .err e := by
  cases hm : m.extractSignatures with
  | ok map => exact absurd hm (h map)
  | panic =>
    refine Or.inl fun now => ?_
    rw [verifyMessageSignature_eq, verifyMessageSignatures_of_panic hm]
    rfl
  | err e =>
    rw [extractSignatures_eq] at hm
    by_cases hhas : hasMessageSignatureInner m.message.headers
    · refine Or.inr ⟨e, fun now => ?_⟩
      rw [verifyMessageSignature_eq, verifyMessageSignatures_eq, verifyMessageSignaturesOf, hhas, hm]
      rfl
    · rw [Bool.not_eq_true] at hhas
      refine Or.inr ⟨.noSignatureHeaders ("The ".toList ++ m.kind ++
        " does not have signature and signature-input headers".toList), fun now => ?_⟩
      rw [verifyMessageSignature_eq, verifyMessageSignatures_eq, verifyMessageSignaturesOf, hhas]
      rfl

/-- The order of the signatures decides at most which label is named. -/
theorem verifyMessageSignature_perm {m' : Message β γ} {map' : SignatureMap} (hm : m.extractSignatures = .ok map)
    (hm' : m'.extractSignatures = .ok map') (hperm : map.entries.Perm map'.entries) :
    (fun _ => ()) <$> m.verifyMessageSignature key keyId now = (fun _ => ()) <$> m'.verifyMessageSignature key keyId now := by
  by_cases hpanic : ∃ e ∈ map.entries, PanicsOn key keyId now e
  · obtain ⟨e, he, hp⟩ := hpanic
    rw [(verifyMessageSignature_panic_iff hm).mpr ⟨e, he, hp⟩,
      (verifyMessageSignature_panic_iff hm').mpr ⟨e, hperm.mem_iff.mp he, hp⟩]
  · have hno : ∀ e ∈ map.entries, ¬ PanicsOn key keyId now e := fun e he hp => hpanic ⟨e, he, hp⟩
    have hno' : ∀ e ∈ map'.entries, ¬ PanicsOn key keyId now e := fun e he => hno e (hperm.mem_iff.mpr he)
    have hrefusal : refusal map keyId = refusal map' keyId := by
      rw [refusal, refusal, filterKeyId_eq, filterKeyId_eq, (hperm.filter _).isEmpty_eq]
    have hfound : (map.entries.find? (selects key keyId now)).isSome = (map'.entries.find? (selects key keyId now)).isSome := by
      rw [Bool.eq_iff_iff, List.find?_isSome, List.find?_isSome]
      exact exists_congr fun e => and_congr_left' hperm.mem_iff
    rw [verifyMessageSignature_of_forall hm hno, verifyMessageSignature_of_forall hm' hno', hrefusal]
    cases hfind : map.entries.find? (selects key keyId now) <;> cases hfind' : map'.entries.find? (selects key keyId now)
    · rfl
    · rw [hfind, hfind'] at hfound
      cases hfound
    · rw [hfind, hfind'] at hfound
      cases hfound
    · rfl

end Message
end
end HttpSig
