import HttpSig.Theorems.Acceptance
import HttpSig.Theorems.Verdict

/-! What the calls that read signatures tell of one message. All of them read one map, and none of them knows more or less
of it than the others; verification is asked about what they tell. -/

namespace HttpSig
open Rust Sfv Http

namespace Message
variable {β γ : Type} (m : Message β γ)

/-- What is read of the signature headers, label by label. -/
def readHeaders : HyperSigResult (List (SignatureName × HttpSignatureHeaders)) :=
  IndexMap.entries <$> extractSignatureHeadersWithName m.message

theorem entries_getSignatureParams : IndexMap.entries <$> m.getSignatureParams =
    (List.map fun e => (e.1, e.2.signatureParams)) <$> m.readHeaders := by
  rw [getSignatureParams_eq, getSignatureParamsInner, readHeaders]
  cases h : extractSignatureHeadersWithName m.message with
  | ok map =>
    have hnd : ((map.entries.map fun e => (e.1, e.2.signatureParams)).map Prod.fst).Nodup := by
      rw [List.map_map]
      exact map.nodup
    rw [Outcome.ok_bind, Outcome.map_ok, Outcome.map_ok, Outcome.map_ok, IndexMap.entries_ofList hnd]
  | _ => rfl

theorem entries_getAlgKeyIds (rsaSignature : Bool) : IndexMap.entries <$> m.getAlgKeyIds rsaSignature =
    (List.map fun e => (e.1, (e.2.signatureParams.knownAlg rsaSignature, e.2.signatureParams.keyid))) <$> m.readHeaders := by
  rw [readHeaders]
  cases h : extractSignatureHeadersWithName m.message with
  | ok map =>
    obtain ⟨algs, halgs, hentries⟩ := getAlgKeyIds_of_ok h rsaSignature
    rw [halgs, Outcome.map_ok, Outcome.map_ok, Outcome.map_ok, hentries]
  | _ =>
    rw [getAlgKeyIds_eq, getAlgKeyIdsInner, h]
    rfl

theorem entries_extractSignatures : IndexMap.entries <$> m.extractSignatures =
    (List.filterMap (builtEntry m.message m.reqForParam)) <$> m.readHeaders := by
  rw [extractSignatures_eq, readHeaders]
  cases h : extractSignatureHeadersWithName m.message with
  | ok map =>
    rw [extractSignaturesInner_of_ok h]
    rfl
  | _ =>
    rw [extractSignaturesInner, h]
    rfl

/-- What a key is asked about: parameters that bear the key id, when one is asked for, and whose base can be built. -/
def IsTarget (keyId : Option Text) (p : HttpSignatureParams) : Prop :=
  (∀ k ∈ keyId, p.keyid = some k) ∧ (m.signatureBase p).isOk = true

variable {m}

/-- The labels that were extracted are those of the parameters whose base can be built. -/
theorem exists_extracted {params : IndexMap SignatureName HttpSignatureParams} (h : m.getSignatureParams = .ok params) :
    ∃ map, m.extractSignatures = .ok map ∧ ∀ name base p,
      (∃ e ∈ map.entries, e.1 = name ∧ e.2.1 = base ∧ e.2.2.signatureParams = p) ↔
        (name, p) ∈ params.entries ∧ m.signatureBase p = .ok base := by
  have hparams := m.entries_getSignatureParams
  rw [h, Outcome.map_ok] at hparams
  obtain ⟨l, hl, hentries⟩ := Outcome.map_eq_ok.mp hparams.symm
  have hmap := m.entries_extractSignatures
  rw [hl, Outcome.map_ok] at hmap
  obtain ⟨map, hm, hbuilt⟩ := Outcome.map_eq_ok.mp hmap
  refine ⟨map, hm, fun name base p => ?_⟩
  rw [hbuilt, ← hentries]
  constructor
  · rintro ⟨e, he, rfl, rfl, rfl⟩
    obtain ⟨r, hr, hb⟩ := List.mem_filterMap.mp he
    obtain ⟨base, hbase, rfl⟩ := Option.map_eq_some_iff.mp hb
    exact ⟨List.mem_map.mpr ⟨r, hr, rfl⟩, Outcome.ok?_eq_some.mp hbase⟩
  · rintro ⟨hmem, hbase⟩
    obtain ⟨r, hr, heq⟩ := List.mem_map.mp hmem
    cases heq
    have hok : (buildSignatureBase m.message r.2.signatureParams m.reqForParam).ok? = some base := Outcome.ok?_eq_some.mpr hbase
    exact ⟨(r.1, (base, r.2)), List.mem_filterMap.mpr ⟨r, hr, by rw [builtEntry, hok]; rfl⟩, rfl, rfl, rfl⟩

theorem hasKeyId_of_built {keyId : Option Text} {p : HttpSignatureParams} {base : HttpSignatureBase}
    (h : m.signatureBase p = .ok base) : hasKeyId keyId base = true ↔ ∀ k ∈ keyId, p.keyid = some k := by
  have hparams : base.signatureParams = p := (buildSignatureBase_eq_ok.mp h).2
  rw [hasKeyId_iff, HttpSignatureBase.keyid, hparams]

section
variable {κ : Type} [VerifyingKey κ] {key : κ} {keyId : Option Text} {now : UInt64} {name : SignatureName}
  {params : IndexMap SignatureName HttpSignatureParams}

/-- A label that is accepted is one whose parameters were asked about. -/
theorem isTarget_of_accepted (h : m.getSignatureParams = .ok params) (hv : m.verifyMessageSignature key keyId now = .ok name) :
    ∃ p, (name, p) ∈ params.entries ∧ m.IsTarget keyId p := by
  obtain ⟨map, hm, hsame⟩ := exists_extracted h
  obtain ⟨map', hm', hver⟩ := verifyMessageSignature_eq_ok.mp hv
  cases hm.symm.trans hm'
  obtain ⟨e, hfind, rfl⟩ := Option.map_eq_some_iff.mp ((verifyWithKey_eq_ok hver name).mp rfl)
  have hsel := List.find?_some hfind
  rw [selects, Bool.and_eq_true] at hsel
  obtain ⟨hmem, hbase⟩ := (hsame e.1 e.2.1 e.2.2.signatureParams).mp ⟨e, List.mem_of_find?_eq_some hfind, rfl, rfl, rfl⟩
  exact ⟨_, hmem, (hasKeyId_of_built hbase).mp hsel.1, Outcome.isOk_iff.mpr ⟨_, hbase⟩⟩

/-- A key is asked about nothing exactly when no parameters are a target. -/
theorem noTarget_iff (h : m.getSignatureParams = .ok params) : m.verifyMessageSignature key keyId now =
    .err (.noSignatureHeaders "No signature as appropriate target for verification".toList) ↔
      ∀ e ∈ params.entries, ¬ m.IsTarget keyId e.2 := by
  obtain ⟨map, hm, hsame⟩ := exists_extracted h
  rw [verifyMessageSignature_eq_noTarget hm]
  constructor
  · rintro hno ⟨name, p⟩ he ⟨hkey, hbase⟩
    obtain ⟨base, hbase⟩ := Outcome.isOk_iff.mp hbase
    obtain ⟨x, hx, -, rfl, -⟩ := (hsame name base p).mpr ⟨he, hbase⟩
    have hfalse := hno x hx
    rw [(hasKeyId_of_built hbase).mpr hkey] at hfalse
    cases hfalse
  · intro hno e he
    obtain ⟨hmem, hbase⟩ := (hsame e.1 e.2.1 e.2.2.signatureParams).mp ⟨e, he, rfl, rfl, rfl⟩
    rw [← Bool.not_eq_true, hasKeyId_of_built hbase]
    exact fun hkey => hno _ hmem ⟨hkey, Outcome.isOk_iff.mpr ⟨_, hbase⟩⟩

end

/-- The three calls end alike on every message, with the same error if with one. The algorithms and key ids are those of
the parameters, label by label, and the signatures those of the labels whose base can be built, in the same order. A key
is asked about those of them that bear its key id: it accepts no other label, and is told so when there is none. -/
theorem readings_agree (m : Message β γ) :
    (∀ rsaSignature, IndexMap.entries <$> m.getAlgKeyIds rsaSignature =
      (List.map fun e => (e.1, (e.2.knownAlg rsaSignature, e.2.keyid))) <$> (IndexMap.entries <$> m.getSignatureParams)) ∧
    (fun map => map.entries.map fun e => (e.1, (e.2.1, e.2.2.signatureParams))) <$> m.extractSignatures =
      (List.filterMap fun e => (m.signatureBase e.2).ok?.map fun base => (e.1, (base, e.2))) <$>
        (IndexMap.entries <$> m.getSignatureParams) ∧
    ∀ {κ : Type} [VerifyingKey κ] (key : κ) (keyId : Option Text) (now : UInt64) (params : IndexMap SignatureName HttpSignatureParams),
      m.getSignatureParams = .ok params →
        (∀ name, m.verifyMessageSignature key keyId now = .ok name → ∃ p, (name, p) ∈ params.entries ∧ m.IsTarget keyId p) ∧
        (m.verifyMessageSignature key keyId now =
            .err (.noSignatureHeaders "No signature as appropriate target for verification".toList) ↔
          ∀ e ∈ params.entries, ¬ m.IsTarget keyId e.2) := by
  refine ⟨fun rsaSignature => ?_, ?_, fun key keyId now params h => ⟨fun name => isTarget_of_accepted h, noTarget_iff h⟩⟩
  · rw [entries_getAlgKeyIds, entries_getSignatureParams, Functor.map_map]
    congr 1
    funext l
    rw [List.map_map]
    rfl
  · have hentries := congrArg (List.map (fun e : SignatureName × (HttpSignatureBase × HttpSignatureHeaders) =>
      (e.1, (e.2.1, e.2.2.signatureParams))) <$> ·) m.entries_extractSignatures
    rw [Functor.map_map] at hentries
    rw [hentries, Functor.map_map, entries_getSignatureParams, Functor.map_map]
    congr 1
    funext l
    rw [List.map_filterMap, List.filterMap_map]
    congr 1
    funext e
    rw [builtEntry, Option.map_map]
    rfl

open scoped ByteKey

/-- A key id that only the first label bears, and one that none does. -/
theorem twiceSigned_readings : (∃ p, p.keyid = some "k".toList ∧ twiceSigned.IsTarget (some "k".toList) p) ∧
    twiceSigned.verifyMessageSignature (ByteKey.mk 0) (some "j".toList) 0 =
      .err (.noSignatureHeaders "No signature as appropriate target for verification".toList) := by
  obtain ⟨-, -, hasked⟩ := readings_agree twiceSigned
  obtain ⟨haccepted, -⟩ := hasked (ByteKey.mk 0) (some "k".toList) 0 _ twiceSigned_params
  obtain ⟨p, -, hp⟩ := haccepted "a".toList (by decide)
  refine ⟨⟨p, hp.1 _ rfl, hp⟩, (hasked (ByteKey.mk 0) (some "j".toList) 0 _ twiceSigned_params).2.mpr ?_⟩
  rintro ⟨name, q⟩ he ⟨hkey, -⟩
  have hother := hkey "j".toList rfl
  rcases List.mem_pair.mp (show (name, q) ∈ [_, _] from he) with h | h
  · cases h
    exact absurd hother (by decide)
  · cases h
    exact absurd hother (by decide)

end Message
end HttpSig
