import HttpSig.Theorems.Appending
import HttpSig.Theorems.Panics

/-! A further signature beside one that verifies. A label whose base cannot be built is skipped, but one whose
parameters do not convert takes the whole header with it. -/

namespace HttpSig
open Rust Sfv Http

namespace Message
variable {β γ κ : Type} [VerifyingKey κ]

/-- The key does not panic on the further signature, if it is asked about it at all. -/
def Copes (m : Message β γ) (key : κ) (keyId : Option Text) (now : UInt64) (l : InnerList) (bytes : Bytes) : Prop :=
  ∀ p base, HttpSignatureParams.tryFrom (.innerList l) = .ok p → m.signatureBase p = .ok base →
    (∀ i ∈ keyId, p.keyid = some i) → (∀ t ∈ p.expires, now ≤ t) → VerifyingKey.verify key base.asBytes bytes ≠ .panic

/-! ### One call -/

omit [VerifyingKey κ] in
/-- The labels of a message are the keys of its inputs. -/
theorem labels_of_getSignatureParams {m : Message β γ} {input signature : Dictionary}
    (hf : SignatureFields m.headers input signature) (hr : Readable input) :
    ∃ params, m.getSignatureParams = .ok params ∧
      ∀ e ∈ input.entries, ∀ p, HttpSignatureParams.tryFrom e.2 = .ok p → (e.1.text, p) ∈ params.entries := by
  obtain ⟨map, hm, hentries⟩ := extractSignatureHeadersWithName_of_readable hf hr
  obtain ⟨params, hparams, hmem⟩ := getSignatureParams_of_ok hm
  refine ⟨params, hparams, fun e he p hp => ?_⟩
  refine hmem (e.1.text, ⟨e.1.text, signatureBytes signature e.1, p⟩) ?_
  rw [hentries]
  exact List.mem_filterMap.mpr ⟨e, he, readEntry_eq_some.mpr ⟨p, hp, rfl⟩⟩

/-! ### The labels that were there -/

section
variable {m : Message β γ} {v w : HeaderValue} {input signature : Dictionary} {k : Key} {l : InnerList} {bytes : Bytes}
  {ps : Parameters}

omit [VerifyingKey κ] in
/-- A label that was there is extracted as before. -/
theorem extractedEntry_withPair {e : Key × ListEntry} (hf : SignatureFields m.headers input signature)
    (he : e ∈ input.entries) (hk : k ∉ input.keys)
    (hcov : ∀ p, HttpSignatureParams.tryFrom e.2 = .ok p → ∀ id ∈ p.coveredComponents, ¬ ReadsSignatureField id) :
    extractedEntry (m.withPair v w).message (m.withPair v w).reqForParam
        (snoc signature k (.item ⟨.byteSequence bytes, ps⟩)) e =
      extractedEntry m.message m.reqForParam signature e := by
  have hne : e.1 ≠ k := fun h => hk (h ▸ List.mem_map.mpr ⟨e, he, rfl⟩)
  have hbytes : signatureBytes (snoc signature k (.item ⟨.byteSequence bytes, ps⟩)) e.1 = signatureBytes signature e.1 :=
    signatureBytes_snoc_of_ne (fun h => hk (hf.paired.keys_subset k h)) hne
  rw [extractedEntry, extractedEntry, readEntry, readEntry, hbytes]
  cases hp : HttpSignatureParams.tryFrom e.2 with
  | ok p =>
    have hbase : (m.withPair v w).signatureBase p = m.signatureBase p :=
      signatureBase_withPair (hcov p hp) fun _ _ _ _ => getAll_of_containsKey hf.input_present
    rw [signatureBase, signatureBase] at hbase
    show builtEntry _ _ _ = builtEntry _ _ _
    rw [builtEntry, builtEntry, hbase]
  | _ => rfl

omit [VerifyingKey κ] in
/-- The extracted map with the further label at its end, if its base can be built. -/
theorem extractSignatures_withPair {map : SignatureMap} {p : HttpSignatureParams} (hm : m.extractSignatures = .ok map)
    (hf : SignatureFields m.headers input signature) (hne : input.entries ≠ []) (hk : k ∉ input.keys)
    (hv : Carries v k (.innerList l)) (hw : Carries w k (.item ⟨.byteSequence bytes, ps⟩))
    (hcov : ∀ e ∈ input.entries, ∀ p, HttpSignatureParams.tryFrom e.2 = .ok p →
      ∀ id ∈ p.coveredComponents, ¬ ReadsSignatureField id)
    (hp : HttpSignatureParams.tryFrom (.innerList l) = .ok p) :
    ∃ map', (m.withPair v w).extractSignatures = .ok map' ∧ map'.entries = map.entries ++
      (((m.withPair v w).signatureBase p).ok?.map fun base => (k.text, (base, ⟨k.text, bytes, p⟩))).toList := by
  rw [extractSignatures_eq] at hm
  obtain ⟨input', signature', hf', hr, he⟩ := extractSignaturesInner_eq_ok.mp hm
  obtain ⟨rfl, rfl⟩ := hf.unique hf'
  have hf₂ : SignatureFields (m.withPair v w).message.headers (snoc input k (.innerList l))
      (snoc signature k (.item ⟨.byteSequence bytes, ps⟩)) := by
    rw [withPair, message_headers_withHeaders]
    exact hf.appendPair hne hk hv hw
  have hr₂ : Readable (snoc input k (.innerList l)) := hr.snoc hk hp
  obtain ⟨map', hm', he'⟩ := extractSignaturesInner_of_readable (m.withPair v w).reqForParam hf₂ hr₂
  refine ⟨map', by rw [extractSignatures_eq, hm'], ?_⟩
  have hold : input.entries.filterMap (extractedEntry (m.withPair v w).message (m.withPair v w).reqForParam
      (snoc signature k (.item ⟨.byteSequence bytes, ps⟩))) = map.entries := by
    rw [he]
    exact List.filterMap_congr fun e hmem => extractedEntry_withPair hf hmem hk (hcov e hmem)
  have hbytes : signatureBytes (snoc signature k (.item ⟨.byteSequence bytes, ps⟩)) k = bytes :=
    signatureBytes_snoc_self fun h => hk (hf.paired.keys_subset k h)
  have hnew : extractedEntry (m.withPair v w).message (m.withPair v w).reqForParam
      (snoc signature k (.item ⟨.byteSequence bytes, ps⟩)) (k, .innerList l) =
      ((m.withPair v w).signatureBase p).ok?.map fun base => (k.text, (base, ⟨k.text, bytes, p⟩)) := by
    rw [extractedEntry, readEntry_eq_some.mpr ⟨p, hp, rfl⟩, Option.bind_some, builtEntry, hbytes, signatureBase]
  rw [he', entries_snoc hk, List.filterMap_append, hold]
  congr 1
  rw [List.filterMap_cons, hnew]
  cases ((m.withPair v w).signatureBase p).ok? <;> rfl

end

/-! ### Isolation -/

/-- The key panics on a label that it is asked about. -/
theorem asked_panics_iff {key : κ} {keyId : Option Text} {now : UInt64} {base : HttpSignatureBase} {name : SignatureName}
    {p : HttpSignatureParams} {bytes : Bytes} (hparams : base.signatureParams = p) :
    (hasKeyId keyId base = true ∧ base.verifySignatureHeaders key ⟨name, bytes, p⟩ now = .panic) ↔
      (∀ i ∈ keyId, p.keyid = some i) ∧ (∀ t ∈ p.expires, now ≤ t) ∧
        VerifyingKey.verify key base.asBytes bytes = .panic := by
  rw [hasKeyId_iff, HttpSignatureBase.keyid, hparams, HttpSignatureBase.verifySignatureHeaders]
  refine and_congr_right fun _ => ?_
  rw [← HttpSignatureParams.isExpired_eq_false]
  cases hexp : p.isExpired now with
  | true => simp
  | false => simp

section
variable {m : Message β γ} {key : κ} {keyId : Option Text} {now : UInt64} {name : SignatureName} {k : Key} {l : InnerList}
  {bytes : Bytes} {ps : Parameters} {v w : HeaderValue} {map : SignatureMap} {input signature : Dictionary}

/-- A call on the longer message that succeeds has converted the further member and asked the key. -/
theorem copes_of_verify_withPair (hm : m.extractSignatures = .ok map) (hf : SignatureFields m.headers input signature)
    (hne : input.entries ≠ []) (hk : k ∉ input.keys) (hv : Carries v k (.innerList l))
    (hw : Carries w k (.item ⟨.byteSequence bytes, ps⟩))
    (hcov : ∀ e ∈ input.entries, ∀ p, HttpSignatureParams.tryFrom e.2 = .ok p →
      ∀ id ∈ p.coveredComponents, ¬ ReadsSignatureField id)
    (h : (m.withPair v w).verifyMessageSignature key keyId now = .ok name) :
    HttpSignatureParams.Accepted l ∧ (m.withPair v w).Copes key keyId now l bytes := by
  obtain ⟨map₂, hm₂, hver₂⟩ := verifyMessageSignature_eq_ok.mp h
  have hm₂' := hm₂
  rw [extractSignatures_eq] at hm₂'
  obtain ⟨input₂, signature₂, hf₂, hr₂, -⟩ := extractSignaturesInner_eq_ok.mp hm₂'
  rw [withPair, message_headers_withHeaders] at hf₂
  obtain ⟨rfl, rfl⟩ := hf₂.unique (hf.appendPair hne hk hv hw)
  obtain ⟨p, hp⟩ := hr₂ (k, .innerList l) (by rw [entries_snoc hk]; simp)
  refine ⟨HttpSignatureParams.accepted_iff.mpr ⟨p, hp⟩, fun p' base hp' hbase hkid hexp hpanic => ?_⟩
  cases hp.symm.trans hp'
  obtain ⟨map₃, hm₃, he₃⟩ := extractSignatures_withPair hm hf hne hk hv hw hcov hp
  rw [hm₂] at hm₃
  cases hm₃
  have hbad : verifyWithKey map₂ now key keyId = .panic := by
    refine verifyWithKey_eq_panic.mpr ⟨(k.text, (base, ⟨k.text, bytes, p⟩)), ?_,
      (asked_panics_iff (buildSignatureBase_eq_ok.mp hbase).2).mpr ⟨hkid, hexp, hpanic⟩⟩
    rw [he₃, hbase]
    exact List.mem_append_right _ (List.mem_singleton_self _)
  rw [hbad] at hver₂
  cases hver₂

/-- The labels that were there come first, so the key stops at the label where it stopped before. -/
theorem verify_withPair_of_copes (hm : m.extractSignatures = .ok map) (hf : SignatureFields m.headers input signature)
    (hne : input.entries ≠ []) (hk : k ∉ input.keys) (hv : Carries v k (.innerList l))
    (hw : Carries w k (.item ⟨.byteSequence bytes, ps⟩))
    (hcov : ∀ e ∈ input.entries, ∀ p, HttpSignatureParams.tryFrom e.2 = .ok p →
      ∀ id ∈ p.coveredComponents, ¬ ReadsSignatureField id)
    (hver : verifyWithKey map now key keyId = .ok (.ok name)) (hacc : HttpSignatureParams.Accepted l)
    (hcopes : (m.withPair v w).Copes key keyId now l bytes) :
    (m.withPair v w).verifyMessageSignature key keyId now = .ok name := by
  obtain ⟨p, hp⟩ := HttpSignatureParams.accepted_iff.mp hacc
  obtain ⟨map₂, hm₂, he₂⟩ := extractSignatures_withPair hm hf hne hk hv hw hcov hp
  refine verifyMessageSignature_eq_ok.mpr ⟨map₂, hm₂, verifyWithKey_of_find ?_ ?_⟩
  · intro e hmem hkid hpanic
    rw [he₂, List.mem_append] at hmem
    rcases hmem with hmem | hmem
    · have := verifyWithKey_eq_panic.mpr ⟨e, hmem, hkid, hpanic⟩
      rw [hver] at this
      cases this
    · rw [Option.mem_toList, Option.map_eq_some_iff] at hmem
      obtain ⟨base, hbase, rfl⟩ := hmem
      rw [Outcome.ok?_eq_some] at hbase
      obtain ⟨hid, hexp, hbad⟩ := (asked_panics_iff (buildSignatureBase_eq_ok.mp hbase).2).mp ⟨hkid, hpanic⟩
      exact hcopes p base hp hbase hid hexp hbad
  · rw [he₂, List.find?_append]
    obtain ⟨e, hfound, rfl⟩ := Option.map_eq_some_iff.mp ((verifyWithKey_eq_ok hver name).mp rfl)
    rw [hfound]
    rfl

end

/-- Beside a verified signature a further pair changes nothing when its member converts and the key copes with
its bytes; otherwise the call fails. -/
theorem verify_withPair_iff {m : Message β γ} {key : κ} {keyId : Option Text} {now : UInt64} {name : SignatureName} {k : Key}
    {l : InnerList} {bytes : Bytes} {ps : Parameters} {v w : HeaderValue}
    (h : m.verifyMessageSignature key keyId now = .ok name)
    (hfresh : ∀ params, m.getSignatureParams = .ok params → k.text ∉ params.keys)
    (hv : Carries v k (.innerList l)) (hw : Carries w k (.item ⟨.byteSequence bytes, ps⟩))
    (hcov : ∀ params, m.getSignatureParams = .ok params → ∀ e ∈ params.entries, ∀ id ∈ e.2.coveredComponents,
      ¬ ReadsSignatureField id) :
    ((m.withPair v w).verifyMessageSignature key keyId now = .ok name ↔
      HttpSignatureParams.Accepted l ∧ (m.withPair v w).Copes key keyId now l bytes) ∧
    ((∃ name', (m.withPair v w).verifyMessageSignature key keyId now = .ok name') ↔
      HttpSignatureParams.Accepted l ∧ (m.withPair v w).Copes key keyId now l bytes) := by
  obtain ⟨map, hm, hver⟩ := verifyMessageSignature_eq_ok.mp h
  have hm' := hm
  rw [extractSignatures_eq] at hm'
  obtain ⟨input, signature, hf, hr, he⟩ := extractSignaturesInner_eq_ok.mp hm'
  obtain ⟨params, hparams, hlabels⟩ := labels_of_getSignatureParams hf hr
  have hk : k ∉ input.keys := by
    intro hmem
    obtain ⟨e, hin, rfl⟩ := List.mem_map.mp hmem
    obtain ⟨p, hp⟩ := hr e hin
    exact hfresh params hparams (List.mem_map.mpr ⟨_, hlabels e hin p hp, rfl⟩)
  have hcov' : ∀ e ∈ input.entries, ∀ p, HttpSignatureParams.tryFrom e.2 = .ok p →
      ∀ id ∈ p.coveredComponents, ¬ ReadsSignatureField id :=
    fun e hmem p hp => hcov params hparams _ (hlabels e hmem p hp)
  have hne : input.entries ≠ [] := by
    intro hemp
    have hfind := (verifyWithKey_eq_ok hver name).mp rfl
    rw [he, hemp] at hfind
    cases hfind
  have honly : ∀ name', (m.withPair v w).verifyMessageSignature key keyId now = .ok name' →
      HttpSignatureParams.Accepted l ∧ (m.withPair v w).Copes key keyId now l bytes :=
    fun _ h' => copes_of_verify_withPair hm hf hne hk hv hw hcov' h'
  refine ⟨⟨honly name, fun hc => ?_⟩, fun ⟨name', h'⟩ => honly name' h', fun hc => ⟨name, ?_⟩⟩
  · exact verify_withPair_of_copes hm hf hne hk hv hw hcov' hver hc.1 hc.2
  · exact verify_withPair_of_copes hm hf hne hk hv hw hcov' hver hc.1 hc.2

/-! ### Further labels beside verified ones -/

open scoped ByteKey

def furtherLine (value : Text) (hv : (utf8Bytes value).all isValidByte = true) : HeaderValue := ⟨utf8Bytes value, hv⟩

def furtherSignature : HeaderValue := furtherLine "c=:AQ==:".toList (by decide)

/-- A covered response status, which no request has: the label is skipped. -/
def skippedMember : InnerList := ⟨[⟨.string ⟨"@status".toList, by decide⟩, ∅⟩], ∅⟩

theorem twiceSigned_withSkipped : (twiceSigned.withPair (furtherLine "c=(\"@status\")".toList (by decide))
    furtherSignature).verifyMessageSignature (ByteKey.mk 1) none 0 = .ok "b".toList := by
  have hfresh : ∀ params, twiceSigned.getSignatureParams = .ok params → "c".toList ∉ params.keys := by
    intro params hp
    rw [twiceSigned_params] at hp
    cases hp
    decide
  have hcov : ∀ params, twiceSigned.getSignatureParams = .ok params → ∀ e ∈ params.entries,
      ∀ id ∈ e.2.coveredComponents, ¬ ReadsSignatureField id := by
    rintro params hp e he id hid ⟨-, n, hn, -⟩
    rw [twiceSigned_params] at hp
    cases hp
    rcases List.mem_pair.mp he with rfl | rfl
    · obtain rfl := List.mem_singleton.mp hid
      cases hn
    · cases hid
  have hv : Carries (furtherLine "c=(\"@status\")".toList (by decide)) ⟨"c".toList, by decide⟩ (.innerList skippedMember) :=
    ⟨"c=(\"@status\")".toList, by decide, by decide⟩
  have hw : Carries furtherSignature ⟨"c".toList, by decide⟩ (.item ⟨.byteSequence [1], ∅⟩) :=
    ⟨"c=:AQ==:".toList, by decide, by decide⟩
  refine (verify_withPair_iff (by decide +kernel) hfresh hv hw hcov).1.mpr ⟨?_, ?_⟩
  · exact ⟨[⟨.derived .status, ∅⟩], .cons (by decide) .nil, by decide, by decide⟩
  · intro p base _ _ _ _
    show (if _ then _ else _) ≠ _
    split <;> exact nofun

/-- A covered component with an unknown parameter, or a repeated one, takes the verified labels with it. -/
theorem twiceSigned_withUnknown :
    twiceSigned.verifyMessageSignature (ByteKey.mk 1) none 0 = .ok "b".toList ∧
    ((twiceSigned.withPair (furtherLine "c=(\"x\";foo)".toList (by decide)) furtherSignature).verifyMessageSignature
      (ByteKey.mk 1) none 0).isErr = true ∧
    ((twiceSigned.withPair (furtherLine "c=(\"x\" \"x\")".toList (by decide)) furtherSignature).verifyMessageSignature
      (ByteKey.mk 1) none 0).isErr = true := by
  decide

end Message
end HttpSig
