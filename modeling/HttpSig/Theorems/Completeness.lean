import HttpSig.Theorems.Signing
import HttpSig.Theorems.Verification

/-! A message that was signed verifies with the matching key: the parameters come back from the header as they were
given, and the base is built again from the signed message as it was from the unsigned one. -/

namespace HttpSig
open Rust Sfv Http

/-- The keys of a pair: what one signs, the other accepts. -/
def Matches {σ κ : Type} [SigningKey σ] [VerifyingKey κ] (sk : σ) (vk : κ) : Prop :=
  ∀ data signature, SigningKey.sign sk data = .ok signature → VerifyingKey.verify vk data signature = .ok ()

def nameKey (name : Option Text) (h : ∀ n ∈ name, isKey n = true) : Key :=
  ⟨name.getD defaultSignatureName, by
    cases name with
    | none => decide
    | some n => exact h n rfl⟩

namespace Message
variable {β γ σ κ : Type} [SigningKey σ] [VerifyingKey κ] {m m' : Message β γ} {p : HttpSignatureParams}

/-- `@signature-params` without `req` is read from the message's own first `signature-input` line. -/
theorem getAll_of_extractCovered {id : HttpMessageComponentId} {c : HttpMessageComponent}
    (h : extractCovered m.message m.reqForParam id = .ok c) (hn : id.name = .derived .signatureParams)
    (hr : HttpMessageComponentParams.hasReq id.params = false) : m.headers.getAll signatureInputHeader ≠ [] := by
  unfold extractCovered extractHttpMessageComponent at h
  rw [hr, hn] at h
  obtain ⟨n, vs, hn', -, -, hvs, hbuild⟩ := extractDerivedComponent_eq_ok.mp h
  obtain ⟨-, first, rest, -, -, rfl, -⟩ := buildDerivedComponent_eq_ok.mp hbuild
  cases hn.symm.trans hn'
  intro hemp
  have hemp : m.message.headers.getAll signatureInputHeader = [] := hemp
  rw [derivedFieldValues, hemp] at hvs
  cases hvs

/-- The base of the signed message is the one that was signed. -/
theorem signatureBase_of_signed {base : HttpSignatureBase} {v w : HeaderValue} (h : m.signatureBase p = .ok base)
    (hids : ∀ id ∈ p.coveredComponents, ¬ ReadsSignatureField id) : (m.withPair v w).signatureBase p = .ok base := by
  rw [signatureBase_withPair hids, h]
  intro id hid hn hr
  obtain ⟨c, -, hc⟩ := Outcome.exists_of_mem_right (buildSignatureBase_eq_ok.mp h).1.flip hid
  exact getAll_of_extractCovered hc hn hr

/-- The one signature of a message that had none. -/
theorem extractSignatures_of_signed {k : Key} {l : InnerList} {bytes : Bytes} {ps : Parameters} {v w : HeaderValue}
    {base : HttpSignatureBase} (hi : m.headers.getAll signatureInputHeader = [])
    (hs : m.headers.getAll signatureHeader = []) (hv : Carries v k (.innerList l))
    (hw : Carries w k (.item ⟨.byteSequence bytes, ps⟩)) (hp : HttpSignatureParams.tryFrom (.innerList l) = .ok p)
    (hbase : (m.withPair v w).signatureBase p = .ok base) :
    ∃ map, (m.withPair v w).extractSignatures = .ok map ∧ map.entries = [(k.text, (base, ⟨k.text, bytes, p⟩))] := by
  have hf : SignatureFields (m.withPair v w).message.headers (snoc ∅ k (.innerList l))
      (snoc ∅ k (.item ⟨.byteSequence bytes, ps⟩)) := by
    rw [withPair, message_headers_withHeaders]
    exact signatureFields_single hi hs hv hw
  have hentries : (snoc ∅ k (.innerList l)).entries = [(k, .innerList l)] := entries_snoc List.not_mem_nil
  have hr : Readable (snoc ∅ k (.innerList l)) := readable_empty.snoc List.not_mem_nil hp
  obtain ⟨map, hm, he⟩ := extractSignaturesInner_of_readable (m.withPair v w).reqForParam hf hr
  refine ⟨map, by rw [extractSignatures_eq, hm], ?_⟩
  have hbytes : signatureBytes (snoc ∅ k (.item ⟨.byteSequence bytes, ps⟩)) k = bytes :=
    signatureBytes_snoc_self List.not_mem_nil
  rw [he, hentries, List.filterMap_cons,
    extractedEntry_eq_some.mpr ⟨p, base, hp, hbase, rfl⟩, hbytes]
  rfl

/-- What one signing call leaves: the pair of its lines, with everything that made it. -/
theorem setMessageSignature_eq_ok {sk : σ} {name : Option Text} (h : m.setMessageSignature p sk name = (m', .ok ())) :
    ∃ base signature v w, m.signatureBase p = .ok base ∧ SigningKey.sign sk base.asBytes = .ok signature ∧
      HeaderLines ⟨name.getD defaultSignatureName, signature, p⟩ (v, w) ∧ m' = m.withPair v w := by
  rw [setMessageSignature_eq] at h
  obtain ⟨hs, lines, hsigned, hlines, rfl⟩ := setMessageSignatures_eq_ok.mp h
  obtain ⟨hd, hs, ⟨base, signature, hbase, hsign, rfl⟩, hnil, rfl⟩ :=
    List.forall₂_cons_left_iff.mp (signedHeaders_eq_ok.mp hsigned)
  cases hnil
  obtain ⟨⟨v, w⟩, lines, hl, hnil, rfl⟩ := List.forall₂_cons_left_iff.mp hlines
  cases hnil
  exact ⟨base, signature, v, w, hbase, hsign, hl, rfl⟩

/-! ### Completeness -/

/-- A message that had no signature verifies after it was signed, under the name it was signed with, until the
signature expires. -/
theorem verifyMessageSignature_of_signed {sk : σ} {vk : κ} {name : Option Text} {now : UInt64} (hkeys : Matches sk vk)
    (hi : m.headers.containsKey signatureInputHeader = false) (hs : m.headers.containsKey signatureHeader = false)
    (hbuilt : p.Built) (hp : p.Unaltered) (hids : ∀ id ∈ p.coveredComponents, ¬ ReadsSignatureField id)
    (hname : ∀ n ∈ name, isKey n = true) (hset : m.setMessageSignature p sk name = (m', .ok ()))
    (hnow : ∀ t ∈ p.expires, now ≤ t) :
    m'.verifyMessageSignature vk none now = .ok (name.getD defaultSignatureName) ∧
    m'.verifyMessageSignature vk p.keyid now = .ok (name.getD defaultSignatureName) := by
  obtain ⟨base, signature, v, w, hbase, hsign, hlines, rfl⟩ := setMessageSignature_eq_ok hset
  have hk : name.getD defaultSignatureName = (nameKey name hname).text := rfl
  obtain ⟨l, hl, hv⟩ := hlines.carries_signatureInput hk (hp.readsBack hbuilt.hasUniqueElements)
  rw [containsKey_eq, Bool.not_eq_false', List.isEmpty_iff] at hi hs
  have hbase' : (m.withPair v w).signatureBase p = .ok base := signatureBase_of_signed hbase hids
  obtain ⟨map, hm, hentries⟩ := extractSignatures_of_signed hi hs hv (hlines.carries_signature hk) hl hbase'
  -- The one label bears its own key id, is in time, and was signed by the matching key.
  have hok : base.verifySignatureHeaders vk ⟨(nameKey name hname).text, signature, p⟩ now = .ok () := by
    rw [HttpSignatureBase.verifySignatureHeaders, HttpSignatureParams.isExpired_eq_false.mpr hnow]
    exact hkeys _ _ hsign
  have hverify : ∀ keyId, (∀ i ∈ keyId, p.keyid = some i) →
      (m.withPair v w).verifyMessageSignature vk keyId now = .ok (name.getD defaultSignatureName) := by
    intro keyId hid
    refine verifyMessageSignature_eq_ok.mpr ⟨map, hm, verifyWithKey_of_find ?_ ?_⟩
    · intro e he _ hpanic
      rw [hentries] at he
      rw [List.mem_singleton.mp he, hok] at hpanic
      cases hpanic
    · have hsel : selects vk keyId now ((nameKey name hname).text, (base, ⟨(nameKey name hname).text, signature, p⟩)) = true := by
        rw [selects, hok, Bool.and_eq_true]
        refine ⟨hasKeyId_iff.mpr ?_, rfl⟩
        rw [HttpSignatureBase.keyid, (buildSignatureBase_eq_ok.mp hbase).2]
        exact hid
      rw [hentries, List.find?_cons_of_pos hsel]
      rfl
  refine ⟨hverify none ?_, hverify p.keyid fun i hi => hi⟩
  rintro i ⟨⟩

/-! ### A signed request -/

open scoped ByteKey

def coveredParams : HttpSignatureParams :=
  ⟨some 1, some 5, none, some "ed25519".toList, some "k".toList, none,
    [⟨.derived .method, ∅⟩, ⟨.httpField "X".toList, .ofList [.key "a".toList]⟩]⟩

theorem coveredParams_built : coveredParams.Built :=
  have h₀ : HttpSignatureParams.Built ⟨some 1, none, none, none, none, none, coveredParams.coveredComponents⟩ :=
    @HttpSignatureParams.Built.tryNew coveredParams.coveredComponents 1 _ (by decide)
  have h₁ := @HttpSignatureParams.Built.set true _ _ (.setKeyInfo "k".toList .ed25519) h₀ rfl
  @HttpSignatureParams.Built.set true _ _ (.setExpires 5) h₁ rfl

theorem coveredParams_unaltered : coveredParams.Unaltered where
  created := by
    rintro n ⟨⟩
    decide
  expires := by
    rintro n ⟨⟩
    decide
  nonce := nofun
  alg := by
    rintro s ⟨⟩
    exact ⟨by decide, by decide⟩
  keyid := by
    rintro s ⟨⟩
    exact ⟨by decide, by decide⟩
  tag := nofun
  ids := by
    intro id hid
    rcases List.mem_pair.mp hid with rfl | rfl
    · exact ⟨⟨"@method".toList, by decide⟩, by decide, by decide⟩
    · exact ⟨⟨"\"X\";key=\"a\"".toList, by decide⟩, by decide, by decide⟩

/-- A request whose covered field has several lines. -/
def unsigned : Message Unit Unit :=
  .request (getRequest [("x".toList, "b=2".toList), ("x".toList, "a=1".toList)])

theorem unsigned_verified : ∃ m', unsigned.setMessageSignature coveredParams (ByteKey.mk 1) none = (m', .ok ()) ∧
    m'.verifyMessageSignature (ByteKey.mk 1) none 5 = .ok "sig".toList ∧
    m'.verifyMessageSignature (ByteKey.mk 1) (some "k".toList) 5 = .ok "sig".toList := by
  have hkeys : Matches (ByteKey.mk 1) (ByteKey.mk 1) := by
    rintro data signature ⟨⟩
    exact if_pos rfl
  have hids : ∀ id ∈ coveredParams.coveredComponents, ¬ ReadsSignatureField id := by
    rintro id hid ⟨-, n, hn, hf⟩
    rcases List.mem_pair.mp hid with rfl | rfl
    · cases hn
    · cases hn
      revert hf
      decide
  have hset : unsigned.setMessageSignature coveredParams (ByteKey.mk 1) none =
      ((unsigned.setMessageSignature coveredParams (ByteKey.mk 1) none).1, .ok ()) :=
    Prod.ext rfl (by decide)
  have hname : ∀ n ∈ (none : Option Text), isKey n = true := by
    rintro n ⟨⟩
  have hnow : ∀ t ∈ coveredParams.expires, (5 : UInt64) ≤ t := by
    rintro t ⟨⟩
    decide
  exact ⟨_, hset, verifyMessageSignature_of_signed hkeys (by decide) (by decide) coveredParams_built
    coveredParams_unaltered hids hname hset hnow⟩

end Message
end HttpSig
