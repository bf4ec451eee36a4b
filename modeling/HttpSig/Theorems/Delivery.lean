import HttpSig.Theorems.BodyIntegrity
import HttpSig.Theorems.Relay

/-! A body on its way. Its digest is set and signed for, and then the message goes through all who sign it further or
change it beside what is covered. At the end the digest verifies exactly when the body that arrives has the digest of
the body that was sent. -/

namespace HttpSig
open Rust Sfv Http Systems

/-- A message whose digest field reads as one digest is judged by that digest. -/
theorem verifyContentDigest_of_fieldText {β : Type} [Sha2] [Body β] {msg : RequestOrResponse β} {t : ContentDigestType}
    {digest bytes : Bytes} (hfield : fieldText msg.headers contentDigestHeader = some (digestText t digest))
    (hbody : Body.intoBytes msg.body = some bytes) :
    msg.verifyContentDigest = if deriveDigest bytes t = digest then .ok (msg.withBody bytes)
      else .err (.invalidContentDigest "Content-Digest verification failed".toList) := by
  obtain ⟨v, hline, hv⟩ := line_of_fieldText hfield (by simp [digestText]) (comma_notMem_digestText t digest)
  have hcarries : Carries v t.key (.item ⟨.byteSequence digest, ∅⟩) := by
    refine ⟨_, hv, ?_⟩
    rw [digestText, ContentDigestType.member_eq]
    exact parseDictionaryField_member t.key _
  have hverify := verifyContentDigestOf_of_extract (extractContentDigest_of_carries hline hcarries) hbody
  rw [RequestOrResponse.verifyContentDigest_eq, hverify]
  split <;> rfl

namespace Message
variable {β γ : Type}

/-- The base of a signature is that of the message it was made on. -/
theorem Hop.base {m m' : Message β γ} {made : List HeldSignature} (h : Hop m made m') {e : HeldSignature} (he : e ∈ made) :
    m.signatureBase e.2.2.signatureParams = .ok e.2.1 := by
  cases h with
  | sign _ _ _ _ hmade =>
    obtain ⟨_, -, base, signature, hbase, -, rfl⟩ := Outcome.exists_of_mem_right hmade he
    exact hbase
  | change _ _ => cases he

/-- A field that the first signatures cover reads to the end as it did at first. -/
theorem fieldText_of_relay {m m' : Message β γ} {made : List HeldSignature} {mades : List (List HeldSignature)}
    (hrun : (relay β γ).Run m (made :: mades) m') (hi : m.headers.containsKey signatureInputHeader = false)
    (hs : m.headers.containsKey signatureHeader = false) {n : Text} (hn : '"' ∉ n) (hat : startsWith n '@' = false)
    (hcovered : ∃ e ∈ made, ⟨.httpField n, ∅⟩ ∈ e.coveredComponents) :
    fieldText m'.headers n = fieldText m.headers n := by
  obtain ⟨e, he, hid⟩ := hcovered
  have hholds := holds_of_run hrun hi hs
  have hend : m'.signatureBase e.2.2.signatureParams = .ok e.2.1 :=
    hholds.base e (List.mem_flatten.mpr ⟨made, List.mem_cons_self, he⟩)
  cases hrun with
  | cons hfirst _ => exact (fieldText_of_statement hend (Hop.base hfirst he) rfl hn hat hid).2

/-- A body is sent with its digest, under signatures that cover it. Whoever else signs the message on its way, and
whatever is changed beside what is covered, at the end a key that accepts one of all the signatures verifies the message,
and the digest verifies exactly when the body that arrives has the digest of the one that was sent. -/
theorem delivered_of_relay {δ : Type} [Sha2] [Body δ] {msg : RequestOrResponse δ} {t : ContentDigestType}
    {m m' : Message Bytes γ} {made : List HeldSignature} {mades : List (List HeldSignature)}
    (hset : msg.setContentDigest t = .ok m.message) (hi : m.headers.containsKey signatureInputHeader = false)
    (hs : m.headers.containsKey signatureHeader = false) (hrun : (relay Bytes γ).Run m (made :: mades) m')
    (hcovered : ∃ e ∈ made, contentDigestId ∈ e.coveredComponents) :
    (m'.message.verifyContentDigest =
      if deriveDigest m'.message.body t = deriveDigest m.message.body t then .ok m'.message
        else .err (.invalidContentDigest "Content-Digest verification failed".toList)) ∧
    ∀ {κ : Type} [VerifyingKey κ] (key : κ) (keyId : Option Text) (now : UInt64), ∀ e ∈ made ++ mades.flatten,
      VerifyingKey.verify key e.2.1.asBytes e.2.2.signature = .ok () →
      (∀ x ∈ made ++ mades.flatten, VerifyingKey.verify key x.2.1.asBytes x.2.2.signature ≠ .panic) →
      (∀ i ∈ keyId, e.2.2.signatureParams.keyid = some i) → (∀ t ∈ e.2.2.signatureParams.expires, now ≤ t) →
        ∃ name ∈ (made ++ mades.flatten).map Prod.fst, m'.verifyMessageSignature key keyId now = .ok name := by
  have hholds : m'.Holds (made ++ mades.flatten) := holds_of_run hrun hi hs
  refine ⟨?_, fun key keyId now e he hok hno hkid htime => hholds.verifyMessageSignature he hok hno hkid htime⟩
  obtain ⟨bytes, hown⟩ := carriesOwnDigest_of_set hset
  obtain rfl : m.message.body = bytes := Option.some.inj hown.1
  have hfield := fieldText_of_relay hrun hi hs (by decide) (by decide) hcovered
  have hsame : m'.message.withBody m'.message.body = m'.message := by
    cases m'.message <;> rfl
  rw [verifyContentDigest_of_fieldText (hfield.trans hown.fieldText) rfl, hsame]

/-! ### A body that is exchanged on its way -/

attribute [local instance] RequestOrResponse.helloDigests
open scoped ByteKey

def digestSignature : HeldSignature := ("sig".toList, (digestBase, ⟨"sig".toList, [2], digestParams⟩))

def exchangedRequest : Request Bytes :=
  { RequestOrResponse.withDigestLines ["sha-256=:X48E9qOokqqrvdts8nOJRJN3OWDUoyWxBf7kbu9DBPE=:".toList] with
    body := utf8Bytes "x".toList }

/-- The signed request with another body. -/
def exchangedBody : Message Bytes Unit := (request exchangedRequest).withHeaders signedDigest.headers

theorem digestedRequest_set :
    (RequestOrResponse.request (RequestOrResponse.withDigestLines [])).setContentDigest .sha256 =
      .ok digestedRequest.message := by
  rfl

theorem exchangedBody_run : (relay Bytes Unit).Run digestedRequest [[digestSignature], []] exchangedBody := by
  have hsettled : ∀ labels, Settled labels contentDigestId := by
    rintro labels ⟨-, name, hn, hsig⟩
    cases hn
    exact absurd hsig (by decide)
  have hback : digestParams.ReadsBack := by
    unfold HttpSignatureParams.ReadsBack
    decide
  have hsign : Hop digestedRequest [digestSignature] signedDigest := by
    have hadm : Admits (([] : List HeldSignature).map Prod.fst) (entriesOf (soleKey ()) [(digestParams, none)]) :=
      ⟨by decide, List.forall_mem_singleton.mpr hback, by decide, by decide⟩
    have hmade : List.Forall₂ (Makes digestedRequest) (entriesOf (soleKey ()) [(digestParams, none)]) [digestSignature] :=
      .cons ⟨digestBase, [2], by decide, rfl, rfl⟩ .nil
    refine .sign (holds_unsigned (by decide) (by decide)) hadm ?_ (Prod.ext rfl (by decide)) hmade
    exact List.forall_mem_singleton.mpr (List.forall_mem_singleton.mpr (hsettled _))
  have hchange : Hop signedDigest [] exchangedBody := by
    have hread : extractSignatureHeadersWithName signedDigest.message =
        .ok (.ofList [("sig".toList, ⟨"sig".toList, [2], digestParams⟩)]) := by decide
    have hholds : signedDigest.Holds [digestSignature] :=
      ⟨.signed hread (by decide), List.forall_mem_singleton.mpr (by decide)⟩
    have hlines : signedDigest.headers.getAll contentDigestHeader = exchangedBody.headers.getAll contentDigestHeader := by
      decide
    have hagree : signedDigest.Agree exchangedBody contentDigestId := hlines
    exact .change hholds ⟨rfl, by decide, by decide, List.forall_mem_singleton.mpr (List.forall_mem_singleton.mpr hagree)⟩
  exact .cons hsign (.single hchange)

/-- The signature is good still, and the digest tells. -/
theorem exchangedBody_delivered : exchangedBody.message.verifyContentDigest =
      .err (.invalidContentDigest "Content-Digest verification failed".toList) ∧
    ∃ name ∈ ["sig".toList], exchangedBody.verifyMessageSignature (ByteKey.mk 2) none 0 = .ok name := by
  obtain ⟨hdigest, hverify⟩ := delivered_of_relay digestedRequest_set (by decide) (by decide) exchangedBody_run
    ⟨digestSignature, List.mem_cons_self, List.mem_cons_self⟩
  refine ⟨?_, hverify (ByteKey.mk 2) none 0 digestSignature List.mem_cons_self rfl ?_ ?_ ?_⟩
  · rw [hdigest, if_neg (by decide)]
  · decide
  · rintro i ⟨⟩
  · rintro t ⟨⟩

end Message
end HttpSig
