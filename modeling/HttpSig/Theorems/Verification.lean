import HttpSig.Theorems.Extraction

/-! What verification computes: for each key the first label, in the order of `signature-input`, whose base is
rebuilt from the message, which bears the key id, is not expired and is accepted by the key. -/

namespace HttpSig
open Rust Sfv Http

namespace HttpSignatureParams

theorem isExpired_eq_false {p : HttpSignatureParams} {now : UInt64} :
    p.isExpired now = false ↔ ∀ t ∈ p.expires, now ≤ t := by
  unfold isExpired
  cases p.expires with
  | none => simp
  | some t =>
    simp only [decide_eq_false_iff_not, Option.mem_def, Option.some.injEq, forall_eq']
    exact UInt64.not_lt

end HttpSignatureParams

section
variable {β γ κ : Type} [VerifyingKey κ]

theorem verifySignatureHeaders_isOk {base : HttpSignatureBase} {key : κ} {h : HttpSignatureHeaders} {now : UInt64} :
    (base.verifySignatureHeaders key h now).isOk = true ↔
      (∀ t ∈ h.signatureParams.expires, now ≤ t) ∧ VerifyingKey.verify key base.asBytes h.signature = .ok () := by
  rw [HttpSignatureBase.verifySignatureHeaders, ← HttpSignatureParams.isExpired_eq_false]
  cases h.signatureParams.isExpired now
  · rw [if_neg Bool.false_ne_true, Outcome.isOk_iff]
    exact ⟨fun ⟨_, h⟩ => ⟨rfl, h⟩, fun h => ⟨(), h.2⟩⟩
  · simp [Outcome.isOk]

theorem hasKeyId_iff {keyId : Option Text} {base : HttpSignatureBase} :
    hasKeyId keyId base = true ↔ ∀ k ∈ keyId, base.keyid = some k := by
  cases keyId with
  | none => simp [hasKeyId]
  | some k => simp [hasKeyId]

namespace Message

/-- What is asked of a label before a key accepts it. The parameters are those of its own member, and the
bytes those stored under its own label. -/
def Accepts (m : Message β γ) (key : κ) (keyId : Option Text) (now : UInt64) (signature : Dictionary)
    (e : Key × ListEntry) : Prop :=
  ∃ p base bytes ps, HttpSignatureParams.tryFrom e.2 = .ok p ∧ m.signatureBase p = .ok base ∧
    signature.get? e.1 = some (.item ⟨.byteSequence bytes, ps⟩) ∧ (∀ k ∈ keyId, p.keyid = some k) ∧
    (∀ t ∈ p.expires, now ≤ t) ∧ VerifyingKey.verify key base.asBytes bytes = .ok ()

/-- The first label of the inputs that the key accepts. -/
def FirstAccepted (m : Message β γ) (key : κ) (keyId : Option Text) (now : UInt64) (name : SignatureName) : Prop :=
  ∃ input signature l₁ e l₂, SignatureFields m.headers input signature ∧ input.entries = l₁ ++ e :: l₂ ∧
    (∀ x ∈ l₁, ¬ m.Accepts key keyId now signature x) ∧ m.Accepts key keyId now signature e ∧ e.1.text = name

/-! ### Steps of a verification -/

/-- The selected labels of the extracted map are the accepted labels of the header. -/
theorem selects_extractedEntry {m : Message β γ} {key : κ} {keyId : Option Text} {now : UInt64}
    {input signature : Dictionary} (hp : Paired input signature) {e : Key × ListEntry} (he : e ∈ input.entries) :
    (extractedEntry m.message m.reqForParam signature e).any (selects key keyId now) = true ↔
      m.Accepts key keyId now signature e := by
  rw [Option.any_eq_true]
  obtain ⟨bytes, ps, hget⟩ := hp.exists_byteSequence (List.mem_map.mpr ⟨e, he, rfl⟩)
  have hbytes : signatureBytes signature e.1 = bytes := by rw [signatureBytes, hget]
  constructor
  · rintro ⟨r, hr, hs⟩
    obtain ⟨p, base, hread, hbase, rfl⟩ := extractedEntry_eq_some.mp hr
    rw [selects, Bool.and_eq_true, hasKeyId_iff, verifySignatureHeaders_isOk] at hs
    obtain ⟨hk, hexp, hv⟩ := hs
    have hparams : base.signatureParams = p := (buildSignatureBase_eq_ok.mp hbase).2
    rw [HttpSignatureBase.keyid, hparams] at hk
    rw [hbytes] at hv
    exact ⟨p, base, bytes, ps, hread, hbase, hget, hk, hexp, hv⟩
  · rintro ⟨p, base, bytes', ps', hread, hbase, hget', hk, hexp, hv⟩
    have hparams : base.signatureParams = p := (buildSignatureBase_eq_ok.mp hbase).2
    rw [hget] at hget'
    cases hget'
    refine ⟨_, extractedEntry_eq_some.mpr ⟨p, base, hread, hbase, rfl⟩, ?_⟩
    rw [selects, Bool.and_eq_true, hasKeyId_iff, verifySignatureHeaders_isOk, HttpSignatureBase.keyid, hparams, hbytes]
    exact ⟨hk, hexp, hv⟩

theorem find?_selects_eq_some {m : Message β γ} {key : κ} {keyId : Option Text} {now : UInt64} {name : SignatureName}
    {map : SignatureMap} (hm : m.extractSignatures = .ok map) :
    (map.entries.find? (selects key keyId now)).map Prod.fst = some name ↔ m.FirstAccepted key keyId now name := by
  rw [extractSignatures_eq] at hm
  obtain ⟨input, signature, hf, hr, he⟩ := extractSignaturesInner_eq_ok.mp hm
  have hsel : ∀ e ∈ input.entries, (extractedEntry m.message m.reqForParam signature e).any (selects key keyId now) = true ↔
      m.Accepts key keyId now signature e := fun e he => selects_extractedEntry hf.paired he
  rw [he, List.find?_filterMap, Option.map_eq_some_iff]
  constructor
  · rintro ⟨r, hr, rfl⟩
    obtain ⟨e, hfind, hex⟩ := Option.bind_eq_some_iff.mp hr
    obtain ⟨hacc, l₁, l₂, hl, hno⟩ := List.find?_eq_some_iff_append.mp hfind
    obtain ⟨p, base, -, -, rfl⟩ := extractedEntry_eq_some.mp hex
    refine ⟨input, signature, l₁, e, l₂, hf, hl, fun x hx => ?_, (hsel e (hl ▸ by simp)).mp hacc, rfl⟩
    rw [← hsel x (hl ▸ by simp [hx])]
    have := hno x hx
    rwa [Bool.not_eq_true', ← Bool.not_eq_true] at this
  · rintro ⟨input', signature', l₁, e, l₂, hf', hl, hno, hacc, rfl⟩
    obtain ⟨rfl, rfl⟩ := hf.unique hf'
    have hacc := (hsel e (hl ▸ by simp)).mpr hacc
    obtain ⟨r, hr, -⟩ := (Option.any_eq_true ..).mp hacc
    obtain ⟨p, base, -, -, hrr⟩ := extractedEntry_eq_some.mp hr
    refine ⟨r, Option.bind_eq_some_iff.mpr ⟨e, List.find?_eq_some_iff_append.mpr ⟨hacc, l₁, l₂, hl, ?_⟩, hr⟩, ?_⟩
    · intro x hx
      rw [Bool.not_eq_true', ← Bool.not_eq_true, hsel x (hl ▸ by simp [hx])]
      exact hno x hx
    · rw [hrr]

/-- The result of one key as the single call hands it out. -/
def ofResult : Except HyperSigError SignatureName → HyperSigResult SignatureName
  | .ok name => .ok name
  | .error e => .err e

/-! ### Verification meets its specification -/

theorem verifyMessageSignatures_spec (m : Message β γ) (keyAndId : List (κ × Option Text)) (now : UInt64)
    {results : List (Except HyperSigError SignatureName)} (h : m.verifyMessageSignatures keyAndId now = .ok results) :
    results.length = keyAndId.length ∧
      ∀ (i : Nat) (hk : i < keyAndId.length) (hr : i < results.length),
        (∀ name, results[i] = .ok name ↔ m.FirstAccepted keyAndId[i].1 keyAndId[i].2 now name) ∧
        m.verifyMessageSignature keyAndId[i].1 keyAndId[i].2 now = ofResult results[i] := by
  obtain ⟨map, hm, hall⟩ := verifyMessageSignatures_eq_ok.mp h
  refine ⟨hall.length_eq.symm, fun i hk hr => ?_⟩
  have hi : verifyWithKey map now keyAndId[i].1 keyAndId[i].2 = .ok results[i] :=
    (List.forall₂_iff_get.mp hall).2 i hk hr
  constructor
  · intro name
    rw [verifyWithKey_eq_ok hi, find?_selects_eq_some hm]
  · have hone : m.verifyMessageSignatures [(keyAndId[i].1, keyAndId[i].2)] now = .ok [results[i]] :=
      verifyMessageSignatures_eq_ok.mpr ⟨map, hm, .cons hi .nil⟩
    rw [verifyMessageSignature_eq, hone, Outcome.ok_bind]
    cases results[i] <;> rfl

end Message
end

/-! ### Two signatures of one request -/

/-- A key whose signatures are its own byte, whatever is signed. -/
structure ByteKey where
  byte : UInt8

namespace ByteKey

scoped instance : SigningKey ByteKey where
  sign k _ := .ok [k.byte]
  keyId _ := "k".toList
  alg _ := .ed25519

scoped instance : VerifyingKey ByteKey where
  verify k _ signature := if signature = [k.byte] then .ok () else .err (.invalidSignature "Invalid byte".toList)
  keyId _ := "k".toList
  alg _ := .ed25519

end ByteKey

open scoped ByteKey

/-- A header line from its texts. -/
def headerLine (l : Text × Text) : Option (HeaderName × HeaderValue) := do
  let name ← HeaderName.fromStr l.1
  let value ← HeaderValue.fromStr l.2
  some (name, value)

def sampleUri : Uri :=
  ⟨some ⟨"http".toList, by decide⟩, some ⟨"h".toList, by decide⟩, ⟨"/".toList, by decide⟩, none⟩

def getRequest (lines : List (Text × Text)) : Request Unit where
  method := ⟨"GET".toList, by decide⟩
  uri := sampleUri
  headers := ⟨lines.filterMap headerLine⟩
  body := ()

/-- Label `a` covers the method and bears a key id, label `b` covers nothing. -/
def twiceSigned : Message Unit Unit := .request (getRequest [
  (signatureInputHeader, "a=(\"@method\");keyid=\"k\", b=()".toList),
  (signatureHeader, "a=:AA==:, b=:AQ==:".toList)])

namespace Message

theorem twiceSigned_params : twiceSigned.getSignatureParams = .ok (.ofList [
    ("a".toList, ⟨none, none, none, none, some "k".toList, none, [⟨.derived .method, ∅⟩]⟩),
    ("b".toList, .ofComponents [])]) := by
  decide

theorem twiceSigned_verified : twiceSigned.FirstAccepted (ByteKey.mk 1) none 0 "b".toList ∧
    twiceSigned.FirstAccepted (ByteKey.mk 0) (some "k".toList) 0 "a".toList ∧
    ∀ name, ¬ twiceSigned.FirstAccepted (ByteKey.mk 1) (some "k".toList) 0 name := by
  have h : twiceSigned.verifyMessageSignatures
      [(ByteKey.mk 1, none), (ByteKey.mk 0, some "k".toList), (ByteKey.mk 1, some "k".toList)] 0 =
      .ok [.ok "b".toList, .ok "a".toList, .error (.invalidSignature "Invalid signature for the verifying key".toList)] := by
    decide
  obtain ⟨-, hspec⟩ := verifyMessageSignatures_spec _ _ _ h
  refine ⟨((hspec 0 (by decide) (by decide)).1 _).mp rfl, ((hspec 1 (by decide) (by decide)).1 _).mp rfl, ?_⟩
  intro name hname
  have := ((hspec 2 (by decide) (by decide)).1 name).mpr hname
  cases this

end Message
end HttpSig
