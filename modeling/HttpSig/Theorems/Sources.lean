import HttpSig.Theorems.Verification

/-! What verification reads: the two signature headers and, for each covered id, its own source in the message
or in the request behind it. Messages that agree on these are not told apart. -/

namespace HttpSig
open Rust Sfv Http

section
variable {β β' γ γ' : Type}

/-- Two messages agree on what a name refers to: the lines of a field, or what a derived name reads. -/
def SameSource (msg : RequestOrResponse β) (msg' : RequestOrResponse β') : HttpMessageComponentName → Prop
  | .httpField name => msg.headers.getAll name = msg'.headers.getAll name
  | .derived .method => msg.method = msg'.method
  | .derived .requestTarget => msg.method = msg'.method ∧ msg.uri = msg'.uri
  | .derived .status => msg.status = msg'.status
  | .derived .signatureParams => msg.headers.getAll signatureInputHeader = msg'.headers.getAll signatureInputHeader
  | .derived _ => msg.uri = msg'.uri

/-- The same of the requests behind two responses. -/
def SameRequestSource (r : Option (Request γ)) (r' : Option (Request γ')) (name : HttpMessageComponentName) : Prop :=
  match r, r' with
  | some req, some req' => SameSource (.request req) (.request req') name
  | none, none => True
  | _, _ => False

/-! ### One component -/

variable {msg : RequestOrResponse β} {msg' : RequestOrResponse β'} {id : HttpMessageComponentId}

theorem derivedFieldValues_congr {n : DerivedComponentName} (h : SameSource msg msg' (.derived n)) :
    derivedFieldValues msg n = derivedFieldValues msg' n := by
  cases n with
  | method =>
    rw [derivedFieldValues, derivedFieldValues]
    rw [show msg.method = msg'.method from h]
  | requestTarget =>
    rw [derivedFieldValues, derivedFieldValues]
    rw [show msg.method = msg'.method from h.1, show msg.uri = msg'.uri from h.2]
  | status =>
    rw [derivedFieldValues, derivedFieldValues]
    rw [show msg.status = msg'.status from h]
  | signatureParams =>
    rw [derivedFieldValues, derivedFieldValues]
    rw [show msg.headers.getAll signatureInputHeader = msg'.headers.getAll signatureInputHeader from h]
  | _ =>
    rw [derivedFieldValues, derivedFieldValues]
    rw [show msg.uri = msg'.uri from h]

theorem checkDerivedParam_congr (hk : msg.isRequest = msg'.isRequest) (n : DerivedComponentName) :
    checkDerivedParam msg n = checkDerivedParam msg' n := by
  funext p
  cases p <;> simp only [checkDerivedParam, hk]

theorem checkDerivedKind_congr (hk : msg.isRequest = msg'.isRequest) (n : DerivedComponentName) (b : Bool) :
    checkDerivedKind msg n b = checkDerivedKind msg' n b := by
  cases msg <;> cases msg' <;> first | rfl | cases hk

theorem extractHttpMessageComponent_congr (hk : msg.isRequest = msg'.isRequest) (h : SameSource msg msg' id.name) :
    extractHttpMessageComponent msg id = extractHttpMessageComponent msg' id := by
  unfold extractHttpMessageComponent extractHttpField extractDerivedComponent
  cases hn : id.name with
  | httpField name =>
    rw [hn] at h
    dsimp only
    rw [show msg.headers.getAll name = msg'.headers.getAll name from h]
  | derived n =>
    rw [hn] at h
    dsimp only
    rw [checkDerivedParam_congr hk, checkDerivedKind_congr hk, derivedFieldValues_congr h]

/-- With `req` an id is read from the request behind the message, without it from the message. -/
theorem extractCovered_congr {r : Option (Request γ)} {r' : Option (Request γ')} (hk : msg.isRequest = msg'.isRequest)
    (h : if HttpMessageComponentParams.hasReq id.params then SameRequestSource r r' id.name else SameSource msg msg' id.name) :
    extractCovered msg r id = extractCovered msg' r' id := by
  unfold extractCovered
  rw [hk]
  split
  · rename_i hr
    rw [if_pos hr] at h
    split
    · rfl
    · cases r <;> cases r'
      · rfl
      · cases h
      · cases h
      · exact extractHttpMessageComponent_congr rfl h
  · rename_i hr
    rw [if_neg hr] at h
    exact extractHttpMessageComponent_congr hk h

theorem buildSignatureBase_congr {r : Option (Request γ)} {r' : Option (Request γ')} {p : HttpSignatureParams}
    (h : ∀ id ∈ p.coveredComponents, extractCovered msg r id = extractCovered msg' r' id) :
    buildSignatureBase msg p r = buildSignatureBase msg' p r' := by
  rw [buildSignatureBase, buildSignatureBase, Outcome.mapM_congr h]

/-! ### The headers -/

theorem extractSignatureHeadersWithName_congr
    (hi : msg.headers.getAll signatureInputHeader = msg'.headers.getAll signatureInputHeader)
    (hs : msg.headers.getAll signatureHeader = msg'.headers.getAll signatureHeader) :
    extractSignatureHeadersWithName msg = extractSignatureHeadersWithName msg' := by
  rw [extractSignatureHeadersWithName, extractSignatureHeadersWithName]
  simp only [containsKey_eq, hi, hs]

end

/-! ### Messages -/

namespace Message
variable {β β' γ γ' κ : Type} {m : Message β γ} {m' : Message β' γ'}

/-- Two messages agree on the source of an id: in the message, or with `req` in the request behind it. -/
def Agree (m : Message β γ) (m' : Message β' γ') (id : HttpMessageComponentId) : Prop :=
  if HttpMessageComponentParams.hasReq id.params then SameRequestSource m.reqForParam m'.reqForParam id.name
  else SameSource m.message m'.message id.name

theorem signatureBase_congr {p : HttpSignatureParams} (hk : m.message.isRequest = m'.message.isRequest)
    (h : ∀ id ∈ p.coveredComponents, m.Agree m' id) : m.signatureBase p = m'.signatureBase p :=
  buildSignatureBase_congr fun id hid => extractCovered_congr hk (h id hid)

/-- The parameters that the labels of a message give. -/
theorem getSignatureParams_of_ok {map : HttpSignatureHeadersMap}
    (h : extractSignatureHeadersWithName m.message = .ok map) :
    ∃ params, m.getSignatureParams = .ok params ∧ ∀ e ∈ map.entries, (e.1, e.2.signatureParams) ∈ params.entries := by
  have hnd : ((map.entries.map fun e => (e.1, e.2.signatureParams)).map Prod.fst).Nodup := by
    rw [List.map_map]
    exact map.nodup
  refine ⟨_, by rw [getSignatureParams_eq, getSignatureParamsInner, h, Outcome.ok_bind], fun e he => ?_⟩
  rw [IndexMap.entries_ofList hnd]
  exact List.mem_map.mpr ⟨e, he, rfl⟩

theorem extractSignatures_congr (hk : m.message.isRequest = m'.message.isRequest)
    (hi : m.headers.getAll signatureInputHeader = m'.headers.getAll signatureInputHeader)
    (hs : m.headers.getAll signatureHeader = m'.headers.getAll signatureHeader)
    (h : ∀ params, m.getSignatureParams = .ok params → ∀ e ∈ params.entries, ∀ id ∈ e.2.coveredComponents, m.Agree m' id) :
    m.extractSignatures = m'.extractSignatures := by
  have hread : extractSignatureHeadersWithName m.message = extractSignatureHeadersWithName m'.message :=
    extractSignatureHeadersWithName_congr hi hs
  rw [extractSignatures_eq, extractSignatures_eq, extractSignaturesInner, extractSignaturesInner, ← hread]
  cases hx : extractSignatureHeadersWithName m.message with
  | ok map =>
    obtain ⟨params, hparams, hmem⟩ := getSignatureParams_of_ok hx
    rw [Outcome.ok_bind, Outcome.ok_bind]
    have hentry : ∀ e ∈ map.entries, extractEntry m.message m.reqForParam e = extractEntry m'.message m'.reqForParam e := by
      intro e he
      have hbase := signatureBase_congr hk fun id hid => h params hparams _ (hmem e he) id hid
      rw [extractEntry, extractEntry]
      rw [signatureBase, signatureBase] at hbase
      rw [hbase]
    rw [Outcome.mapM_congr hentry]
  | _ => rfl

/-- Verification depends on nothing but the signature headers and the sources of the covered ids. -/
theorem outcomes_agree (hk : m.message.isRequest = m'.message.isRequest)
    (hi : m.headers.getAll signatureInputHeader = m'.headers.getAll signatureInputHeader)
    (hs : m.headers.getAll signatureHeader = m'.headers.getAll signatureHeader)
    (h : ∀ params, m.getSignatureParams = .ok params → ∀ e ∈ params.entries, ∀ id ∈ e.2.coveredComponents, m.Agree m' id) :
    m.extractSignatures = m'.extractSignatures ∧
      ∀ {κ : Type} [VerifyingKey κ] (keyAndId : List (κ × Option Text)) (now : UInt64),
        m.verifyMessageSignatures keyAndId now = m'.verifyMessageSignatures keyAndId now := by
  have hex := extractSignatures_congr hk hi hs h
  refine ⟨hex, fun keyAndId now => ?_⟩
  have hkind : m.kind = m'.kind := by
    cases m <;> cases m' <;> first | rfl | cases hk
  have hhas : hasMessageSignatureInner m.message.headers = hasMessageSignatureInner m'.message.headers := by
    rw [hasMessageSignatureInner, hasMessageSignatureInner, containsKey_eq, containsKey_eq, containsKey_eq, containsKey_eq]
    rw [show m.message.headers.getAll _ = _ from hi, show m.message.headers.getAll _ = _ from hs]
    rfl
  rw [verifyMessageSignatures_eq, verifyMessageSignatures_eq, verifyMessageSignaturesOf, verifyMessageSignaturesOf, hkind, hhas,
    ← extractSignatures_eq, ← extractSignatures_eq, hex]

/-! ### An uncovered line -/

open scoped ByteKey

/-- `twiceSigned` with one more line, which neither label covers. -/
def twiceSignedVia : Message Unit Unit := .request (getRequest [
  ("via".toList, "1.1 proxy".toList),
  (signatureInputHeader, "a=(\"@method\");keyid=\"k\", b=()".toList),
  (signatureHeader, "a=:AA==:, b=:AQ==:".toList)])

theorem twiceSignedVia_agrees : twiceSigned.extractSignatures = twiceSignedVia.extractSignatures ∧
    twiceSigned.verifyMessageSignatures [(ByteKey.mk 0, none), (ByteKey.mk 2, none)] 7 =
      twiceSignedVia.verifyMessageSignatures [(ByteKey.mk 0, none), (ByteKey.mk 2, none)] 7 := by
  have hagree : ∀ params, twiceSigned.getSignatureParams = .ok params → ∀ e ∈ params.entries,
      ∀ id ∈ e.2.coveredComponents, twiceSigned.Agree twiceSignedVia id := by
    intro params hp e he id hid
    rw [twiceSigned_params] at hp
    cases hp
    rcases List.mem_pair.mp he with rfl | rfl
    · obtain rfl := List.mem_singleton.mp hid
      exact (rfl : Outcome.ok _ = Outcome.ok _)
    · cases hid
  obtain ⟨hex, hver⟩ := outcomes_agree (by rfl) (by decide) (by decide) hagree
  exact ⟨hex, hver _ _⟩

end Message
end HttpSig
