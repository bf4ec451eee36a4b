import HttpSig.Http
import HttpSig.SignatureBase

/-! Signing and verifying `http` messages: the values of a component are taken from the message, the
signature base is built from them, and the signature headers are appended to the message or read from it. -/

namespace HttpSig
open Rust Sfv Http

abbrev SignatureName := Text

/-- A request or a response. -/
inductive RequestOrResponse (β : Type) where
  | request (req : Request β)
  | response (res : Response β)

namespace RequestOrResponse
variable {β : Type}

def method : RequestOrResponse β → HyperSigResult Method
  | request req => .ok req.method
  | response _ => .err (.invalidComponentName "`method` is only for request".toList)

def uri : RequestOrResponse β → HyperSigResult Uri
  | request req => .ok req.uri
  | response _ => .err (.invalidComponentName "`uri` is only for request".toList)

def headers : RequestOrResponse β → HeaderMap
  | request req => req.headers
  | response res => res.headers

def status : RequestOrResponse β → HyperSigResult StatusCode
  | response res => .ok res.status
  | request _ => .err (.invalidComponentName "`status` is only for response".toList)

def isRequest : RequestOrResponse β → Bool
  | request _ => true
  | response _ => false

end RequestOrResponse

def signatureHeader : Text := "signature".toList
def signatureInputHeader : Text := "signature-input".toList

/-- The names of the signature headers as they are appended. -/
def signatureHeaderName : HeaderName := ⟨signatureHeader, by decide⟩
def signatureInputHeaderName : HeaderName := ⟨signatureInputHeader, by decide⟩

@[simp] theorem signatureHeaderName_text : signatureHeaderName.text = signatureHeader := rfl
@[simp] theorem signatureInputHeaderName_text : signatureInputHeaderName.text = signatureInputHeader := rfl

def hasMessageSignatureInner (headers : HeaderMap) : Bool :=
  headers.containsKey signatureHeader && headers.containsKey signatureInputHeader

/-- `HeaderValue::to_str` with its error as `?` converts it. -/
def toStr (v : HeaderValue) : HyperSigResult Text := Outcome.okOr .failedToStrSignatureHeaders v.toStr

section Extract
variable {β γ : Type}

/-! ### Components of a message -/

def extractHttpField (msg : RequestOrResponse β) (id : HttpMessageComponentId) : HyperSigResult HttpMessageComponent :=
  match id.name with
  | .derived _ => .err (.invalidComponentName "invalid http message component name as http field".toList)
  | .httpField headerName => do
    let fieldValues ← (msg.headers.getAll headerName).mapM toStr
    intoHyper (HttpMessageComponent.tryFrom id fieldValues)

/-- Whether a derived component may carry a parameter, read from this message. -/
def checkDerivedParam (msg : RequestOrResponse β) (derivedId : DerivedComponentName) :
    HttpMessageComponentParam → HyperSigResult Unit
  | .name _ =>
    if derivedId = .queryParam then .ok ()
    else .err (.invalidComponentParam "`name` parameter is only allowed for `@query-param`".toList)
  | .req =>
    if msg.isRequest then .ok ()
    else .err (.invalidComponentParam "`req`-tagged component must be extracted from the source request".toList)
  | p => .err (.invalidComponentParam
      ("parameter `".toList ++ p.toText ++ "` is not allowed on derived components".toList))

/-- Whether a message of this kind has the derived component at all. -/
def checkDerivedKind (msg : RequestOrResponse β) (derivedId : DerivedComponentName) (hasReq : Bool) :
    HyperSigResult Unit :=
  match msg with
  | .request _ =>
    if derivedId = .status then .err (.invalidComponentName "`status` is only for response".toList) else .ok ()
  | .response _ =>
    if derivedId ≠ .status && derivedId ≠ .signatureParams && !hasReq then
      .err (.invalidComponentName
        "derived components other than `@status` and `@signature-params` require `req` parameter for response".toList)
    else if derivedId = .status && hasReq then
      .err (.invalidComponentParam "`@status` does not accept `req` parameter".toList)
    else .ok ()

/-- `str::split` at a character, without the empty parts. -/
def splitNonEmpty (d : Char) (s : Text) : List Text := (s.splitOn d).filter fun p => !p.isEmpty

def authorityText (u : Uri) : Text := (u.authority.map UriText.text).getD []

/-- The values a derived component is made from. -/
def derivedFieldValues (msg : RequestOrResponse β) : DerivedComponentName → HyperSigResult (List Text)
  | .method => do
    let m ← msg.method
    .ok [m.text]
  | .targetUri => do
    let u ← msg.uri
    .ok [u.toText]
  | .authority => do
    let u ← msg.uri
    .ok [authorityText u]
  | .scheme => do
    let u ← msg.uri
    .ok [(u.scheme.map UriText.text).getD []]
  | .requestTarget => do
    let m ← msg.method
    if m = Method.CONNECT then do
      let u ← msg.uri
      .ok [authorityText u]
    else if m = Method.OPTIONS then .ok [['*']]
    else do
      let u ← msg.uri
      .ok [u.pathAndQuery.getD []]
  | .path => do
    let u ← msg.uri
    .ok [if u.path.isEmpty then ['/'] else u.path]
  | .query => do
    let u ← msg.uri
    .ok [(u.query.map ('?' :: ·)).getD ['?']]
  | .queryParam => do
    let u ← msg.uri
    .ok (splitNonEmpty '&' (u.query.getD []))
  | .status => do
    let s ← msg.status
    .ok [s.asStr]
  | .signatureParams => .ok ((msg.headers.getAll signatureInputHeader).map fun v => v.toStr.getD [])

def extractDerivedComponent (msg : RequestOrResponse β) (id : HttpMessageComponentId) :
    HyperSigResult HttpMessageComponent :=
  match id.name with
  | .httpField _ => .err (.invalidComponentName "invalid http message component name as derived component".toList)
  | .derived derivedId => do
    id.params.items.forM (checkDerivedParam msg derivedId)
    checkDerivedKind msg derivedId (HttpMessageComponentParams.hasReq id.params)
    let fieldValues ← derivedFieldValues msg derivedId
    intoHyper (HttpMessageComponent.tryFrom id fieldValues)

def extractHttpMessageComponent (msg : RequestOrResponse β) (id : HttpMessageComponentId) :
    HyperSigResult HttpMessageComponent :=
  match id.name with
  | .httpField _ => extractHttpField msg id
  | .derived _ => extractDerivedComponent msg id

/-! ### Signature bases of a message -/

/-- The component an id names: with `req` it is the one of the request behind a response. -/
def extractCovered (msg : RequestOrResponse β) (reqForParam : Option (Request γ)) (id : HttpMessageComponentId) :
    HyperSigResult HttpMessageComponent :=
  if HttpMessageComponentParams.hasReq id.params then
    if msg.isRequest then .err (.invalidComponentParam "`req` is not allowed in request".toList)
    else
      match reqForParam with
      | none => .err (.invalidComponentParam "`req` is required for the param".toList)
      | some req => extractHttpMessageComponent (.request req) id
  else extractHttpMessageComponent msg id

def buildSignatureBase (msg : RequestOrResponse β) (signatureParams : HttpSignatureParams)
    (reqForParam : Option (Request γ)) : HyperSigResult HttpSignatureBase := do
  let componentLines ← signatureParams.coveredComponents.mapM (extractCovered msg reqForParam)
  intoHyper (HttpSignatureBase.tryNew componentLines signatureParams)

def extractSignatureHeadersWithName (msg : RequestOrResponse β) : HyperSigResult HttpSignatureHeadersMap :=
  if !(msg.headers.containsKey signatureInputHeader && msg.headers.containsKey signatureHeader) then
    .err (.noSignatureHeaders "The request does not have signature and signature-input headers".toList)
  else do
    let signatureInputStrings ← (msg.headers.getAll signatureInputHeader).mapM toStr
    let signatureStrings ← (msg.headers.getAll signatureHeader).mapM toStr
    intoHyper (HttpSignatureHeaders.tryParse (join ", ".toList signatureStrings)
      (join ", ".toList signatureInputStrings))

abbrev SignatureMap := IndexMap SignatureName (HttpSignatureBase × HttpSignatureHeaders)

/-- An entry with its base, unless the base cannot be built. -/
def extractEntry (msg : RequestOrResponse β) (reqForParam : Option (Request γ))
    (e : SignatureName × HttpSignatureHeaders) :
    HyperSigResult (Option (SignatureName × (HttpSignatureBase × HttpSignatureHeaders))) :=
  (Option.map fun base => (e.1, (base, e.2))) <$>
    (buildSignatureBase msg e.2.signatureParams reqForParam).toOption

def extractSignaturesInner (msg : RequestOrResponse β) (reqForParam : Option (Request γ)) :
    HyperSigResult SignatureMap := do
  let signatureHeadersMap ← extractSignatureHeadersWithName msg
  let extracted ← signatureHeadersMap.entries.mapM (extractEntry msg reqForParam)
  .ok (IndexMap.ofList (extracted.filterMap id))

def getAlgKeyIdsInner (rsaSignature : Bool) (msg : RequestOrResponse β) :
    HyperSigResult (IndexMap SignatureName (Option AlgorithmName × Option Text)) := do
  let signatureHeadersMap ← extractSignatureHeadersWithName msg
  let res ← signatureHeadersMap.entries.mapM fun e => do
    let alg ← match e.2.signatureParams.alg with
      | none => .ok none
      | some a => (AlgorithmName.fromStr rsaSignature a).toOption
    .ok (e.1, (alg, e.2.signatureParams.keyid))
  .ok (IndexMap.ofList res)

def getSignatureParamsInner (msg : RequestOrResponse β) : HyperSigResult (IndexMap SignatureName HttpSignatureParams) := do
  let signatureHeadersMap ← extractSignatureHeadersWithName msg
  .ok (IndexMap.ofList (signatureHeadersMap.entries.map fun e => (e.1, e.2.signatureParams)))

end Extract

/-! ### Verifying -/

section Verify
variable {β γ κ : Type} [VerifyingKey κ]

/-- The name of a signature that the key accepts. -/
def acceptedName (key : κ) (now : UInt64) (e : SignatureName × (HttpSignatureBase × HttpSignatureHeaders)) :
    HyperSigResult (Option SignatureName) :=
  (Option.map fun _ => e.1) <$> (e.2.1.verifySignatureHeaders key e.2.2 now).toOption

/-- The signatures whose parameters bear the key id, when one is asked for. -/
def filterKeyId (map : SignatureMap) (keyId : Option Text) :
    List (SignatureName × (HttpSignatureBase × HttpSignatureHeaders)) :=
  match keyId with
  | some keyId => map.entries.filter fun e => e.2.1.keyid = some keyId
  | none => map.entries

/-- What one key makes of the signatures: the first name it accepts. Every one of them is tried. -/
def verifyWithKey (map : SignatureMap) (now : UInt64) (key : κ) (keyId : Option Text) :
    HyperSigResult (Except HyperSigError SignatureName) :=
  let filtered := filterKeyId map keyId
  if filtered.isEmpty then
    .ok (.error (.noSignatureHeaders "No signature as appropriate target for verification".toList))
  else do
    let names ← filtered.mapM (acceptedName key now)
    match (IndexSet.ofList (names.filterMap id)).items.head? with
    | some name => .ok (.ok name)
    | none => .ok (.error (.invalidSignature "Invalid signature for the verifying key".toList))

def verifyMessageSignaturesInner (map : SignatureMap) (keyAndId : List (κ × Option Text)) (now : UInt64) :
    HyperSigResult (List (Except HyperSigError SignatureName)) :=
  keyAndId.mapM fun k => verifyWithKey map now k.1 k.2

/-- `verify_message_signatures` of either kind of message. -/
def verifyMessageSignaturesOf (kind : Text) (msg : RequestOrResponse β) (keyAndId : List (κ × Option Text))
    (reqForParam : Option (Request γ)) (now : UInt64) : HyperSigResult (List (Except HyperSigError SignatureName)) :=
  if !hasMessageSignatureInner msg.headers then
    .err (.noSignatureHeaders
      ("The ".toList ++ kind ++ " does not have signature and signature-input headers".toList))
  else do
    let map ← extractSignaturesInner msg reqForParam
    verifyMessageSignaturesInner map keyAndId now

/-- The last of the results, as `pop` takes it. -/
def popResult (results : List (Except HyperSigError SignatureName)) : HyperSigResult SignatureName :=
  match results.getLast? with
  | some (.ok name) => .ok name
  | some (.error e) => .err e
  | none => .panic

end Verify

/-! ### Signing -/

section Sign
variable {β γ κ : Type} [SigningKey κ]

/-- Appends each header pair; what is appended before an error stays. -/
def appendSignatureHeaders : List HttpSignatureHeaders → HeaderMap → HeaderMap × HyperSigResult Unit
  | [], m => (m, .ok ())
  | h :: hs, m =>
    match HeaderValue.fromStr h.signatureInputHeaderValue with
    | none => (m, .err .invalidHeaderValue)
    | some input =>
      let m := m.append signatureInputHeaderName input
      match HeaderValue.fromStr h.signatureHeaderValue with
      | none => (m, .err .invalidHeaderValue)
      | some signature => appendSignatureHeaders hs (m.append signatureHeaderName signature)

/-- The header pairs that signing a message makes: all the bases first, then all the signatures. -/
def signedHeaders (msg : RequestOrResponse β) (paramsKeyName : List (HttpSignatureParams × κ × Option Text))
    (reqForParam : Option (Request γ)) : HyperSigResult (List HttpSignatureHeaders) := do
  let bases ← paramsKeyName.mapM fun e => do
    let base ← buildSignatureBase msg e.1 reqForParam
    .ok (base, e.2)
  Outcome.joinAll (bases.map fun e => intoHyper (e.1.buildSignatureHeaders e.2.1 e.2.2))

/-- `set_message_signatures` of either kind of message: its header map afterwards, and the result. -/
def setMessageSignaturesOf (msg : RequestOrResponse β) (paramsKeyName : List (HttpSignatureParams × κ × Option Text))
    (reqForParam : Option (Request γ)) : HeaderMap × HyperSigResult Unit :=
  match signedHeaders msg paramsKeyName reqForParam with
  | .ok headers => appendSignatureHeaders headers msg.headers
  | .err e => (msg.headers, .err e)
  | .panic => (msg.headers, .panic)

end Sign
end HttpSig

/-! ### The traits for requests and responses -/

namespace Http.Request
open Rust HttpSig
variable {β κ : Type}

def hasMessageSignature (req : Request β) : Bool := hasMessageSignatureInner req.headers

def getAlgKeyIds (req : Request β) (rsaSignature : Bool) :
    HyperSigResult (IndexMap SignatureName (Option AlgorithmName × Option Text)) :=
  getAlgKeyIdsInner rsaSignature (.request req)

def getSignatureParams (req : Request β) : HyperSigResult (IndexMap SignatureName HttpSignatureParams) :=
  getSignatureParamsInner (.request req)

def extractSignatures (req : Request β) : HyperSigResult SignatureMap :=
  extractSignaturesInner (.request req) (none : Option (Request Unit))

def verifyMessageSignatures [VerifyingKey κ] (req : Request β) (keyAndId : List (κ × Option Text)) (now : UInt64) :
    HyperSigResult (List (Except HyperSigError SignatureName)) :=
  verifyMessageSignaturesOf "request".toList (.request req) keyAndId (none : Option (Request Unit)) now

def verifyMessageSignature [VerifyingKey κ] (req : Request β) (key : κ) (keyId : Option Text) (now : UInt64) :
    HyperSigResult SignatureName := do
  let results ← req.verifyMessageSignatures [(key, keyId)] now
  popResult results

def setMessageSignatures [SigningKey κ] (req : Request β)
    (paramsKeyName : List (HttpSignatureParams × κ × Option Text)) : Request β × HyperSigResult Unit :=
  let (headers, res) := setMessageSignaturesOf (.request req) paramsKeyName (none : Option (Request Unit))
  ({ req with headers }, res)

def setMessageSignature [SigningKey κ] (req : Request β) (params : HttpSignatureParams) (key : κ) (name : Option Text) :
    Request β × HyperSigResult Unit :=
  req.setMessageSignatures [(params, key, name)]

end Http.Request

namespace Http.Response
open Rust HttpSig
variable {β γ κ : Type}

def hasMessageSignature (res : Response β) : Bool := hasMessageSignatureInner res.headers

def getAlgKeyIds (res : Response β) (rsaSignature : Bool) :
    HyperSigResult (IndexMap SignatureName (Option AlgorithmName × Option Text)) :=
  getAlgKeyIdsInner rsaSignature (.response res)

def getSignatureParams (res : Response β) : HyperSigResult (IndexMap SignatureName HttpSignatureParams) :=
  getSignatureParamsInner (.response res)

def extractSignatures (res : Response β) (reqForParam : Option (Request γ)) : HyperSigResult SignatureMap :=
  extractSignaturesInner (.response res) reqForParam

def verifyMessageSignatures [VerifyingKey κ] (res : Response β) (keyAndId : List (κ × Option Text))
    (reqForParam : Option (Request γ)) (now : UInt64) : HyperSigResult (List (Except HyperSigError SignatureName)) :=
  verifyMessageSignaturesOf "response".toList (.response res) keyAndId reqForParam now

def verifyMessageSignature [VerifyingKey κ] (res : Response β) (key : κ) (keyId : Option Text)
    (reqForParam : Option (Request γ)) (now : UInt64) : HyperSigResult SignatureName := do
  let results ← res.verifyMessageSignatures [(key, keyId)] reqForParam now
  popResult results

def setMessageSignatures [SigningKey κ] (res : Response β)
    (paramsKeyName : List (HttpSignatureParams × κ × Option Text)) (reqForParam : Option (Request γ)) :
    Response β × HyperSigResult Unit :=
  let (headers, r) := setMessageSignaturesOf (.response res) paramsKeyName reqForParam
  ({ res with headers }, r)

def setMessageSignature [SigningKey κ] (res : Response β) (params : HttpSignatureParams) (key : κ) (name : Option Text)
    (reqForParam : Option (Request γ)) : Response β × HyperSigResult Unit :=
  res.setMessageSignatures [(params, key, name)] reqForParam

end Http.Response
