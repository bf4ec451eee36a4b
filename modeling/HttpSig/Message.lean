import HttpSig.HyperHttp

/-! A message of either kind with the request a response answers, so that one statement covers both traits. -/

namespace HttpSig
open Rust Sfv Http

inductive Message (β γ : Type) where
  | request (req : Request β)
  | response (res : Response β) (reqForParam : Option (Request γ))

namespace Message
variable {β γ κ : Type}

def message : Message β γ → RequestOrResponse β
  | request req => .request req
  | response res _ => .response res

def headers (m : Message β γ) : HeaderMap := m.message.headers

def reqForParam : Message β γ → Option (Request γ)
  | request _ => none
  | response _ r => r

def withHeaders : Message β γ → HeaderMap → Message β γ
  | request req, headers => request { req with headers }
  | response res r, headers => response { res with headers } r

def getAlgKeyIds : Message β γ → Bool → HyperSigResult (IndexMap SignatureName (Option AlgorithmName × Option Text))
  | request req, rsaSignature => req.getAlgKeyIds rsaSignature
  | response res _, rsaSignature => res.getAlgKeyIds rsaSignature

def getSignatureParams : Message β γ → HyperSigResult (IndexMap SignatureName HttpSignatureParams)
  | request req => req.getSignatureParams
  | response res _ => res.getSignatureParams

def extractSignatures : Message β γ → HyperSigResult SignatureMap
  | request req => req.extractSignatures
  | response res r => res.extractSignatures r

def verifyMessageSignatures [VerifyingKey κ] : Message β γ → List (κ × Option Text) → UInt64 →
    HyperSigResult (List (Except HyperSigError SignatureName))
  | request req, keyAndId, now => req.verifyMessageSignatures keyAndId now
  | response res r, keyAndId, now => res.verifyMessageSignatures keyAndId r now

def verifyMessageSignature [VerifyingKey κ] : Message β γ → κ → Option Text → UInt64 → HyperSigResult SignatureName
  | request req, key, keyId, now => req.verifyMessageSignature key keyId now
  | response res r, key, keyId, now => res.verifyMessageSignature key keyId r now

def setMessageSignatures [SigningKey κ] : Message β γ → List (HttpSignatureParams × κ × Option Text) →
    Message β γ × HyperSigResult Unit
  | request req, list =>
    let (req, r) := req.setMessageSignatures list
    (request req, r)
  | response res reqForParam, list =>
    let (res, r) := res.setMessageSignatures list reqForParam
    (response res reqForParam, r)

def setMessageSignature [SigningKey κ] : Message β γ → HttpSignatureParams → κ → Option Text →
    Message β γ × HyperSigResult Unit
  | request req, params, key, name =>
    let (req, r) := req.setMessageSignature params key name
    (request req, r)
  | response res reqForParam, params, key, name =>
    let (res, r) := res.setMessageSignature params key name reqForParam
    (response res reqForParam, r)

/-- The signature base that signing and verifying both build. -/
def signatureBase (m : Message β γ) (p : HttpSignatureParams) : HyperSigResult HttpSignatureBase :=
  buildSignatureBase m.message p m.reqForParam

/-! ### One definition behind both kinds -/

/-- A request never looks at a request behind it, whatever its body would be. -/
theorem extractCovered_request {δ : Type} (req : Request β) (id : HttpMessageComponentId) :
    extractCovered (.request req) (none : Option (Request γ)) id =
      extractCovered (.request req) (none : Option (Request δ)) id := by
  unfold extractCovered
  split
  · rfl
  · rfl

theorem buildSignatureBase_request {δ : Type} (req : Request β) (p : HttpSignatureParams) :
    buildSignatureBase (.request req) p (none : Option (Request γ)) =
      buildSignatureBase (.request req) p (none : Option (Request δ)) := by
  unfold buildSignatureBase
  rw [Outcome.mapM_congr fun id _ => extractCovered_request req id]

theorem extractSignaturesInner_request {δ : Type} (req : Request β) :
    extractSignaturesInner (.request req) (none : Option (Request γ)) =
      extractSignaturesInner (.request req) (none : Option (Request δ)) := by
  have h : extractEntry (.request req) (none : Option (Request γ)) =
      extractEntry (.request req) (none : Option (Request δ)) := by
    funext e
    rw [extractEntry, extractEntry, buildSignatureBase_request]
  rw [extractSignaturesInner, extractSignaturesInner, h]

theorem extractSignatures_eq (m : Message β γ) : m.extractSignatures = extractSignaturesInner m.message m.reqForParam := by
  cases m with
  | request req => exact extractSignaturesInner_request req
  | response res r => rfl

theorem getAlgKeyIds_eq (m : Message β γ) (rsaSignature : Bool) :
    m.getAlgKeyIds rsaSignature = getAlgKeyIdsInner rsaSignature m.message := by
  cases m <;> rfl

theorem getSignatureParams_eq (m : Message β γ) : m.getSignatureParams = getSignatureParamsInner m.message := by
  cases m <;> rfl

/-- The name of the kind in its error text. -/
def kind : Message β γ → Text
  | request _ => "request".toList
  | response .. => "response".toList

theorem verifyMessageSignatures_eq [VerifyingKey κ] (m : Message β γ) (keyAndId : List (κ × Option Text)) (now : UInt64) :
    m.verifyMessageSignatures keyAndId now =
      verifyMessageSignaturesOf m.kind m.message keyAndId m.reqForParam now := by
  cases m with
  | request req =>
    have h : extractSignaturesInner (.request req) (none : Option (Request Unit)) =
        extractSignaturesInner (.request req) (none : Option (Request γ)) := extractSignaturesInner_request req
    rw [verifyMessageSignatures, Http.Request.verifyMessageSignatures, verifyMessageSignaturesOf,
      verifyMessageSignaturesOf, h]
    rfl
  | response res r => rfl

theorem verifyMessageSignature_eq [VerifyingKey κ] (m : Message β γ) (key : κ) (keyId : Option Text) (now : UInt64) :
    m.verifyMessageSignature key keyId now = m.verifyMessageSignatures [(key, keyId)] now >>= popResult := by
  cases m <;> rfl

theorem setMessageSignatures_eq [SigningKey κ] (m : Message β γ) (list : List (HttpSignatureParams × κ × Option Text)) :
    m.setMessageSignatures list = (m.withHeaders (setMessageSignaturesOf m.message list m.reqForParam).1,
      (setMessageSignaturesOf m.message list m.reqForParam).2) := by
  cases m with
  | request req =>
    have h : signedHeaders (.request req) list (none : Option (Request Unit)) =
        signedHeaders (.request req) list (none : Option (Request γ)) := by
      rw [signedHeaders, signedHeaders]
      refine congrArg (· >>= _) (Outcome.mapM_congr fun e _ => ?_)
      rw [buildSignatureBase_request]
    have h' : setMessageSignaturesOf (.request req) list (none : Option (Request Unit)) =
        setMessageSignaturesOf (.request req) list (none : Option (Request γ)) := by
      unfold setMessageSignaturesOf
      rw [h]
    rw [setMessageSignatures, Http.Request.setMessageSignatures, h']
    rfl
  | response res r => rfl

theorem setMessageSignature_eq [SigningKey κ] (m : Message β γ) (params : HttpSignatureParams) (key : κ)
    (name : Option Text) : m.setMessageSignature params key name = m.setMessageSignatures [(params, key, name)] := by
  cases m <;> rfl

@[simp] theorem headers_withHeaders (m : Message β γ) (h : HeaderMap) : (m.withHeaders h).headers = h := by
  cases m <;> rfl

@[simp] theorem reqForParam_withHeaders (m : Message β γ) (h : HeaderMap) :
    (m.withHeaders h).reqForParam = m.reqForParam := by
  cases m <;> rfl

end Message
end HttpSig
