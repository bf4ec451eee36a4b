import HttpSig.SignatureParams

/-! Signature bases, and the header pair that carries a signature with its parameters. -/

namespace HttpSig
open Rust Sfv

structure HttpSignatureHeaders where
  signatureName : Text
  signature : Bytes
  signatureParams : HttpSignatureParams
  deriving DecidableEq

abbrev HttpSignatureHeadersMap := IndexMap Text HttpSignatureHeaders

def isByteSequence : ListEntry → Bool
  | .item ⟨.byteSequence _, _⟩ => true
  | _ => false

def isInnerList : ListEntry → Bool
  | .innerList _ => true
  | _ => false

namespace HttpSignatureHeaders

/-- One member of `signature-input` with the bytes stored under the same label. -/
def readMember (signature : Dictionary) (k : Key) (v : ListEntry) : HttpSigResult (Text × HttpSignatureHeaders) := do
  let signatureParams ← HttpSignatureParams.tryFrom v
  match signature.get? k with
  | some (.item ⟨.byteSequence bytes, _⟩) => .ok (k.text, ⟨k.text, bytes, signatureParams⟩)
  | _ => .panic

def tryParse (signatureHeader signatureInputHeader : Text) : HttpSigResult HttpSignatureHeadersMap := do
  let signatureInput ← Outcome.okOr .parseSFVError (parseDictionaryField signatureInputHeader)
  let signature ← Outcome.okOr .parseSFVError (parseDictionaryField signatureHeader)
  if signature.length ≠ signatureInput.length then
    .err (.buildSignatureHeaderError
      "The number of signature and signature-input headers are not the same".toList)
  else if !signature.keys.all signatureInput.containsKey then
    .err (.buildSignatureHeaderError "The signature and signature-input headers are not the same".toList)
  else if !signature.values.all isByteSequence then
    .err (.buildSignatureHeaderError "The signature header is not a dictionary".toList)
  else if !signatureInput.values.all isInnerList then
    .err (.buildSignatureHeaderError "The signature-input header is not a dictionary".toList)
  else do
    let res ← signatureInput.entries.mapM fun e => readMember signature e.1 e.2
    .ok (IndexMap.ofList res)

def signatureHeaderValue (h : HttpSignatureHeaders) : Text :=
  h.signatureName ++ '=' :: ':' :: Base64.encode h.signature ++ [':']

def signatureInputHeaderValue (h : HttpSignatureHeaders) : Text := h.signatureName ++ '=' :: h.signatureParams.toText

end HttpSignatureHeaders

/-- The name of a signature that is given none. -/
def defaultSignatureName : Text := "sig".toList

/-- Whether the lines bear the covered ids one by one. -/
def idsMatch (componentLines : List HttpMessageComponent) (coveredComponents : List HttpMessageComponentId) : Bool :=
  (componentLines.zip coveredComponents).all fun e => e.1.id.beq e.2

/-- A signature base: one line for each covered component, in their order. -/
structure HttpSignatureBase where
  componentLines : List HttpMessageComponent
  signatureParams : HttpSignatureParams
  length_eq : componentLines.length = signatureParams.coveredComponents.length
  ids_match : idsMatch componentLines signatureParams.coveredComponents = true
  deriving DecidableEq

namespace HttpSignatureBase

def tryNew (componentLines : List HttpMessageComponent) (signatureParams : HttpSignatureParams) :
    HttpSigResult HttpSignatureBase :=
  if hlen : componentLines.length = signatureParams.coveredComponents.length then
    if hids : idsMatch componentLines signatureParams.coveredComponents = true then
      .ok ⟨componentLines, signatureParams, hlen, hids⟩
    else .err (.buildSignatureBaseError
      "The order of component lines is not the same as the order of covered message component ids".toList)
  else .err (.buildSignatureBaseError
    "The number of component lines is not the same as the number of covered message component ids".toList)

def toText (base : HttpSignatureBase) : Text :=
  base.componentLines.flatMap (fun line => line.toText ++ ['\n']) ++
    "\"@signature-params\": ".toList ++ base.signatureParams.toText

def asBytes (base : HttpSignatureBase) : Bytes := utf8Bytes base.toText

section
variable {κ : Type}

def buildRawSignature [SigningKey κ] (base : HttpSignatureBase) (signingKey : κ) : HttpSigResult Bytes :=
  SigningKey.sign signingKey base.asBytes

def buildSignatureHeaders [SigningKey κ] (base : HttpSignatureBase) (signingKey : κ) (signatureName : Option Text) :
    HttpSigResult HttpSignatureHeaders := do
  let signature ← base.buildRawSignature signingKey
  .ok ⟨signatureName.getD defaultSignatureName, signature, base.signatureParams⟩

def verifySignatureHeaders [VerifyingKey κ] (base : HttpSignatureBase) (verifyingKey : κ)
    (signatureHeaders : HttpSignatureHeaders) (now : UInt64) : HttpSigResult Unit :=
  if signatureHeaders.signatureParams.isExpired now then
    .err (.expiredSignatureParams "Signature params is expired".toList)
  else VerifyingKey.verify verifyingKey base.asBytes signatureHeaders.signature

end

def keyid (base : HttpSignatureBase) : Option Text := base.signatureParams.keyid

end HttpSignatureBase
end HttpSig
