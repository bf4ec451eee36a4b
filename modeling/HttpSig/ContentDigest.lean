import HttpSig.Crypto
import HttpSig.HyperHttp

/-! Content digests: setting the `content-digest` field of a message from its body, and verifying a body against
that field. The hash functions belong to another crate, and so does reading a body. -/

namespace HttpSig
open Rust Sfv Http

def contentDigestHeader : Text := "content-digest".toList

/-- The name of the field as it is inserted. -/
def contentDigestHeaderName : HeaderName := ⟨contentDigestHeader, by decide⟩

@[simp] theorem contentDigestHeaderName_text : contentDigestHeaderName.text = contentDigestHeader := rfl

inductive ContentDigestType where
  | sha256
  | sha512
  deriving DecidableEq

namespace ContentDigestType

def toText : ContentDigestType → Text
  | sha256 => "sha-256".toList
  | sha512 => "sha-512".toList

def fromStr (s : Text) : HyperDigestResult ContentDigestType :=
  if s = "sha-256".toList then .ok sha256
  else if s = "sha-512".toList then .ok sha512
  else .err (.invalidContentDigestType s)

end ContentDigestType

/-- The hash functions of the `sha2` crate. -/
class Sha2 where
  sha256 : Bytes → Bytes
  sha512 : Bytes → Bytes

/-- A body, which is read as a whole or fails. -/
class Body (β : Type) where
  intoBytes : β → Option Bytes

/-- `Full`: a body that is its bytes. -/
instance : Body Bytes := ⟨some⟩

section
variable {β : Type} [Sha2] [Body β]

def deriveDigest (bodyBytes : Bytes) : ContentDigestType → Bytes
  | .sha256 => Sha2.sha256 bodyBytes
  | .sha512 => Sha2.sha512 bodyBytes

def intoBytesWithDigest (body : β) (cdType : ContentDigestType) : Option (Bytes × Text) := do
  let bodyBytes ← Body.intoBytes body
  some (bodyBytes, Base64.encode (deriveDigest bodyBytes cdType))

/-- `ct_eq` for slices: every pair of bytes is compared. -/
def ctEq (a b : Bytes) : Bool := a.length == b.length && (a.zip b).all fun e => e.1 == e.2

def isEqualDigest (digest1 digest2 : Bytes) : Bool :=
  if digest1.length ≠ digest2.length then false else ctEq digest1 digest2

/-- The one member of the first line of the field. -/
def extractContentDigest (headerMap : HeaderMap) : HyperDigestResult (ContentDigestType × Bytes) := do
  let value ← Outcome.okOr (.noDigestHeader "No content-digest header".toList) (headerMap.get contentDigestHeader)
  let contentDigest ← Outcome.okOr .failedToStrDigestHeader value.toStr
  let indexmap ← Outcome.okOr (.invalidHeaderValue none) (parseDictionaryField contentDigest)
  match indexmap.entries with
  | [(cdType, cd)] => do
    let cdType ← (ContentDigestType.fromStr cdType.text).mapErr fun
      | .invalidContentDigestType s =>
        .invalidHeaderValue (some ("Invalid Content-Digest type: Invalid content-digest type: ".toList ++ s))
      | e => e
    match cd with
    | .item ⟨.byteSequence cd, _⟩ => .ok (cdType, cd)
    | _ => .err (.invalidHeaderValue (some "Invalid Content-Digest value".toList))
  | _ => .err (.invalidHeaderValue (some "Content-Digest header should have only one value".toList))

/-! ### Either kind of message -/

/-- `set_content_digest` on the parts of a message: a text that is no header value panics. -/
def setContentDigestOf (headers : HeaderMap) (body : β) (cdType : ContentDigestType) :
    HyperDigestResult (HeaderMap × Bytes) := do
  let (bodyBytes, digest) ← Outcome.okOr (.httpBodyError "Failed to generate digest".toList) (intoBytesWithDigest body cdType)
  match HeaderValue.fromStr (cdType.toText ++ '=' :: ':' :: digest ++ [':']) with
  | none => .panic
  | some value => .ok (headers.insert contentDigestHeaderName value, bodyBytes)

/-- `verify_content_digest` on the parts of a message. -/
def verifyContentDigestOf (headers : HeaderMap) (body : β) : HyperDigestResult Bytes := do
  let (cdType, expectedDigest) ← extractContentDigest headers
  let bodyBytes ← Outcome.okOr (.httpBodyError "Failed to get body bytes".toList) (Body.intoBytes body)
  let digest := deriveDigest bodyBytes cdType
  if isEqualDigest digest expectedDigest then .ok bodyBytes
  else .err (.invalidContentDigest "Content-Digest verification failed".toList)

end
end HttpSig

/-! ### The traits for requests and responses -/

namespace Http.Request
open HttpSig
variable {β : Type} [Sha2] [Body β]

def setContentDigest (req : Request β) (cdType : ContentDigestType) : HyperDigestResult (Request Bytes) := do
  let (headers, body) ← setContentDigestOf req.headers req.body cdType
  .ok ⟨req.method, req.uri, headers, body⟩

def verifyContentDigest (req : Request β) : HyperDigestResult (Request Bytes) := do
  let body ← verifyContentDigestOf req.headers req.body
  .ok ⟨req.method, req.uri, req.headers, body⟩

end Http.Request

namespace Http.Response
open HttpSig
variable {β : Type} [Sha2] [Body β]

def setContentDigest (res : Response β) (cdType : ContentDigestType) : HyperDigestResult (Response Bytes) := do
  let (headers, body) ← setContentDigestOf res.headers res.body cdType
  .ok ⟨res.status, headers, body⟩

def verifyContentDigest (res : Response β) : HyperDigestResult (Response Bytes) := do
  let body ← verifyContentDigestOf res.headers res.body
  .ok ⟨res.status, res.headers, body⟩

end Http.Response
