import HttpSig.Crypto

/-! Loading keys: from raw bytes, from DER and from PEM. Decoding belongs to other crates and is a parameter; which key a
document is taken for, and the lengths of what is cut out of it, are the program's own. -/

namespace HttpSig
open Rust

/-! ### What is decoded -/

/-- An object identifier is encoded by its first two arcs together, so it has those. -/
structure ObjectIdentifier where
  arcs : List Nat
  two_le : 2 ≤ arcs.length
  deriving DecidableEq

/-- The dotted form, which the program compares. -/
def ObjectIdentifier.toText (oid : ObjectIdentifier) : Text := join ['.'] (oid.arcs.map natText)

/-- An algorithm in a document. Its parameters need not be there, or be an identifier. -/
structure AlgorithmIdentifier where
  oid : ObjectIdentifier
  parametersOid : Except Text ObjectIdentifier

structure PrivateKeyInfo where
  algorithm : AlgorithmIdentifier
  privateKey : Bytes

structure SubjectPublicKeyInfo where
  algorithm : AlgorithmIdentifier
  /-- The key's bits as bytes, unless some of the last byte are unused. -/
  subjectPublicKey : Option Bytes

/-- The length of a secret scalar. -/
def Curve.fieldLength : Curve → Nat
  | p256 => 32
  | p384 => 48

/-- The decoders of the cryptographic crates. None of them panics, and errors are texts. -/
class KeyDecoders [Primitives] where
  EcSecretKey : Curve → Type
  /-- `SecretKey::from_bytes` on an array of the right size. -/
  ecSecretFromBytes : (c : Curve) → {bs : Bytes // bs.length = c.fieldLength} → Except Text (EcSecretKey c)
  ecPublicKey : {c : Curve} → EcSecretKey c → Primitives.EcPublicKey c
  ecPublicFromSec1Bytes : (c : Curve) → Bytes → Except Text (Primitives.EcPublicKey c)
  /-- `sec1::EcPrivateKey`: the octets of its private key, of any length. -/
  sec1PrivateKey : Bytes → Except Text Bytes
  Ed25519SecretKey : Type
  ed25519FromSeed : {bs : Bytes // bs.length = 32} → Ed25519SecretKey
  ed25519PublicKey : Ed25519SecretKey → Primitives.Ed25519PublicKey
  ed25519PublicFromSlice : Bytes → Except Text Primitives.Ed25519PublicKey
  RsaPrivateKey : Type
  rsaPrivateFromPkcs1Der : Bytes → Except Text RsaPrivateKey
  rsaVerifyingKey : RsaPrivateKey → Primitives.RsaPublicKey
  rsaPublicFromPkcs1Der : Bytes → Except Text Primitives.RsaPublicKey
  privateKeyInfo : Bytes → Except Text PrivateKeyInfo
  subjectPublicKeyInfo : Bytes → Except Text SubjectPublicKeyInfo
  /-- `Document::from_pem`: the label and the DER bytes. -/
  documentFromPem : Text → Except Text (Text × Bytes)

/-! ### Identifiers -/

namespace AlgorithmOids

def ec : Text := "1.2.840.10045.2.1".toList
def ed25519 : Text := "1.3.101.112".toList
def rsaEncryption : Text := "1.2.840.113549.1.1.1".toList

end AlgorithmOids

namespace ParamsOids

def secp256r1 : Text := "1.2.840.10045.3.1.7".toList
def secp384r1 : Text := "1.3.132.0.34".toList

end ParamsOids

/-- The algorithm of a curve. -/
def curveAlgorithm (wrap : Text → HttpSigError) (param : ObjectIdentifier) : HttpSigResult AlgorithmName :=
  if param.toText = ParamsOids.secp256r1 then .ok .ecdsaP256Sha256
  else if param.toText = ParamsOids.secp384r1 then .ok .ecdsaP384Sha384
  else .err (wrap "Unsupported curve".toList)

/-- The bytes of the key in a document, once its algorithm is found to be the requested one. What the bytes are is up to
the kind of document, and RSA up to the build. -/
def keyBytes (rsaSignature : Bool) (wrap : Text → HttpSigError) (alg : AlgorithmName) (algorithm : AlgorithmIdentifier)
    (ecBytes ed25519Bytes rsaBytes : HttpSigResult Bytes) : HttpSigResult Bytes :=
  if algorithm.oid.toText = AlgorithmOids.ec then do
    let param ← mapText wrap algorithm.parametersOid
    let algorithmName ← curveAlgorithm wrap param
    if algorithmName ≠ alg then .err (wrap "Algorithm mismatch".toList) else ecBytes
  else if algorithm.oid.toText = AlgorithmOids.ed25519 then
    if .ed25519 ≠ alg then .err (wrap "Algorithm mismatch".toList) else ed25519Bytes
  else if rsaSignature && algorithm.oid.toText = AlgorithmOids.rsaEncryption then
    match alg with
    | .rsaV15Sha256 | .rsaPssSha512 => rsaBytes
    | _ => .err (wrap "Algorithm mismatch".toList)
  else .err (wrap "Unsupported algorithm".toList)

/-! ### Keys of each kind -/

def SharedKey.fromBase64 (alg : AlgorithmName) (key : Text) : HttpSigResult SharedKey := do
  let key ← Outcome.okOr .base64DecodeError (Base64.decodeStandard key)
  match alg with
  | .hmacSha256 => .ok (.hmacSha256 key)
  | _ => .err (.invalidAlgorithmName ("Unsupported algorithm for SharedKey: ".toList ++ alg.asStr))

section
variable [Primitives] [KeyDecoders]

inductive SecretKey where
  | ecdsaP384Sha384 (sk : KeyDecoders.EcSecretKey .p384)
  | ecdsaP256Sha256 (sk : KeyDecoders.EcSecretKey .p256)
  | ed25519 (sk : KeyDecoders.Ed25519SecretKey)
  | rsaV15Sha256 (sk : KeyDecoders.RsaPrivateKey)
  | rsaPssSha512 (sk : KeyDecoders.RsaPrivateKey)

namespace SecretKey

/-- Converting a slice to the array of a curve's scalar panics on any other length. -/
def ecFromBytes (c : Curve) (bytes : Bytes) : HttpSigResult (KeyDecoders.EcSecretKey c) :=
  if h : bytes.length = c.fieldLength then
    mapText .parsePrivateKeyError (KeyDecoders.ecSecretFromBytes c ⟨bytes, h⟩)
  else .panic

/-- Copying a slice into the array of a seed panics on any other length. -/
def ed25519FromBytes (bytes : Bytes) : HttpSigResult KeyDecoders.Ed25519SecretKey :=
  if h : bytes.length = 32 then .ok (KeyDecoders.ed25519FromSeed ⟨bytes, h⟩) else .panic

/-- Without the feature there are no RSA algorithms to ask for. -/
def fromBytes (rsaSignature : Bool) (alg : AlgorithmName) (bytes : Bytes) : HttpSigResult SecretKey :=
  match alg, rsaSignature with
  | .ecdsaP256Sha256, _ => do
    let sk ← ecFromBytes .p256 bytes
    .ok (.ecdsaP256Sha256 sk)
  | .ecdsaP384Sha384, _ => do
    let sk ← ecFromBytes .p384 bytes
    .ok (.ecdsaP384Sha384 sk)
  | .ed25519, _ => do
    let sk ← ed25519FromBytes bytes
    .ok (.ed25519 sk)
  | .rsaV15Sha256, true => do
    let sk ← mapText .parsePrivateKeyError (KeyDecoders.rsaPrivateFromPkcs1Der bytes)
    .ok (.rsaV15Sha256 sk)
  | .rsaPssSha512, true => do
    let sk ← mapText .parsePrivateKeyError (KeyDecoders.rsaPrivateFromPkcs1Der bytes)
    .ok (.rsaPssSha512 sk)
  | _, _ => .err (.parsePrivateKeyError "Unsupported algorithm".toList)

/-- The octets of a `sec1::EcPrivateKey`. -/
def ecKeyBytes (privateKey : Bytes) : HttpSigResult Bytes :=
  mapText (fun e => .parsePrivateKeyError ("Error decoding EcPrivateKey: ".toList ++ e))
    (KeyDecoders.sec1PrivateKey privateKey)

omit [Primitives] [KeyDecoders] in
/-- `[2..]`, which panics past the end: what stands behind the header of an octet string, whatever it is. -/
def ed25519KeyBytes (privateKey : Bytes) : HttpSigResult Bytes :=
  if 2 ≤ privateKey.length then .ok (privateKey.drop 2) else .panic

def fromDer (rsaSignature : Bool) (alg : AlgorithmName) (der : Bytes) : HttpSigResult SecretKey := do
  let pki ← mapText .parsePrivateKeyError (KeyDecoders.privateKeyInfo der)
  let skBytes ← keyBytes rsaSignature .parsePrivateKeyError alg pki.algorithm (ecKeyBytes pki.privateKey)
    (ed25519KeyBytes pki.privateKey) (.ok pki.privateKey)
  fromBytes rsaSignature alg skBytes

def fromPem (rsaSignature : Bool) (alg : AlgorithmName) (pem : Text) : HttpSigResult SecretKey := do
  let (tag, doc) ← mapText .parsePrivateKeyError (KeyDecoders.documentFromPem pem)
  if tag ≠ "PRIVATE KEY".toList then .err (.parsePrivateKeyError "Invalid tag".toList)
  else fromDer rsaSignature alg doc

def publicKey : SecretKey → PublicKey
  | ecdsaP256Sha256 sk => .ecdsaP256Sha256 (KeyDecoders.ecPublicKey sk)
  | ecdsaP384Sha384 sk => .ecdsaP384Sha384 (KeyDecoders.ecPublicKey sk)
  | ed25519 sk => .ed25519 (KeyDecoders.ed25519PublicKey sk)
  | rsaV15Sha256 sk => .rsaV15Sha256 (KeyDecoders.rsaVerifyingKey sk)
  | rsaPssSha512 sk => .rsaPssSha512 (KeyDecoders.rsaVerifyingKey sk)

def verify (sk : SecretKey) (data signature : Bytes) : HttpSigResult Unit := sk.publicKey.verify data signature

def keyId (sk : SecretKey) : Text := sk.publicKey.keyId

def alg (sk : SecretKey) : AlgorithmName := sk.publicKey.alg

instance : VerifyingKey SecretKey := ⟨verify, keyId, alg⟩

end SecretKey

namespace PublicKey

def fromBytes (rsaSignature : Bool) (alg : AlgorithmName) (bytes : Bytes) : HttpSigResult PublicKey :=
  match alg, rsaSignature with
  | .ecdsaP256Sha256, _ => do
    let pk ← mapText .parsePublicKeyError (KeyDecoders.ecPublicFromSec1Bytes .p256 bytes)
    .ok (.ecdsaP256Sha256 pk)
  | .ecdsaP384Sha384, _ => do
    let pk ← mapText .parsePublicKeyError (KeyDecoders.ecPublicFromSec1Bytes .p384 bytes)
    .ok (.ecdsaP384Sha384 pk)
  | .ed25519, _ => do
    let pk ← mapText .parsePublicKeyError (KeyDecoders.ed25519PublicFromSlice bytes)
    .ok (.ed25519 pk)
  | .rsaV15Sha256, true => do
    let pk ← mapText .parsePublicKeyError (KeyDecoders.rsaPublicFromPkcs1Der bytes)
    .ok (.rsaV15Sha256 pk)
  | .rsaPssSha512, true => do
    let pk ← mapText .parsePublicKeyError (KeyDecoders.rsaPublicFromPkcs1Der bytes)
    .ok (.rsaPssSha512 pk)
  | _, _ => .err (.parsePublicKeyError "Unsupported algorithm".toList)

omit [Primitives] [KeyDecoders] in
/-- The bits of a public key, the same in every kind of document. -/
def subjectKeyBytes (spki : SubjectPublicKeyInfo) : HttpSigResult Bytes :=
  Outcome.okOr (.parsePublicKeyError "Invalid public key".toList) spki.subjectPublicKey

def fromPem (rsaSignature : Bool) (alg : AlgorithmName) (pem : Text) : HttpSigResult PublicKey := do
  let (tag, doc) ← mapText .parsePublicKeyError (KeyDecoders.documentFromPem pem)
  if tag ≠ "PUBLIC KEY".toList then .err (.parsePublicKeyError "Invalid tag".toList)
  else do
    let spki ← mapText (fun e => .parsePublicKeyError ("Error decoding SubjectPublicKeyInfo: ".toList ++ e))
      (KeyDecoders.subjectPublicKeyInfo doc)
    let pkBytes ← keyBytes rsaSignature .parsePublicKeyError alg spki.algorithm (subjectKeyBytes spki)
      (subjectKeyBytes spki) (subjectKeyBytes spki)
    fromBytes rsaSignature alg pkBytes

end PublicKey

end
end HttpSig
