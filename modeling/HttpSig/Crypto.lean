import HttpSig.Error
import HttpSig.Rust.Base64

/-! Signing and verifying keys. The primitives behind them belong to other crates and are parameters;
what the keys make of a signature's bytes before they reach a primitive is the program's own. -/

namespace HttpSig
open Rust

abbrev Bytes := List UInt8

inductive AlgorithmName where
  | hmacSha256
  | ecdsaP256Sha256
  | ecdsaP384Sha384
  | ed25519
  | rsaV15Sha256
  | rsaPssSha512
  deriving DecidableEq

namespace AlgorithmName

def asStr : AlgorithmName → Text
  | hmacSha256 => "hmac-sha256".toList
  | ecdsaP256Sha256 => "ecdsa-p256-sha256".toList
  | ecdsaP384Sha384 => "ecdsa-p384-sha384".toList
  | ed25519 => "ed25519".toList
  | rsaV15Sha256 => "rsa-v1_5-sha256".toList
  | rsaPssSha512 => "rsa-pss-sha512".toList

/-- `FromStr`: the names of the RSA algorithms are known with the feature `rsa-signature` only. -/
def fromStr (rsaSignature : Bool) (s : Text) : HttpSigResult AlgorithmName :=
  if s = "hmac-sha256".toList then .ok hmacSha256
  else if s = "ecdsa-p256-sha256".toList then .ok ecdsaP256Sha256
  else if s = "ecdsa-p384-sha384".toList then .ok ecdsaP384Sha384
  else if s = "ed25519".toList then .ok ed25519
  else if rsaSignature && s = "rsa-v1_5-sha256".toList then .ok rsaV15Sha256
  else if rsaSignature && s = "rsa-pss-sha512".toList then .ok rsaPssSha512
  else .err (.invalidAlgorithmName s)

/-- The algorithms of a build, with the feature `rsa-signature` or without it. -/
def builtIn (rsaSignature : Bool) : List AlgorithmName :=
  [hmacSha256, ecdsaP256Sha256, ecdsaP384Sha384, ed25519] ++ if rsaSignature then [rsaV15Sha256, rsaPssSha512] else []

theorem asStr_inj {a b : AlgorithmName} (h : a.asStr = b.asStr) : a = b := by
  revert h
  cases a <;> cases b <;> decide

theorem fromStr_asStr {rsaSignature : Bool} {a : AlgorithmName} (h : a ∈ builtIn rsaSignature) :
    fromStr rsaSignature a.asStr = .ok a := by
  revert h
  cases rsaSignature <;> cases a <;> decide

/-- A name is read as an algorithm of the build exactly when it is its name. -/
theorem fromStr_eq_ok {rsaSignature : Bool} {s : Text} {a : AlgorithmName} :
    fromStr rsaSignature s = .ok a ↔ s = a.asStr ∧ a ∈ builtIn rsaSignature := by
  constructor
  · intro h
    unfold fromStr at h
    split_ifs at h with h₁ h₂ h₃ h₄ h₅ h₆
    · cases h
      exact ⟨h₁, by simp [builtIn]⟩
    · cases h
      exact ⟨h₂, by simp [builtIn]⟩
    · cases h
      exact ⟨h₃, by simp [builtIn]⟩
    · cases h
      exact ⟨h₄, by simp [builtIn]⟩
    · cases h
      rw [Bool.and_eq_true, decide_eq_true_eq] at h₅
      exact ⟨h₅.2, by simp [builtIn, h₅.1]⟩
    · cases h
      rw [Bool.and_eq_true, decide_eq_true_eq] at h₆
      exact ⟨h₆.2, by simp [builtIn, h₆.1]⟩
  · rintro ⟨rfl, h⟩
    exact fromStr_asStr h

theorem fromStr_ne_panic (rsaSignature : Bool) (s : Text) : fromStr rsaSignature s ≠ .panic := by
  unfold fromStr
  iterate 6
    split
    · nofun
  nofun

end AlgorithmName

class SigningKey (κ : Type) where
  sign : κ → Bytes → HttpSigResult Bytes
  keyId : κ → Text
  alg : κ → AlgorithmName

class VerifyingKey (κ : Type) where
  verify : κ → Bytes → Bytes → HttpSigResult Unit
  keyId : κ → Text
  alg : κ → AlgorithmName

/-! ### Keys -/

inductive Curve where
  | p256
  | p384
  deriving DecidableEq

/-- The length of a fixed-size signature: two scalars. -/
def Curve.signatureLength : Curve → Nat
  | p256 => 64
  | p384 => 96

/-- The primitives of the cryptographic crates. None of them panics. -/
class Primitives where
  sha256 : Bytes → Bytes
  hmacSha256 : Bytes → Bytes → Bytes
  EcPublicKey : Curve → Type
  EcSignature : Curve → Type
  /-- The key as the bytes that make its id. -/
  ecPublicBytes : {c : Curve} → EcPublicKey c → Bytes
  /-- `Signature::from_bytes` on an array of the right size: the scalars in range, or an error text. -/
  ecSignatureFromBytes : (c : Curve) → {bs : Bytes // bs.length = c.signatureLength} → Except Text (EcSignature c)
  ecVerifyDigest : {c : Curve} → EcPublicKey c → Bytes → EcSignature c → Except Text Unit
  Ed25519PublicKey : Type
  ed25519PublicBytes : Ed25519PublicKey → Bytes
  Ed25519Signature : Type
  ed25519SignatureFromSlice : Bytes → Except Text Ed25519Signature
  ed25519Verify : Ed25519PublicKey → Bytes → Ed25519Signature → Except Text Unit
  RsaPublicKey : Type
  rsaPublicBytes : RsaPublicKey → Bytes
  RsaSignature : Type
  rsaSignatureFromSlice : Bytes → Except Text RsaSignature
  rsaV15Verify : RsaPublicKey → Bytes → RsaSignature → Except Text Unit
  rsaPssVerify : RsaPublicKey → Bytes → RsaSignature → Except Text Unit

/-- A primitive's result with its error text wrapped. -/
def mapText {α : Type} (f : Text → HttpSigError) : Except Text α → HttpSigResult α
  | .ok a => .ok a
  | .error e => .err (f e)

@[simp] theorem mapText_ne_panic {α : Type} {f : Text → HttpSigError} {x : Except Text α} : mapText f x ≠ .panic := by
  cases x <;> simp [mapText]

section
variable [Primitives]

inductive SharedKey where
  | hmacSha256 (key : Bytes)

inductive PublicKey where
  | ecdsaP256Sha256 (pk : Primitives.EcPublicKey .p256)
  | ecdsaP384Sha384 (pk : Primitives.EcPublicKey .p384)
  | ed25519 (pk : Primitives.Ed25519PublicKey)
  | rsaV15Sha256 (pk : Primitives.RsaPublicKey)
  | rsaPssSha512 (pk : Primitives.RsaPublicKey)

namespace SharedKey

def sign : SharedKey → Bytes → HttpSigResult Bytes
  | hmacSha256 key, data => .ok (Primitives.hmacSha256 key data)

def verify : SharedKey → Bytes → Bytes → HttpSigResult Unit
  | hmacSha256 key, data, expectedMac =>
    if Primitives.hmacSha256 key data = expectedMac then .ok ()
    else .err (.invalidSignature "Invalid MAC".toList)

def keyId : SharedKey → Text
  | hmacSha256 key => Base64.encode (Primitives.sha256 key)

def alg : SharedKey → AlgorithmName
  | hmacSha256 _ => .hmacSha256

instance : SigningKey SharedKey := ⟨sign, keyId, alg⟩
instance : VerifyingKey SharedKey := ⟨verify, keyId, alg⟩

end SharedKey

namespace PublicKey

/-- Converting a slice to the array of a curve's signature panics on any other length. -/
def ecVerify {c : Curve} (pk : Primitives.EcPublicKey c) (data signature : Bytes) : HttpSigResult Unit :=
  if h : signature.length = c.signatureLength then do
    let sig ← mapText .parseSignatureError (Primitives.ecSignatureFromBytes c ⟨signature, h⟩)
    mapText .invalidSignature (Primitives.ecVerifyDigest pk data sig)
  else .panic

def verify : PublicKey → Bytes → Bytes → HttpSigResult Unit
  | ecdsaP256Sha256 pk, data, signature => ecVerify pk data signature
  | ecdsaP384Sha384 pk, data, signature => ecVerify pk data signature
  | ed25519 pk, data, signature => do
    let sig ← mapText .parseSignatureError (Primitives.ed25519SignatureFromSlice signature)
    mapText .invalidSignature (Primitives.ed25519Verify pk data sig)
  | rsaV15Sha256 pk, data, signature => do
    let sig ← mapText .parseSignatureError (Primitives.rsaSignatureFromSlice signature)
    mapText .invalidSignature (Primitives.rsaV15Verify pk data sig)
  | rsaPssSha512 pk, data, signature => do
    let sig ← mapText .parseSignatureError (Primitives.rsaSignatureFromSlice signature)
    mapText .invalidSignature (Primitives.rsaPssVerify pk data sig)

/-- The bytes a key id is the hash of. -/
def publicBytes : PublicKey → Bytes
  | ecdsaP256Sha256 pk => Primitives.ecPublicBytes pk
  | ecdsaP384Sha384 pk => Primitives.ecPublicBytes pk
  | ed25519 pk => Primitives.ed25519PublicBytes pk
  | rsaV15Sha256 pk => Primitives.rsaPublicBytes pk
  | rsaPssSha512 pk => Primitives.rsaPublicBytes pk

def keyId (pk : PublicKey) : Text := Base64.encode (Primitives.sha256 pk.publicBytes)

def alg : PublicKey → AlgorithmName
  | ecdsaP256Sha256 _ => .ecdsaP256Sha256
  | ecdsaP384Sha384 _ => .ecdsaP384Sha384
  | ed25519 _ => .ed25519
  | rsaV15Sha256 _ => .rsaV15Sha256
  | rsaPssSha512 _ => .rsaPssSha512

instance : VerifyingKey PublicKey := ⟨verify, keyId, alg⟩

/-- The length a signature must have for the key to look at it; only the elliptic curves fix one. -/
def requiredLength : PublicKey → Option Nat
  | ecdsaP256Sha256 _ => some Curve.p256.signatureLength
  | ecdsaP384Sha384 _ => some Curve.p384.signatureLength
  | _ => none

end PublicKey

/-! ### Which keys panic -/

theorem SharedKey.verify_ne_panic (k : SharedKey) (data mac : Bytes) : k.verify data mac ≠ .panic := by
  obtain ⟨key⟩ := k
  rw [verify]
  split
  · nofun
  · nofun

omit [Primitives] in
theorem bind_mapText_ne_panic {α β : Type} {f g : Text → HttpSigError} {x : Except Text α} {y : α → Except Text β} :
    (mapText f x >>= fun a => mapText g (y a)) ≠ .panic := by
  rw [Ne, Outcome.bind_eq_panic]
  simp

theorem PublicKey.ecVerify_eq_panic {c : Curve} (pk : Primitives.EcPublicKey c) (data sig : Bytes) :
    ecVerify pk data sig = .panic ↔ sig.length ≠ c.signatureLength := by
  unfold ecVerify
  split
  · rename_i h
    simp only [h, ne_eq, not_true_eq_false, iff_false]
    exact bind_mapText_ne_panic
  · rename_i h
    simp [h]

/-- A public key panics on a signature of a length its curve does not have, and on no other. -/
theorem PublicKey.verify_eq_panic (pk : PublicKey) (data sig : Bytes) :
    pk.verify data sig = .panic ↔ ∃ n ∈ pk.requiredLength, sig.length ≠ n := by
  cases pk with
  | ecdsaP256Sha256 pk =>
    rw [verify, ecVerify_eq_panic]
    simp [requiredLength]
  | ecdsaP384Sha384 pk =>
    rw [verify, ecVerify_eq_panic]
    simp [requiredLength]
  | ed25519 pk => simpa [requiredLength, verify] using bind_mapText_ne_panic
  | rsaV15Sha256 pk => simpa [requiredLength, verify] using bind_mapText_ne_panic
  | rsaPssSha512 pk => simpa [requiredLength, verify] using bind_mapText_ne_panic

end
end HttpSig
