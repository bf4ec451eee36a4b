import HttpSig.Keys

/-! Signing with secret keys. The signers belong to other crates and are parameters; which of them draw random bytes, and
what becomes of a signature and of a failure, is the program's own. -/

namespace HttpSig
open Rust

/-- What the random generator hands out during a call. -/
abbrev Draw := Bytes

/-- The signers of the cryptographic crates. -/
class Signers [Primitives] [KeyDecoders] where
  /-- `try_sign_digest` over the digest of the curve's algorithm. It draws nothing. -/
  ecTrySignDigest : {c : Curve} → KeyDecoders.EcSecretKey c → Bytes → Except Text (Primitives.EcSignature c)
  /-- `to_bytes`: two scalars at their full length. -/
  ecSignatureBytes : {c : Curve} → Primitives.EcSignature c → {bs : Bytes // bs.length = c.signatureLength}
  ed25519Sign : KeyDecoders.Ed25519SecretKey → Bytes → Draw → Primitives.Ed25519Signature
  ed25519SignatureBytes : Primitives.Ed25519Signature → Bytes
  rsaV15TrySign : KeyDecoders.RsaPrivateKey → Draw → Bytes → Except Text Primitives.RsaSignature
  rsaPssTrySign : KeyDecoders.RsaPrivateKey → Draw → Bytes → Except Text Primitives.RsaSignature
  rsaSignatureBytes : Primitives.RsaSignature → Bytes

/-- `sign_digest` and `sign_with_rng` panic where the `try` of the same name fails. -/
def expectSigned {α : Type} : Except Text α → HttpSigResult α
  | .ok a => .ok a
  | .error _ => .panic

theorem expectSigned_eq_ok {α : Type} {x : Except Text α} {a : α} : expectSigned x = .ok a ↔ x = .ok a := by
  cases x <;> simp [expectSigned]

section
variable [Primitives] [KeyDecoders] [Signers]

namespace SecretKey

def sign (draw : Draw) : SecretKey → Bytes → HttpSigResult Bytes
  | ecdsaP256Sha256 sk, data => do
    let sig ← expectSigned (Signers.ecTrySignDigest sk data)
    .ok (Signers.ecSignatureBytes sig).val
  | ecdsaP384Sha384 sk, data => do
    let sig ← expectSigned (Signers.ecTrySignDigest sk data)
    .ok (Signers.ecSignatureBytes sig).val
  | ed25519 sk, data => .ok (Signers.ed25519SignatureBytes (Signers.ed25519Sign sk data draw))
  | rsaV15Sha256 sk, data => do
    let sig ← expectSigned (Signers.rsaV15TrySign sk draw data)
    .ok (Signers.rsaSignatureBytes sig)
  | rsaPssSha512 sk, data => do
    let sig ← expectSigned (Signers.rsaPssTrySign sk draw data)
    .ok (Signers.rsaSignatureBytes sig)

end SecretKey

/-- A secret key with what is drawn when it signs a text. -/
structure DrawingKey where
  key : SecretKey
  draw : Bytes → Draw

namespace DrawingKey

def sign (k : DrawingKey) (data : Bytes) : HttpSigResult Bytes := k.key.sign (k.draw data) data

/-- `SigningKey for SecretKey`: the id and the algorithm are those of the public key. -/
instance : SigningKey DrawingKey := ⟨sign, fun k => k.key.keyId, fun k => k.key.alg⟩

end DrawingKey

/-! ### What secret keys sign -/

/-- What the crates say of their signers: what is signed verifies with the public key, and a signature is read back from
its bytes. -/
class LawfulSigners [Primitives] [KeyDecoders] [Signers] : Prop where
  ec_read {c : Curve} (sig : Primitives.EcSignature c) :
    Primitives.ecSignatureFromBytes c (Signers.ecSignatureBytes sig) = .ok sig
  ec_verify {c : Curve} {sk : KeyDecoders.EcSecretKey c} {data : Bytes} {sig : Primitives.EcSignature c}
    (h : Signers.ecTrySignDigest sk data = .ok sig) : Primitives.ecVerifyDigest (KeyDecoders.ecPublicKey sk) data sig = .ok ()
  ed25519_read (sig : Primitives.Ed25519Signature) :
    Primitives.ed25519SignatureFromSlice (Signers.ed25519SignatureBytes sig) = .ok sig
  ed25519_verify (sk : KeyDecoders.Ed25519SecretKey) (data : Bytes) (draw : Draw) :
    Primitives.ed25519Verify (KeyDecoders.ed25519PublicKey sk) data (Signers.ed25519Sign sk data draw) = .ok ()
  rsa_read (sig : Primitives.RsaSignature) : Primitives.rsaSignatureFromSlice (Signers.rsaSignatureBytes sig) = .ok sig
  rsaV15_verify {sk : KeyDecoders.RsaPrivateKey} {data : Bytes} {draw : Draw} {sig : Primitives.RsaSignature}
    (h : Signers.rsaV15TrySign sk draw data = .ok sig) : Primitives.rsaV15Verify (KeyDecoders.rsaVerifyingKey sk) data sig = .ok ()
  rsaPss_verify {sk : KeyDecoders.RsaPrivateKey} {data : Bytes} {draw : Draw} {sig : Primitives.RsaSignature}
    (h : Signers.rsaPssTrySign sk draw data = .ok sig) : Primitives.rsaPssVerify (KeyDecoders.rsaVerifyingKey sk) data sig = .ok ()

theorem PublicKey.ecVerify_signature [LawfulSigners] {c : Curve} {sk : KeyDecoders.EcSecretKey c} {data : Bytes}
    {sig : Primitives.EcSignature c} (h : Signers.ecTrySignDigest sk data = .ok sig) :
    ecVerify (KeyDecoders.ecPublicKey sk) data (Signers.ecSignatureBytes sig).val = .ok () := by
  have hlen := (Signers.ecSignatureBytes sig).property
  rw [ecVerify, dif_pos hlen, LawfulSigners.ec_read, mapText, Outcome.ok_bind, LawfulSigners.ec_verify h]
  rfl

/-- What a secret key signs, whatever it draws, its public key accepts. -/
theorem SecretKey.verify_sign [LawfulSigners] {sk : SecretKey} {draw : Draw} {data signature : Bytes}
    (h : sk.sign draw data = .ok signature) : sk.publicKey.verify data signature = .ok () := by
  cases sk with
  | ecdsaP256Sha256 sk =>
    obtain ⟨sig, hsig, hbytes⟩ := Outcome.bind_eq_ok.mp h
    cases hbytes
    exact PublicKey.ecVerify_signature (expectSigned_eq_ok.mp hsig)
  | ecdsaP384Sha384 sk =>
    obtain ⟨sig, hsig, hbytes⟩ := Outcome.bind_eq_ok.mp h
    cases hbytes
    exact PublicKey.ecVerify_signature (expectSigned_eq_ok.mp hsig)
  | ed25519 sk =>
    cases h
    rw [publicKey, PublicKey.verify, LawfulSigners.ed25519_read, mapText, Outcome.ok_bind, LawfulSigners.ed25519_verify]
    rfl
  | rsaV15Sha256 sk =>
    obtain ⟨sig, hsig, hbytes⟩ := Outcome.bind_eq_ok.mp h
    cases hbytes
    rw [publicKey, PublicKey.verify, LawfulSigners.rsa_read, mapText, Outcome.ok_bind,
      LawfulSigners.rsaV15_verify (expectSigned_eq_ok.mp hsig)]
    rfl
  | rsaPssSha512 sk =>
    obtain ⟨sig, hsig, hbytes⟩ := Outcome.bind_eq_ok.mp h
    cases hbytes
    rw [publicKey, PublicKey.verify, LawfulSigners.rsa_read, mapText, Outcome.ok_bind,
      LawfulSigners.rsaPss_verify (expectSigned_eq_ok.mp hsig)]
    rfl

end
end HttpSig
