import HttpSig.Keys

/-! What loading a key makes of a document. A key that is loaded is of the algorithm that was asked for, and so is its
document; but a private key of another length than that algorithm has is no error, it panics. -/

namespace HttpSig
open Rust

/-! ### Identifiers -/

namespace ObjectIdentifier

theorem splitOn_toText (oid : ObjectIdentifier) : oid.toText.splitOn '.' = oid.arcs.map natText := by
  have hdot : ∀ t ∈ oid.arcs.map natText, '.' ∉ t := by
    intro t ht hc
    obtain ⟨n, -, rfl⟩ := List.mem_map.mp ht
    exact absurd (isDigit_of_mem_natText hc) (by decide)
  have hne : oid.arcs.map natText ≠ [] := by
    rw [Ne, List.map_eq_nil_iff]
    intro hnil
    have := oid.two_le
    rw [hnil] at this
    exact absurd this (by decide)
  exact List.splitOn_intercalate '.' hdot hne

/-- The dotted form tells identifiers apart. -/
theorem toText_inj {a b : ObjectIdentifier} (h : a.toText = b.toText) : a = b := by
  have harcs := splitOn_toText a
  rw [h, splitOn_toText, List.map_inj_right fun _ _ => natText_inj] at harcs
  cases a
  cases b
  cases harcs
  rfl

/-- `id-ecPublicKey`. -/
def ecPublicKey : ObjectIdentifier := ⟨[1, 2, 840, 10045, 2, 1], by decide⟩

/-- `id-Ed25519`. -/
def ed25519 : ObjectIdentifier := ⟨[1, 3, 101, 112], by decide⟩

def rsaEncryption : ObjectIdentifier := ⟨[1, 2, 840, 113549, 1, 1, 1], by decide⟩

/-- The curve P-256. -/
def secp256r1 : ObjectIdentifier := ⟨[1, 2, 840, 10045, 3, 1, 7], by decide⟩

/-- The curve P-384. -/
def secp384r1 : ObjectIdentifier := ⟨[1, 3, 132, 0, 34], by decide⟩

theorem toText_eq_iff {oid known : ObjectIdentifier} {s : Text} (h : known.toText = s) : oid.toText = s ↔ oid = known := by
  rw [← h]
  exact ⟨toText_inj, congrArg toText⟩

end ObjectIdentifier

namespace AlgorithmName

/-- The identifier that belongs to an algorithm. No document is of an HMAC key. -/
def oid : AlgorithmName → Option ObjectIdentifier
  | hmacSha256 => none
  | ecdsaP256Sha256 | ecdsaP384Sha384 => some .ecPublicKey
  | ed25519 => some .ed25519
  | rsaV15Sha256 | rsaPssSha512 => some .rsaEncryption

/-- The curve of an algorithm that has one. -/
def curveOid : AlgorithmName → Option ObjectIdentifier
  | ecdsaP256Sha256 => some .secp256r1
  | ecdsaP384Sha384 => some .secp384r1
  | _ => none

def isRsa : AlgorithmName → Bool
  | rsaV15Sha256 | rsaPssSha512 => true
  | _ => false

end AlgorithmName

/-- A document says that its key is of the algorithm: by its identifier, and by its curve if the algorithm has one. -/
def IdentifiedAs (alg : AlgorithmName) (algorithm : AlgorithmIdentifier) : Prop :=
  alg.oid = some algorithm.oid ∧ ∀ curve ∈ alg.curveOid, algorithm.parametersOid = .ok curve

/-- A document of an algorithm that the build has. -/
def Loads (rsaSignature : Bool) (alg : AlgorithmName) (algorithm : AlgorithmIdentifier) : Prop :=
  IdentifiedAs alg algorithm ∧ (alg.isRsa = true → rsaSignature = true)

/-- The bytes of the key by the algorithm that is asked for. -/
def bytesOf (alg : AlgorithmName) (ecBytes ed25519Bytes rsaBytes : HttpSigResult Bytes) : HttpSigResult Bytes :=
  match alg with
  | .ed25519 => ed25519Bytes
  | .rsaV15Sha256 | .rsaPssSha512 => rsaBytes
  | _ => ecBytes

section
variable {rsaSignature : Bool} {wrap : Text → HttpSigError} {alg : AlgorithmName} {algorithm : AlgorithmIdentifier}
  {ecBytes ed25519Bytes rsaBytes : HttpSigResult Bytes}

/-! ### Which documents are looked at -/

/-- A curve has one algorithm, unless it is an unsupported one. -/
theorem curveAlgorithm_cases (wrap : Text → HttpSigError) (param : ObjectIdentifier) :
    (∃ a : AlgorithmName, curveAlgorithm wrap param = .ok a ∧ ∀ b : AlgorithmName, b.curveOid = some param ↔ b = a) ∨
    (curveAlgorithm wrap param = .err (wrap "Unsupported curve".toList) ∧ ∀ b : AlgorithmName, b.curveOid ≠ some param) := by
  have h256 : param.toText = ParamsOids.secp256r1 ↔ param = .secp256r1 := ObjectIdentifier.toText_eq_iff (by decide)
  have h384 : param.toText = ParamsOids.secp384r1 ↔ param = .secp384r1 := ObjectIdentifier.toText_eq_iff (by decide)
  simp only [curveAlgorithm, h256, h384]
  by_cases hp : param = .secp256r1
  · subst hp
    exact Or.inl ⟨_, if_pos rfl, fun b => by cases b <;> decide⟩
  · by_cases hq : param = .secp384r1
    · subst hq
      exact Or.inl ⟨_, (if_neg hp).trans (if_pos rfl), fun b => by cases b <;> decide⟩
    · rw [if_neg hp, if_neg hq]
      refine Or.inr ⟨rfl, fun b hb => ?_⟩
      cases b with
      | ecdsaP256Sha256 => exact hp (Option.some.inj hb).symm
      | ecdsaP384Sha384 => exact hq (Option.some.inj hb).symm
      | _ => cases hb

theorem identifiedAs_ec (h : algorithm.oid = .ecPublicKey) :
    IdentifiedAs alg algorithm ↔ ∃ param, algorithm.parametersOid = .ok param ∧ alg.curveOid = some param := by
  rw [IdentifiedAs, h]
  cases alg <;> simp [AlgorithmName.oid, AlgorithmName.curveOid, ObjectIdentifier.ecPublicKey, ObjectIdentifier.ed25519,
    ObjectIdentifier.rsaEncryption]

theorem identifiedAs_ed25519 (h : algorithm.oid = .ed25519) : IdentifiedAs alg algorithm ↔ alg = .ed25519 := by
  rw [IdentifiedAs, h]
  cases alg <;> simp [AlgorithmName.oid, AlgorithmName.curveOid, ObjectIdentifier.ecPublicKey, ObjectIdentifier.ed25519,
    ObjectIdentifier.rsaEncryption]

theorem identifiedAs_rsa (h : algorithm.oid = .rsaEncryption) : IdentifiedAs alg algorithm ↔ alg.isRsa = true := by
  rw [IdentifiedAs, h]
  cases alg <;> simp [AlgorithmName.oid, AlgorithmName.curveOid, AlgorithmName.isRsa, ObjectIdentifier.ecPublicKey,
    ObjectIdentifier.ed25519, ObjectIdentifier.rsaEncryption]

theorem not_identifiedAs (hec : algorithm.oid ≠ .ecPublicKey) (hed : algorithm.oid ≠ .ed25519)
    (hrsa : algorithm.oid ≠ .rsaEncryption) : ¬ IdentifiedAs alg algorithm := by
  rintro ⟨hoid, -⟩
  cases alg with
  | hmacSha256 => cases hoid
  | ecdsaP256Sha256 | ecdsaP384Sha384 => exact hec (Option.some.inj hoid).symm
  | ed25519 => exact hed (Option.some.inj hoid).symm
  | rsaV15Sha256 | rsaPssSha512 => exact hrsa (Option.some.inj hoid).symm

theorem isRsa_of_curveOid {curve : ObjectIdentifier} (h : alg.curveOid = some curve) : alg.isRsa = false := by
  cases alg <;> first | rfl | cases h

theorem bytesOf_of_curveOid {curve : ObjectIdentifier} (h : alg.curveOid = some curve) :
    bytesOf alg ecBytes ed25519Bytes rsaBytes = ecBytes := by
  cases alg <;> first | rfl | cases h

theorem toText_eq_ec {oid : ObjectIdentifier} : oid.toText = AlgorithmOids.ec ↔ oid = .ecPublicKey :=
  ObjectIdentifier.toText_eq_iff (by decide)

theorem toText_eq_ed25519 {oid : ObjectIdentifier} : oid.toText = AlgorithmOids.ed25519 ↔ oid = .ed25519 :=
  ObjectIdentifier.toText_eq_iff (by decide)

theorem toText_eq_rsa {oid : ObjectIdentifier} : oid.toText = AlgorithmOids.rsaEncryption ↔ oid = .rsaEncryption :=
  ObjectIdentifier.toText_eq_iff (by decide)

/-- The bytes of a document that is of the algorithm, or an error for one that is not. -/
def Decides (rsaSignature : Bool) (wrap : Text → HttpSigError) (alg : AlgorithmName) (algorithm : AlgorithmIdentifier)
    (bytes r : HttpSigResult Bytes) : Prop :=
  (Loads rsaSignature alg algorithm ∧ r = bytes) ∨ (¬ Loads rsaSignature alg algorithm ∧ ∃ e, r = .err (wrap e))

theorem decides_of_ec (h : algorithm.oid = .ecPublicKey) : Decides rsaSignature wrap alg algorithm
    (bytesOf alg ecBytes ed25519Bytes rsaBytes) (keyBytes rsaSignature wrap alg algorithm ecBytes ed25519Bytes rsaBytes) := by
  unfold keyBytes
  rw [if_pos (toText_eq_ec.mpr h), Decides, Loads, identifiedAs_ec h]
  cases hparam : algorithm.parametersOid with
  | error e => exact Or.inr ⟨by simp, e, rfl⟩
  | ok param =>
    rcases curveAlgorithm_cases wrap param with ⟨a, ha, hcurve⟩ | ⟨herr, hcurve⟩
    · simp only [mapText, Outcome.ok_bind, ha]
      by_cases halg : a = alg
      · subst halg
        have hc := (hcurve a).mpr rfl
        refine Or.inl ⟨⟨⟨param, rfl, hc⟩, fun hr => ?_⟩, ?_⟩
        · rw [isRsa_of_curveOid hc] at hr
          cases hr
        · rw [if_neg (not_not.mpr rfl), bytesOf_of_curveOid hc]
      · refine Or.inr ⟨?_, _, if_pos halg⟩
        rintro ⟨⟨param', hp, hc⟩, -⟩
        cases hp
        exact halg ((hcurve alg).mp hc).symm
    · simp only [mapText, Outcome.ok_bind, herr]
      refine Or.inr ⟨?_, _, rfl⟩
      rintro ⟨⟨param', hp, hc⟩, -⟩
      cases hp
      exact hcurve alg hc

theorem decides_of_ed25519 (h : algorithm.oid = .ed25519) : Decides rsaSignature wrap alg algorithm
    (bytesOf alg ecBytes ed25519Bytes rsaBytes) (keyBytes rsaSignature wrap alg algorithm ecBytes ed25519Bytes rsaBytes) := by
  have hec : algorithm.oid ≠ .ecPublicKey := by
    rw [h]
    decide
  unfold keyBytes
  rw [if_neg (toText_eq_ec.not.mpr hec), if_pos (toText_eq_ed25519.mpr h), Decides, Loads, identifiedAs_ed25519 h]
  by_cases halg : .ed25519 = alg
  · subst halg
    exact Or.inl ⟨⟨rfl, fun hr => absurd hr Bool.false_ne_true⟩, if_neg (not_not.mpr rfl)⟩
  · exact Or.inr ⟨fun hl => halg hl.1.symm, _, if_pos halg⟩

theorem decides_of_rsa (h : algorithm.oid = .rsaEncryption) : Decides rsaSignature wrap alg algorithm
    (bytesOf alg ecBytes ed25519Bytes rsaBytes) (keyBytes rsaSignature wrap alg algorithm ecBytes ed25519Bytes rsaBytes) := by
  have hec : algorithm.oid ≠ .ecPublicKey := by
    rw [h]
    decide
  have hed : algorithm.oid ≠ .ed25519 := by
    rw [h]
    decide
  unfold keyBytes
  rw [if_neg (toText_eq_ec.not.mpr hec), if_neg (toText_eq_ed25519.not.mpr hed), Decides, Loads, identifiedAs_rsa h]
  cases rsaSignature with
  | false => exact Or.inr ⟨fun hl => absurd (hl.2 hl.1) Bool.false_ne_true, _, if_neg (by simp)⟩
  | true =>
    rw [if_pos (by simp [toText_eq_rsa.mpr h])]
    cases alg with
    | rsaV15Sha256 | rsaPssSha512 => exact Or.inl ⟨⟨rfl, fun _ => rfl⟩, rfl⟩
    | _ => exact Or.inr ⟨fun hl => absurd hl.1 Bool.false_ne_true, _, rfl⟩

/-- The bytes are looked at in a document of the algorithm, and every other document is an error. -/
theorem keyBytes_cases : Decides rsaSignature wrap alg algorithm (bytesOf alg ecBytes ed25519Bytes rsaBytes)
    (keyBytes rsaSignature wrap alg algorithm ecBytes ed25519Bytes rsaBytes) := by
  by_cases hec : algorithm.oid = .ecPublicKey
  · exact decides_of_ec hec
  by_cases hed : algorithm.oid = .ed25519
  · exact decides_of_ed25519 hed
  by_cases hrsa : algorithm.oid = .rsaEncryption
  · exact decides_of_rsa hrsa
  unfold keyBytes
  rw [if_neg (toText_eq_ec.not.mpr hec), if_neg (toText_eq_ed25519.not.mpr hed)]
  refine Or.inr ⟨fun hl => not_identifiedAs hec hed hrsa hl.1, _, if_neg ?_⟩
  simp [toText_eq_rsa, hrsa]

theorem loads_of_keyBytes {bytes : Bytes}
    (h : keyBytes rsaSignature wrap alg algorithm ecBytes ed25519Bytes rsaBytes = .ok bytes) :
    Loads rsaSignature alg algorithm := by
  rcases keyBytes_cases with ⟨hloads, -⟩ | ⟨-, e, he⟩
  · exact hloads
  · rw [h] at he
    cases he

/-- No document is of an HMAC key. -/
theorem not_identifiedAs_hmac : ¬ IdentifiedAs .hmacSha256 algorithm := fun h => nomatch h.1

end

theorem mapText_eq_ok {α : Type} {f : Text → HttpSigError} {x : Except Text α} {a : α} :
    mapText f x = .ok a ↔ x = .ok a := by
  cases x <;> simp [mapText]

section
variable [Primitives] [KeyDecoders] {rsaSignature : Bool} {alg : AlgorithmName}

/-! ### PEM texts -/

/-- A PEM text comes to what its document comes to under the right label, and to an error under another. -/
theorem labelled_eq {κ : Type} {wrap : Text → HttpSigError} {label pem : Text} {r : HttpSigResult κ}
    (load : Bytes → HttpSigResult κ) (hr : ∀ e, r ≠ .err e) :
    ((mapText wrap (KeyDecoders.documentFromPem pem) >>= fun d =>
        if d.1 ≠ label then .err (wrap "Invalid tag".toList) else load d.2) = r) ↔
      ∃ der, KeyDecoders.documentFromPem pem = .ok (label, der) ∧ load der = r := by
  cases hdoc : KeyDecoders.documentFromPem pem with
  | error e => exact iff_of_false (hr _).symm (by simp)
  | ok d =>
    obtain ⟨tag, der⟩ := d
    rw [mapText, Outcome.ok_bind]
    by_cases htag : tag = label
    · subst htag
      rw [if_neg (not_not.mpr rfl)]
      simp
    · rw [if_pos htag]
      refine iff_of_false (hr _).symm ?_
      rintro ⟨der', h, -⟩
      cases h
      exact htag rfl

/-! ### Raw keys -/

namespace SecretKey

theorem fromBytes_alg {bytes : Bytes} {k : SecretKey} (h : fromBytes rsaSignature alg bytes = .ok k) : k.alg = alg := by
  cases alg with
  | hmacSha256 => cases h
  | ecdsaP256Sha256 | ecdsaP384Sha384 | ed25519 =>
    obtain ⟨sk, -, h⟩ := Outcome.bind_eq_ok.mp h
    cases h
    rfl
  | rsaV15Sha256 | rsaPssSha512 =>
    cases rsaSignature with
    | false => cases h
    | true =>
      obtain ⟨sk, -, h⟩ := Outcome.bind_eq_ok.mp h
      cases h
      rfl

end SecretKey

/-- The length of a raw secret key, where the algorithm has one. -/
def AlgorithmName.rawLength : AlgorithmName → Option Nat
  | ecdsaP256Sha256 => some Curve.p256.fieldLength
  | ecdsaP384Sha384 => some Curve.p384.fieldLength
  | ed25519 => some 32
  | _ => none

namespace SecretKey

theorem ecFromBytes_eq_panic {c : Curve} {bytes : Bytes} : ecFromBytes c bytes = .panic ↔ bytes.length ≠ c.fieldLength :=
  Outcome.dite_eq_panic fun _ => mapText_ne_panic

theorem ed25519FromBytes_eq_panic {bytes : Bytes} : ed25519FromBytes bytes = .panic ↔ bytes.length ≠ 32 :=
  Outcome.dite_eq_panic fun _ => Outcome.ok_ne_panic _

/-- A raw key panics when its algorithm has another length. -/
theorem fromBytes_eq_panic {bytes : Bytes} :
    fromBytes rsaSignature alg bytes = .panic ↔ ∃ n ∈ alg.rawLength, bytes.length ≠ n := by
  cases alg with
  | hmacSha256 => simp [fromBytes, AlgorithmName.rawLength]
  | ecdsaP256Sha256 | ecdsaP384Sha384 | ed25519 =>
    rw [fromBytes, Outcome.bind_eq_panic]
    simp [AlgorithmName.rawLength, ecFromBytes_eq_panic, ed25519FromBytes_eq_panic]
  | rsaV15Sha256 | rsaPssSha512 =>
    cases rsaSignature with
    | false => simp [fromBytes, AlgorithmName.rawLength]
    | true =>
      rw [fromBytes, Outcome.bind_eq_panic]
      simp [AlgorithmName.rawLength]

end SecretKey

/-! ### Documents -/

namespace SecretKey

/-- A private key field holds a key of the algorithm's length: the octets inside it for a curve, all but its first two
bytes for Ed25519. -/
def FieldFits (alg : AlgorithmName) (field : Bytes) : Prop :=
  match alg with
  | .ecdsaP256Sha256 | .ecdsaP384Sha384 =>
    ∀ bytes, KeyDecoders.sec1PrivateKey field = .ok bytes → ∀ n ∈ alg.rawLength, bytes.length = n
  | .ed25519 => field.length = 34
  | _ => True

/-- A document that says it is of the algorithm has a field that fits. -/
def DerFits (alg : AlgorithmName) (der : Bytes) : Prop :=
  ∀ pki, KeyDecoders.privateKeyInfo der = .ok pki → IdentifiedAs alg pki.algorithm → FieldFits alg pki.privateKey

/-- What becomes of a field once the algorithm of its document is the requested one. -/
theorem fromField_eq_panic {field : Bytes} :
    (bytesOf alg (ecKeyBytes field) (ed25519KeyBytes field) (.ok field) >>= fromBytes rsaSignature alg) = .panic ↔
      ¬ FieldFits alg field := by
  rw [Outcome.bind_eq_panic]
  simp only [fromBytes_eq_panic]
  cases alg with
  | hmacSha256 | rsaV15Sha256 | rsaPssSha512 => simp [bytesOf, ecKeyBytes, AlgorithmName.rawLength, FieldFits]
  | ecdsaP256Sha256 | ecdsaP384Sha384 =>
    simp only [bytesOf, ecKeyBytes, mapText_ne_panic, mapText_eq_ok, FieldFits, false_or, not_forall, exists_prop]
  | ed25519 =>
    rw [bytesOf, ed25519KeyBytes, FieldFits]
    split
    · rename_i h
      simp only [reduceCtorEq, Outcome.ok.injEq, exists_eq_left', false_or, AlgorithmName.rawLength, Option.mem_def,
        Option.some.injEq, List.length_drop]
      omega
    · rename_i h
      exact iff_of_true (Or.inl rfl) (by omega)

theorem fromDer_eq_panic {der : Bytes} : fromDer rsaSignature alg der = .panic ↔ ¬ DerFits alg der := by
  have hfield : ∀ pki : PrivateKeyInfo, (keyBytes rsaSignature .parsePrivateKeyError alg pki.algorithm
        (ecKeyBytes pki.privateKey) (ed25519KeyBytes pki.privateKey) (.ok pki.privateKey) >>=
      fromBytes rsaSignature alg) = .panic ↔ IdentifiedAs alg pki.algorithm ∧ ¬ FieldFits alg pki.privateKey := by
    intro pki
    rcases keyBytes_cases with ⟨hloads, hb⟩ | ⟨hloads, e, hb⟩
    · rw [hb, fromField_eq_panic, and_iff_right hloads.1]
    · rw [hb]
      refine iff_of_false (Outcome.err_ne_panic _) ?_
      rintro ⟨hid, hfit⟩
      -- Only RSA is left out of a build, and its fields always fit.
      refine hloads ⟨hid, fun hrsa => absurd ?_ hfit⟩
      cases alg <;> first | exact trivial | cases hrsa
  rw [fromDer, Outcome.bind_eq_panic]
  simp only [mapText_ne_panic, mapText_eq_ok, hfield, DerFits, false_or, not_forall, exists_prop]

/-- A PEM text is loaded as the document in it, when it is labelled a private key. -/
theorem fromPem_eq_panic {pem : Text} : fromPem rsaSignature alg pem = .panic ↔
    ∃ der, KeyDecoders.documentFromPem pem = .ok ("PRIVATE KEY".toList, der) ∧ ¬ DerFits alg der := by
  simp only [← @fromDer_eq_panic _ _ rsaSignature]
  exact labelled_eq (fromDer rsaSignature alg) fun e => (Outcome.err_ne_panic e).symm

theorem fromDer_eq_ok {der : Bytes} {k : SecretKey} (h : fromDer rsaSignature alg der = .ok k) :
    k.alg = alg ∧ ∃ pki, KeyDecoders.privateKeyInfo der = .ok pki ∧ IdentifiedAs alg pki.algorithm := by
  obtain ⟨pki, hpki, h⟩ := Outcome.bind_eq_ok.mp h
  obtain ⟨bytes, hbytes, h⟩ := Outcome.bind_eq_ok.mp h
  exact ⟨fromBytes_alg h, pki, mapText_eq_ok.mp hpki, (loads_of_keyBytes hbytes).1⟩

theorem fromPem_eq_ok {pem : Text} {k : SecretKey} : fromPem rsaSignature alg pem = .ok k ↔
    ∃ der, KeyDecoders.documentFromPem pem = .ok ("PRIVATE KEY".toList, der) ∧ fromDer rsaSignature alg der = .ok k :=
  labelled_eq (fromDer rsaSignature alg) fun _ => Outcome.ok_ne_err

end SecretKey

namespace PublicKey

theorem fromBytes_alg {bytes : Bytes} {k : PublicKey} (h : fromBytes rsaSignature alg bytes = .ok k) : k.alg = alg := by
  cases alg with
  | hmacSha256 => cases h
  | ecdsaP256Sha256 | ecdsaP384Sha384 | ed25519 =>
    obtain ⟨pk, -, h⟩ := Outcome.bind_eq_ok.mp h
    cases h
    rfl
  | rsaV15Sha256 | rsaPssSha512 =>
    cases rsaSignature with
    | false => cases h
    | true =>
      obtain ⟨pk, -, h⟩ := Outcome.bind_eq_ok.mp h
      cases h
      rfl

/-- The key in a document with the label of a public key. -/
def fromDocument (rsaSignature : Bool) (alg : AlgorithmName) (der : Bytes) : HttpSigResult PublicKey := do
  let spki ← mapText (fun e => .parsePublicKeyError ("Error decoding SubjectPublicKeyInfo: ".toList ++ e))
    (KeyDecoders.subjectPublicKeyInfo der)
  let pkBytes ← keyBytes rsaSignature .parsePublicKeyError alg spki.algorithm (subjectKeyBytes spki)
    (subjectKeyBytes spki) (subjectKeyBytes spki)
  fromBytes rsaSignature alg pkBytes

theorem fromPem_eq {pem : Text} {r : HttpSigResult PublicKey} (hr : ∀ e, r ≠ .err e) : fromPem rsaSignature alg pem = r ↔
    ∃ der, KeyDecoders.documentFromPem pem = .ok ("PUBLIC KEY".toList, der) ∧ fromDocument rsaSignature alg der = r :=
  labelled_eq (fromDocument rsaSignature alg) hr

theorem fromPem_eq_ok {pem : Text} {k : PublicKey} (h : fromPem rsaSignature alg pem = .ok k) :
    k.alg = alg ∧ ∃ der spki, KeyDecoders.documentFromPem pem = .ok ("PUBLIC KEY".toList, der) ∧
      KeyDecoders.subjectPublicKeyInfo der = .ok spki ∧ IdentifiedAs alg spki.algorithm := by
  obtain ⟨der, hdoc, h⟩ := (fromPem_eq fun _ => Outcome.ok_ne_err).mp h
  obtain ⟨spki, hspki, h⟩ := Outcome.bind_eq_ok.mp h
  obtain ⟨bytes, hbytes, h⟩ := Outcome.bind_eq_ok.mp h
  exact ⟨fromBytes_alg h, der, spki, hdoc, mapText_eq_ok.mp hspki, (loads_of_keyBytes hbytes).1⟩

theorem fromBytes_ne_panic {bytes : Bytes} : fromBytes rsaSignature alg bytes ≠ .panic := by
  cases alg with
  | hmacSha256 => exact Outcome.err_ne_panic _
  | ecdsaP256Sha256 | ecdsaP384Sha384 | ed25519 =>
    exact Outcome.bind_ne_panic mapText_ne_panic fun _ _ => Outcome.ok_ne_panic _
  | rsaV15Sha256 | rsaPssSha512 =>
    cases rsaSignature with
    | false => exact Outcome.err_ne_panic _
    | true => exact Outcome.bind_ne_panic mapText_ne_panic fun _ _ => Outcome.ok_ne_panic _

omit [Primitives] [KeyDecoders] in
theorem keyBytes_ne_panic {spki : SubjectPublicKeyInfo} : keyBytes rsaSignature .parsePublicKeyError alg spki.algorithm
    (subjectKeyBytes spki) (subjectKeyBytes spki) (subjectKeyBytes spki) ≠ .panic := by
  rcases keyBytes_cases with ⟨-, hb⟩ | ⟨-, e, hb⟩
  · rw [hb]
    cases alg <;> exact Outcome.okOr_ne_panic
  · rw [hb]
    exact Outcome.err_ne_panic _

/-- Public keys are read with an error for every length. -/
theorem fromPem_ne_panic {pem : Text} : fromPem rsaSignature alg pem ≠ .panic := by
  intro h
  obtain ⟨der, -, h⟩ := (fromPem_eq fun e => (Outcome.err_ne_panic e).symm).mp h
  refine absurd h (Outcome.bind_ne_panic mapText_ne_panic fun spki _ => ?_)
  exact Outcome.bind_ne_panic keyBytes_ne_panic fun _ _ => fromBytes_ne_panic

end PublicKey

/-! ### Shared keys -/

omit [Primitives] [KeyDecoders] in
/-- A shared key is loaded for HMAC only, from the text that encodes it and from no other. -/
theorem SharedKey.fromBase64_eq_ok {key : Text} {k : SharedKey} : fromBase64 alg key = .ok k ↔
    alg = .hmacSha256 ∧ ∃ bytes, key = Base64.encode bytes ∧ k = .hmacSha256 bytes := by
  rw [fromBase64, Outcome.bind_eq_ok]
  simp only [Outcome.okOr_eq_ok, Base64.decodeStandard_eq_some]
  constructor
  · rintro ⟨bytes, hbytes, h⟩
    cases alg <;> cases h
    exact ⟨rfl, bytes, hbytes, rfl⟩
  · rintro ⟨rfl, bytes, hbytes, rfl⟩
    exact ⟨bytes, hbytes, rfl⟩

/-! ### Every entry point -/

/-- Which calls do not panic: raw keys of the algorithm's length, documents whose field fits, and all of public keys. -/
theorem key_loading_total_iff (rsaSignature : Bool) (alg : AlgorithmName) :
    (∀ bytes, SecretKey.fromBytes rsaSignature alg bytes ≠ .panic ↔ ∀ n ∈ alg.rawLength, bytes.length = n) ∧
    (∀ der, SecretKey.fromDer rsaSignature alg der ≠ .panic ↔ SecretKey.DerFits alg der) ∧
    (∀ pem, SecretKey.fromPem rsaSignature alg pem ≠ .panic ↔
      ∀ der, KeyDecoders.documentFromPem pem = .ok ("PRIVATE KEY".toList, der) → SecretKey.DerFits alg der) ∧
    (∀ bytes, PublicKey.fromBytes rsaSignature alg bytes ≠ .panic) ∧
    ∀ pem, PublicKey.fromPem rsaSignature alg pem ≠ .panic := by
  refine ⟨fun bytes => ?_, fun der => ?_, fun pem => ?_, fun _ => PublicKey.fromBytes_ne_panic,
    fun _ => PublicKey.fromPem_ne_panic⟩
  · rw [Ne, SecretKey.fromBytes_eq_panic]
    simp only [not_exists, not_and, not_not]
  · rw [Ne, SecretKey.fromDer_eq_panic, not_not]
  · rw [Ne, SecretKey.fromPem_eq_panic]
    simp only [not_exists, not_and, not_not]

/-- A key that is loaded is of the requested algorithm, and its document says so too; deriving the public key keeps the
algorithm and the id. Nothing is loaded for HMAC. -/
theorem key_loading_keeps_algorithm (rsaSignature : Bool) (alg : AlgorithmName) :
    (∀ der k, SecretKey.fromDer rsaSignature alg der = .ok k →
      k.alg = alg ∧ ∃ pki, KeyDecoders.privateKeyInfo der = .ok pki ∧ IdentifiedAs alg pki.algorithm) ∧
    (∀ pem k, SecretKey.fromPem rsaSignature alg pem = .ok k →
      k.alg = alg ∧ ∃ der pki, KeyDecoders.documentFromPem pem = .ok ("PRIVATE KEY".toList, der) ∧
        KeyDecoders.privateKeyInfo der = .ok pki ∧ IdentifiedAs alg pki.algorithm) ∧
    (∀ pem k, PublicKey.fromPem rsaSignature alg pem = .ok k →
      k.alg = alg ∧ ∃ der spki, KeyDecoders.documentFromPem pem = .ok ("PUBLIC KEY".toList, der) ∧
        KeyDecoders.subjectPublicKeyInfo der = .ok spki ∧ IdentifiedAs alg spki.algorithm) ∧
    (∀ k : SecretKey, k.publicKey.alg = k.alg ∧ k.publicKey.keyId = k.keyId) ∧
    (∀ der k, SecretKey.fromDer rsaSignature .hmacSha256 der ≠ .ok k) ∧
    (∀ pem k, SecretKey.fromPem rsaSignature .hmacSha256 pem ≠ .ok k) ∧
    ∀ pem k, PublicKey.fromPem rsaSignature .hmacSha256 pem ≠ .ok k := by
  have hmac : ∀ der k, SecretKey.fromDer rsaSignature .hmacSha256 der ≠ .ok k := by
    intro der k h
    obtain ⟨-, pki, -, hid⟩ := SecretKey.fromDer_eq_ok h
    exact not_identifiedAs_hmac hid
  refine ⟨fun der k h => SecretKey.fromDer_eq_ok h, fun pem k h => ?_, fun pem k h => PublicKey.fromPem_eq_ok h,
    fun k => ⟨rfl, rfl⟩, hmac, fun pem k h => ?_, fun pem k h => ?_⟩
  · obtain ⟨der, hdoc, h⟩ := SecretKey.fromPem_eq_ok.mp h
    obtain ⟨halg, pki, hpki, hid⟩ := SecretKey.fromDer_eq_ok h
    exact ⟨halg, der, pki, hdoc, hpki, hid⟩
  · obtain ⟨der, -, h⟩ := SecretKey.fromPem_eq_ok.mp h
    exact hmac der k h
  · obtain ⟨-, der, spki, -, -, hid⟩ := PublicKey.fromPem_eq_ok h
    exact not_identifiedAs_hmac hid

end

/-! ### Ed25519 documents -/

/-- The seed of the Ed25519 key that the source's tests load, and its public key. -/
def eddsaSeed : Bytes := [0x34, 0x87, 0x00, 0x4f, 0xbe, 0xab, 0x50, 0x4f, 0xed, 0x3f, 0x2d, 0x93, 0xe9, 0x89, 0xb5, 0x2f,
  0xa1, 0x2d, 0xff, 0x35, 0x07, 0x4a, 0x3a, 0x08, 0x5c, 0x96, 0x82, 0xe7, 0x03, 0x14, 0xdf, 0xc2]

def eddsaPublic : Bytes := [0xd6, 0x2c, 0x4c, 0x41, 0xcc, 0x4e, 0xe3, 0xa3, 0xcb, 0x96, 0x04, 0x1f, 0x61, 0x2e, 0x3a, 0x8a,
  0xf1, 0x5d, 0xfa, 0x7d, 0x02, 0x70, 0x31, 0xd2, 0x29, 0x49, 0xee, 0x86, 0x6d, 0xe2, 0xd4, 0xed]

/-- Primitives with Ed25519 keys only, which are their own bytes. -/
@[reducible] def ed25519Primitives : Primitives where
  sha256 bs := bs
  hmacSha256 _ bs := bs
  EcPublicKey _ := Empty
  EcSignature _ := Empty
  ecPublicBytes pk := nomatch pk
  ecSignatureFromBytes _ _ := .error []
  ecVerifyDigest pk _ _ := nomatch pk
  Ed25519PublicKey := Bytes
  ed25519PublicBytes pk := pk
  Ed25519Signature := Bytes
  ed25519SignatureFromSlice bs := .ok bs
  ed25519Verify _ _ _ := .error []
  RsaPublicKey := Empty
  rsaPublicBytes pk := nomatch pk
  RsaSignature := Empty
  rsaSignatureFromSlice _ := .error []
  rsaV15Verify pk _ _ := nomatch pk
  rsaPssVerify pk _ _ := nomatch pk

/-- The document of an Ed25519 key, whose octet string may be of any length. -/
def readEd25519Info : Bytes → Except Text PrivateKeyInfo
  | 0x30 :: n :: 0x02 :: 0x01 :: 0x00 :: 0x30 :: 0x05 :: 0x06 :: 0x03 :: 0x2b :: 0x65 :: 0x70 :: 0x04 :: m :: field =>
    if field.length = m.toNat ∧ n.toNat = m.toNat + 12 then .ok ⟨⟨.ed25519, .error []⟩, field⟩ else .error []
  | _ => .error []

@[reducible] def ed25519Decoders : @KeyDecoders ed25519Primitives :=
  let _ := ed25519Primitives
  { EcSecretKey _ := Empty
    ecSecretFromBytes _ _ := .error []
    ecPublicKey sk := nomatch sk
    ecPublicFromSec1Bytes _ _ := .error []
    sec1PrivateKey _ := .error []
    Ed25519SecretKey := Bytes
    ed25519FromSeed seed := seed.val
    ed25519PublicKey sk := if sk = eddsaSeed then eddsaPublic else []
    ed25519PublicFromSlice bs := .ok bs
    RsaPrivateKey := Empty
    rsaPrivateFromPkcs1Der _ := .error []
    rsaVerifyingKey sk := nomatch sk
    rsaPublicFromPkcs1Der _ := .error []
    privateKeyInfo := readEd25519Info
    subjectPublicKeyInfo _ := .error []
    documentFromPem _ := .error [] }

/-- A document whose octet string is empty. -/
def emptyKeyDer : Bytes := [0x30, 0x0c, 0x02, 0x01, 0x00, 0x30, 0x05, 0x06, 0x03, 0x2b, 0x65, 0x70, 0x04, 0x00]

/-- The document of the test key. -/
def eddsaKeyDer : Bytes :=
  [0x30, 0x2e, 0x02, 0x01, 0x00, 0x30, 0x05, 0x06, 0x03, 0x2b, 0x65, 0x70, 0x04, 0x22, 0x04, 0x20] ++ eddsaSeed

/-- Raw keys that are too short, and a well-formed document without a key, panic. -/
theorem short_keys_panic :
    @SecretKey.fromBytes ed25519Primitives ed25519Decoders true .ed25519 [] = .panic ∧
    @SecretKey.fromBytes ed25519Primitives ed25519Decoders true .ecdsaP256Sha256 (List.replicate 31 1) = .panic ∧
    @SecretKey.fromDer ed25519Primitives ed25519Decoders true .ed25519 emptyKeyDer = .panic := ⟨rfl, rfl, rfl⟩

theorem eddsaKey_loaded : ∃ k, @SecretKey.fromDer ed25519Primitives ed25519Decoders true .ed25519 eddsaKeyDer = .ok k ∧
    @SecretKey.alg ed25519Primitives ed25519Decoders k = .ed25519 ∧
    ∃ pki, ed25519Decoders.privateKeyInfo eddsaKeyDer = .ok pki ∧ IdentifiedAs .ed25519 pki.algorithm := by
  have hload : @SecretKey.fromDer ed25519Primitives ed25519Decoders true .ed25519 eddsaKeyDer =
      .ok (@SecretKey.ed25519 ed25519Primitives ed25519Decoders eddsaSeed) := rfl
  exact ⟨_, hload, (@key_loading_keeps_algorithm ed25519Primitives ed25519Decoders true .ed25519).1 _ _ hload⟩

end HttpSig
