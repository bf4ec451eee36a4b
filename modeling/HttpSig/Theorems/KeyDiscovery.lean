import HttpSig.SecretSigning
import HttpSig.Theorems.Readings
import HttpSig.Theorems.Relay
import Mathlib.Data.List.Find

/-! Finding the key of a signature. Signatures that carry the id and the algorithm of their key tell who reads the message
which keys to fetch, and every key that is fetched so finds its signature among those of the others. -/

namespace HttpSig
open Rust Sfv Http

/-! ### Held signatures and key ids -/

def HeldSignature.keyid (e : HeldSignature) : Option Text := e.2.2.signatureParams.keyid

theorem find?_of_forall₂ {α α' δ : Type} {p : α → Bool} {q : α' → Bool} {f : α → δ} {g : α' → δ} {l : List α} {l' : List α'}
    (h : List.Forall₂ (fun a b => p a = q b ∧ f a = g b) l l') : (l.find? p).map f = (l'.find? q).map g := by
  induction h with
  | nil => rfl
  | @cons a b l l' hab _ ih =>
    rw [List.find?_cons, List.find?_cons, hab.1]
    cases q b
    · exact ih
    · exact congrArg some hab.2

/-! ### Parameters with key info -/

section
variable [Primitives] [KeyDecoders]

/-- The parameters carry the id and the algorithm of the key, as `set_key_info` leaves them. -/
structure CarriesKeyInfo (p : HttpSignatureParams) (key : SecretKey) : Prop where
  keyid : p.keyid = some key.keyId
  alg : p.alg = some key.alg.asStr

theorem carriesKeyInfo_of_set {oc : Bool} {p p' : HttpSignatureParams} {key : SecretKey}
    (h : HttpSignatureParams.set oc p (.setKeyInfo key.keyId key.alg) = .ok p') : CarriesKeyInfo p' key := by
  cases h
  exact ⟨rfl, rfl⟩

theorem CarriesKeyInfo.knownAlg {rsaSignature : Bool} {p : HttpSignatureParams} {key : SecretKey} (h : CarriesKeyInfo p key)
    (hkey : key.alg ∈ AlgorithmName.builtIn rsaSignature) : p.knownAlg rsaSignature = some key.alg :=
  HttpSignatureParams.knownAlg_eq_some.mpr ⟨h.alg, hkey⟩

end

namespace Message
variable {β γ : Type} {m m' : Message β γ} {es made : List HeldSignature}

theorem Holds.readHeaders (h : m.Holds es) (hne : es ≠ []) : m.readHeaders = .ok (es.map fun e => (e.1, e.2.2)) := by
  obtain ⟨hbears, -⟩ := h
  generalize hl : es.map (fun e => (e.1, e.2.2)) = l at hbears
  cases hbears with
  | unsigned _ _ => exact absurd (List.map_eq_nil_iff.mp hl) hne
  | signed hm _ =>
    rw [Message.readHeaders, hm]
    rfl

/-- The algorithms and key ids of what a message holds. -/
theorem Holds.getAlgKeyIds (h : m.Holds es) (hne : es ≠ []) (rsaSignature : Bool) :
    ∃ algs, m.getAlgKeyIds rsaSignature = .ok algs ∧ algs.entries =
      es.map fun e => (e.1, (e.2.2.signatureParams.knownAlg rsaSignature, e.2.2.signatureParams.keyid)) := by
  have hread := m.entries_getAlgKeyIds rsaSignature
  rw [h.readHeaders hne, Outcome.map_ok] at hread
  obtain ⟨algs, halgs, hentries⟩ := Outcome.map_eq_ok.mp hread
  refine ⟨algs, halgs, hentries.trans ?_⟩
  rw [List.map_map]
  rfl

/-- A key that is asked for by an id finds the first signature in time under that id, when all signatures under it are its
own; the others it does not look at. -/
theorem Holds.verifyMessageSignature_keyId {κ : Type} [VerifyingKey κ] {key : κ} {keyId : Text} {now : UInt64}
    {e : HeldSignature} (h : m.Holds es)
    (hown : ∀ x ∈ es, x.keyid = some keyId → VerifyingKey.verify key x.2.1.asBytes x.2.2.signature = .ok ())
    (hfind : es.find? (fun x => x.keyid = some keyId && !x.2.2.signatureParams.isExpired now) = some e) :
    m.verifyMessageSignature key (some keyId) now = .ok e.1 := by
  have hmem := List.mem_of_find?_eq_some hfind
  obtain ⟨map, hm, hentries⟩ := h.extractSignatures (List.ne_nil_of_mem hmem)
  have hkeyid : ∀ x ∈ es, hasKeyId (some keyId) x.2.1 = decide (x.keyid = some keyId) := by
    intro x hx
    have hparams : x.2.1.signatureParams = x.2.2.signatureParams := (buildSignatureBase_eq_ok.mp (h.base x hx)).2
    rw [hasKeyId, HttpSignatureBase.keyid, hparams]
    rfl
  have hselects : ∀ x ∈ es, selects key (some keyId) now x =
      (x.keyid = some keyId && !x.2.2.signatureParams.isExpired now) := by
    intro x hx
    rw [selects, hkeyid x hx, HttpSignatureBase.verifySignatureHeaders]
    by_cases hid : x.keyid = some keyId
    · cases x.2.2.signatureParams.isExpired now
      · rw [if_neg Bool.false_ne_true, hown x hx hid]
        rfl
      · rfl
    · rw [decide_eq_false hid]
      rfl
  refine verifyMessageSignature_eq_ok.mpr ⟨map, hm, verifyWithKey_of_find ?_ ?_⟩
  · intro x hx hid hpanic
    rw [hentries] at hx
    rw [hkeyid x hx, decide_eq_true_eq] at hid
    rw [HttpSignatureBase.verifySignatureHeaders, hown x hx hid] at hpanic
    split at hpanic <;> cases hpanic
  · have hsame : es.find? (selects key (some keyId) now) = some e := by
      rw [← hfind]
      exact List.find?_congr hselects
    rw [hentries, hsame]
    rfl

/-! ### One call -/

section
variable [Primitives] [KeyDecoders] [Signers] [LawfulSigners] {list : List (HttpSignatureParams × DrawingKey × Option Text)}

/-- What a call makes with a secret key: a signature that the public key accepts. -/
structure MadeBy (list : List (HttpSignatureParams × DrawingKey × Option Text)) (e : HttpSignatureParams × DrawingKey × Option Text)
    (r : HeldSignature) : Prop where
  mem : e ∈ list
  label : r.1 = labelOf e
  params : r.2.2.signatureParams = e.1
  verify : VerifyingKey.verify e.2.1.key.publicKey r.2.1.asBytes r.2.2.signature = .ok ()

theorem madeBy_of_makes (hmade : List.Forall₂ (Makes m) list made) : List.Forall₂ (MadeBy list) list made := by
  refine List.forall₂_iff_zip.mpr ⟨hmade.length_eq, fun {e r} hmem => ?_⟩
  obtain ⟨base, signature, -, hsign, rfl⟩ := (List.forall₂_iff_zip.mp hmade).2 hmem
  exact ⟨(List.of_mem_zip hmem).1, rfl, rfl, SecretKey.verify_sign hsign⟩

omit [Signers] [LawfulSigners] in
/-- What a call makes is reported with the algorithm and the id of its key. -/
theorem algs_of_madeBy {rsaSignature : Bool} (hkeys : List.Forall₂ (MadeBy list) list made)
    (hinfo : ∀ e ∈ list, CarriesKeyInfo e.1 e.2.1.key)
    (hbuilt : ∀ e ∈ list, e.2.1.key.alg ∈ AlgorithmName.builtIn rsaSignature) :
    made.map (fun r => (r.1, (r.2.2.signatureParams.knownAlg rsaSignature, r.2.2.signatureParams.keyid))) =
      list.map fun e => (labelOf e, (some e.2.1.key.alg, some e.2.1.key.keyId)) := by
  rw [← List.forall₂_eq_eq_eq, List.forall₂_map_left_iff, List.forall₂_map_right_iff]
  refine hkeys.flip.imp fun r e hr => ?_
  rw [hr.label, hr.params, (hinfo e hr.mem).knownAlg (hbuilt e hr.mem), (hinfo e hr.mem).keyid]

omit [Signers] [LawfulSigners] in
/-- The signatures under the id of a key are accepted by it, as no other key has the id. -/
theorem verify_of_madeBy (hkeys : List.Forall₂ (MadeBy list) list made) (hinfo : ∀ e ∈ list, CarriesKeyInfo e.1 e.2.1.key)
    (hids : ∀ e ∈ list, ∀ x ∈ list, x.2.1.key.keyId = e.2.1.key.keyId → x.2.1.key.publicKey = e.2.1.key.publicKey)
    {e : HttpSignatureParams × DrawingKey × Option Text} (he : e ∈ list) {r : HeldSignature} (hr : r ∈ made)
    (hid : r.keyid = some e.2.1.key.keyId) :
    VerifyingKey.verify e.2.1.key.publicKey r.2.1.asBytes r.2.2.signature = .ok () := by
  obtain ⟨z, hz, hzr⟩ := Outcome.exists_of_mem_right hkeys hr
  rw [HeldSignature.keyid, hzr.params, (hinfo z hz).keyid, Option.some.injEq] at hid
  rw [← hids e he z hz hid]
  exact hzr.verify

omit [Signers] [LawfulSigners] in
/-- The first entry with a key is the first signature under its id. -/
theorem exists_first_of_madeBy {now : UInt64} (hkeys : List.Forall₂ (MadeBy list) list made)
    (hinfo : ∀ e ∈ list, CarriesKeyInfo e.1 e.2.1.key) (hnow : ∀ e ∈ list, ∀ t ∈ e.1.expires, now ≤ t)
    {e : HttpSignatureParams × DrawingKey × Option Text} (he : e ∈ list) :
    ∃ x r, list.find? (fun x => x.2.1.key.keyId = e.2.1.key.keyId) = some x ∧
      made.find? (fun r => r.keyid = some e.2.1.key.keyId && !r.2.2.signatureParams.isExpired now) = some r ∧
      r.1 = labelOf x := by
  have hfound : (list.find? fun x => x.2.1.key.keyId = e.2.1.key.keyId).isSome = true :=
    List.find?_isSome.mpr ⟨e, he, decide_eq_true rfl⟩
  obtain ⟨x, hx⟩ := Option.isSome_iff_exists.mp hfound
  have hsame : (list.find? fun y => y.2.1.key.keyId = e.2.1.key.keyId).map labelOf =
      (made.find? fun r => r.keyid = some e.2.1.key.keyId && !r.2.2.signatureParams.isExpired now).map Prod.fst := by
    refine find?_of_forall₂ (hkeys.imp fun y r hr => ⟨?_, hr.label.symm⟩)
    rw [HeldSignature.keyid, hr.params, (hinfo y hr.mem).keyid,
      HttpSignatureParams.isExpired_eq_false.mpr (hnow y hr.mem), Bool.not_false, Bool.and_true, decide_eq_decide,
      Option.some.injEq]
  rw [hx] at hsame
  obtain ⟨r, hr, hlabel⟩ := Option.map_eq_some_iff.mp hsame.symm
  exact ⟨x, r, hx, hr, hlabel⟩

/-- Signatures by secret keys of any kinds, beside those a message holds by keys with other ids. The labels are reported
with the algorithm and the id of their key, and each key that is asked for by its id finds the first label made with it. -/
theorem keys_of_signed {rsaSignature : Bool} {now : UInt64} (h : m.Holds es) (hsettled : AllSettled (es.map Prod.fst) es)
    (hadm : Admits (es.map Prod.fst) list) (hlist : ∀ e ∈ list, ∀ id ∈ e.1.coveredComponents, Settled (es.map Prod.fst) id)
    (hset : m.setMessageSignatures list = (m', .ok ())) (hne : list ≠ []) (hinfo : ∀ e ∈ list, CarriesKeyInfo e.1 e.2.1.key)
    (hbuilt : ∀ e ∈ list, e.2.1.key.alg ∈ AlgorithmName.builtIn rsaSignature)
    (hothers : ∀ e ∈ list, ∀ x ∈ es, x.keyid ≠ some e.2.1.key.keyId)
    (hids : ∀ e ∈ list, ∀ x ∈ list, x.2.1.key.keyId = e.2.1.key.keyId → x.2.1.key.publicKey = e.2.1.key.publicKey)
    (hnow : ∀ e ∈ list, ∀ t ∈ e.1.expires, now ≤ t) :
    (∃ algs, m'.getAlgKeyIds rsaSignature = .ok algs ∧ algs.entries =
      es.map (fun e => (e.1, (e.2.2.signatureParams.knownAlg rsaSignature, e.2.2.signatureParams.keyid))) ++
        list.map fun e => (labelOf e, (some e.2.1.key.alg, some e.2.1.key.keyId))) ∧
    ∀ e ∈ list, ∃ x, list.find? (fun x => x.2.1.key.keyId = e.2.1.key.keyId) = some x ∧
      m'.verifyMessageSignature e.2.1.key.publicKey (some e.2.1.key.keyId) now = .ok (labelOf x) := by
  obtain ⟨made, hmade⟩ := exists_makes hset
  have hholds := h.setMessageSignatures hsettled hadm hlist hset hmade
  have hkeys := madeBy_of_makes hmade
  constructor
  · have hnonempty : es ++ made ≠ [] := by
      intro hnil
      have hlength := hmade.length_eq
      rw [(List.append_eq_nil_iff.mp hnil).2] at hlength
      exact hne (List.length_eq_zero_iff.mp hlength)
    obtain ⟨algs, halgs, hentries⟩ := hholds.getAlgKeyIds hnonempty rsaSignature
    refine ⟨algs, halgs, ?_⟩
    rw [hentries, List.map_append, algs_of_madeBy hkeys hinfo hbuilt]
  · intro e he
    obtain ⟨x, r, hx, hr, hlabel⟩ := exists_first_of_madeBy hkeys hinfo hnow he
    refine ⟨x, hx, ?_⟩
    rw [← hlabel]
    refine hholds.verifyMessageSignature_keyId ?_ ?_
    · intro y hy hid
      rcases List.mem_append.mp hy with hy | hy
      · exact absurd hid (hothers e he y hy)
      · exact verify_of_madeBy hkeys hinfo hids he hy hid
    · -- Among the signatures under the id there are those made with the key, and no others.
      have hnone : es.find? (fun y => y.keyid = some e.2.1.key.keyId && !y.2.2.signatureParams.isExpired now) = none := by
        rw [List.find?_eq_none]
        intro y hy hyes
        rw [Bool.and_eq_true, decide_eq_true_eq] at hyes
        exact hothers e he y hy hyes.1
      rw [List.find?_append, hnone, hr]
      rfl

end

end Message

/-! ### A request signed with a P-256 key -/

def p256Scalar : Bytes := [
  0xc9, 0xaf, 0xa9, 0xd8, 0x45, 0xba, 0x75, 0x16, 0x6b, 0x5c, 0x21, 0x57, 0x67, 0xb1, 0xd6, 0x93,
  0x4e, 0x50, 0xc3, 0xdb, 0x36, 0xe8, 0x9b, 0x12, 0x7b, 0x8a, 0x62, 0x2b, 0x12, 0x0f, 0x67, 0x21]

/-- Its public key as a compressed point. -/
def p256Point : Bytes := [
  0x03, 0x60, 0xfe, 0xd4, 0xba, 0x25, 0x5a, 0x9d, 0x31, 0xc9, 0x61, 0xeb, 0x74, 0xc6, 0x35, 0x6d, 0x68,
  0xc0, 0x49, 0xb8, 0x92, 0x3b, 0x61, 0xfa, 0x6c, 0xe6, 0x69, 0x62, 0x2e, 0x60, 0xf2, 0x9f, 0xb6]

/-- The SHA-256 digest of the point. -/
def p256PointDigest : Bytes := [
  0xa4, 0x68, 0x07, 0x2b, 0xf8, 0x3a, 0x27, 0x03, 0x08, 0x5a, 0xf2, 0x57, 0x0d, 0x84, 0x7c, 0x88,
  0xc9, 0x3d, 0x80, 0x71, 0x17, 0x5d, 0xf0, 0x58, 0x7b, 0xff, 0x53, 0xeb, 0x4c, 0xf5, 0x78, 0x24]

def p256KeyId : Text := "pGgHK/g6JwMIWvJXDYR8iMk9gHEXXfBYe/9T60z1eCQ=".toList

def p256Params : HttpSignatureParams :=
  { Message.methodParams with alg := some "ecdsa-p256-sha256".toList, keyid := some p256KeyId }

def p256Base : HttpSignatureBase where
  componentLines := Message.methodBase.componentLines
  signatureParams := p256Params
  length_eq := Message.methodBase.length_eq
  ids_match := Message.methodBase.ids_match

/-- The signature of the base, with the nonce that is derived from the key and the digest. -/
def p256Signature : Bytes := [
  0x64, 0xbc, 0xbc, 0x7a, 0xa2, 0x6b, 0x71, 0x87, 0xd9, 0x89, 0x38, 0x5d, 0xa7, 0xc2, 0x2a, 0xe0,
  0x1d, 0xa2, 0xaa, 0xa0, 0x7c, 0x7b, 0x40, 0x0f, 0xb8, 0x4b, 0x25, 0xa7, 0xf7, 0x29, 0x84, 0x2f,
  0xeb, 0xf5, 0x4b, 0x9c, 0x5c, 0xe6, 0xb8, 0xc0, 0x26, 0x13, 0xbc, 0x58, 0x9f, 0xb6, 0xaa, 0xb0,
  0xc2, 0x34, 0x59, 0xd2, 0x0f, 0xfc, 0x81, 0xb6, 0x48, 0xfc, 0x4c, 0x83, 0xa7, 0x13, 0xb4, 0xed]

section

/-- The primitives where they are called for this one key and base. -/
local instance p256Primitives : Primitives where
  sha256 bs := if bs = p256Point then p256PointDigest else []
  hmacSha256 _ _ := []
  EcPublicKey _ := Bytes
  EcSignature c := {bs : Bytes // bs.length = c.signatureLength}
  ecPublicBytes pk := pk
  ecSignatureFromBytes _ bs := .ok bs
  ecVerifyDigest pk data sig :=
    if pk = p256Point ∧ data = p256Base.asBytes ∧ sig.val = p256Signature then .ok () else .error "signature error".toList
  Ed25519PublicKey := Unit
  ed25519PublicBytes _ := []
  Ed25519Signature := Bytes
  ed25519SignatureFromSlice bs := .ok bs
  ed25519Verify _ data sig := if sig = data then .ok () else .error []
  RsaPublicKey := Empty
  rsaPublicBytes pk := pk.elim
  RsaSignature := Empty
  rsaSignatureFromSlice _ := .error []
  rsaV15Verify pk _ _ := pk.elim
  rsaPssVerify pk _ _ := pk.elim

local instance p256Decoders : KeyDecoders where
  EcSecretKey _ := Bytes
  ecSecretFromBytes _ bs := .ok bs.val
  ecPublicKey sk := if sk = p256Scalar then p256Point else []
  ecPublicFromSec1Bytes _ bs := .ok bs
  sec1PrivateKey _ := .error []
  Ed25519SecretKey := Unit
  ed25519FromSeed _ := ()
  ed25519PublicKey sk := sk
  ed25519PublicFromSlice _ := .error []
  RsaPrivateKey := Empty
  rsaPrivateFromPkcs1Der _ := .error []
  rsaVerifyingKey sk := sk.elim
  rsaPublicFromPkcs1Der _ := .error []
  privateKeyInfo _ := .error []
  subjectPublicKeyInfo _ := .error []
  documentFromPem _ := .error []

/-- Signing of anything else fails. -/
def p256TrySign (sk data : Bytes) : Except Text {bs : Bytes // bs.length = Curve.p256.signatureLength} :=
  if sk = p256Scalar ∧ data = p256Base.asBytes then .ok ⟨p256Signature, rfl⟩ else .error "signature error".toList

local instance p256Signers : Signers where
  ecTrySignDigest {c} sk data :=
    match c with
    | .p256 => p256TrySign sk data
    | .p384 => .error []
  ecSignatureBytes sig := sig
  ed25519Sign _ data _ := data
  ed25519SignatureBytes sig := sig
  rsaV15TrySign sk _ _ := sk.elim
  rsaPssTrySign sk _ _ := sk.elim
  rsaSignatureBytes sig := sig.elim

theorem p256_lawful : LawfulSigners where
  ec_read _ := rfl
  ec_verify {c sk data sig} h := by
    cases c with
    | p256 =>
      have h : p256TrySign sk data = .ok sig := h
      unfold p256TrySign at h
      split at h
      · rename_i hin
        cases h
        exact if_pos ⟨if_pos hin.1, hin.2, rfl⟩
      · cases h
    | p384 => cases h
  ed25519_read _ := rfl
  ed25519_verify _ _ _ := if_pos rfl
  rsa_read sig := sig.elim
  rsaV15_verify {sk} := sk.elim
  rsaPss_verify {sk} := sk.elim

def p256Key : DrawingKey := ⟨.ecdsaP256Sha256 p256Scalar, fun _ => []⟩

def p256Call : List (HttpSignatureParams × DrawingKey × Option Text) := [(p256Params, p256Key, none)]

theorem p256Key_info : CarriesKeyInfo p256Params p256Key.key where
  keyid := by decide
  alg := by decide

theorem p256Key_builtIn : p256Key.key.alg ∈ AlgorithmName.builtIn false := by decide

theorem p256_ok : (Message.unsignedRequest.setMessageSignatures p256Call).2 = .ok () := by
  decide +kernel

theorem p256_signed : Message.unsignedRequest.setMessageSignatures p256Call =
    ((Message.unsignedRequest.setMessageSignatures p256Call).1, .ok ()) := by
  rw [← p256_ok]

theorem p256Params_readsBack : p256Params.ReadsBack := by
  unfold HttpSignatureParams.ReadsBack
  decide

theorem p256_admits : Admits [] p256Call :=
  ⟨by decide, List.forall_mem_singleton.mpr p256Params_readsBack, by decide, by decide⟩

theorem p256_found :
    (∃ algs, (Message.unsignedRequest.setMessageSignatures p256Call).1.getAlgKeyIds false = .ok algs ∧
      algs.entries = [("sig".toList, (some .ecdsaP256Sha256, some p256Key.key.keyId))]) ∧
    ∃ x, p256Call.find? (fun x => x.2.1.key.keyId = p256Key.key.keyId) = some x ∧
      (Message.unsignedRequest.setMessageSignatures p256Call).1.verifyMessageSignature p256Key.key.publicKey
        (some p256Key.key.keyId) 0 = .ok (labelOf x) := by
  have hlawful := p256_lawful
  have hmethod : Settled [] ⟨.derived .method, ∅⟩ := by
    rintro ⟨-, name, hn, -⟩
    cases hn
  refine (Message.keys_of_signed (Message.holds_unsigned (by decide) (by decide)) (fun _ h => absurd h List.not_mem_nil)
    p256_admits (List.forall_mem_singleton.mpr (List.forall_mem_singleton.mpr hmethod)) p256_signed (by decide)
    (List.forall_mem_singleton.mpr p256Key_info) (List.forall_mem_singleton.mpr p256Key_builtIn) (fun _ _ _ h => absurd h List.not_mem_nil)
    (List.forall_mem_singleton.mpr (List.forall_mem_singleton.mpr fun _ => rfl))
    (List.forall_mem_singleton.mpr fun _ h => absurd h (Option.not_mem_none _))).imp_right
      fun hfound => hfound (p256Params, p256Key, none) List.mem_cons_self

end

end HttpSig
