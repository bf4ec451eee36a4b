import HttpSig.Theorems.Sources

/-! What an accepted signature says of its algorithm and of its expiry. A declared algorithm is signed but never
compared with the key, and the expiry that is checked is the one beside the signature bytes. -/

namespace HttpSig
open Rust Sfv Http

/-! ### The declared algorithm -/

/-- The algorithm whose name the parameters declare, when the build has one of this name. -/
def HttpSignatureParams.knownAlg (rsaSignature : Bool) (p : HttpSignatureParams) : Option AlgorithmName :=
  (AlgorithmName.builtIn rsaSignature).find? fun a => p.alg = some a.asStr

namespace HttpSignatureParams
variable {rsaSignature : Bool} {p : HttpSignatureParams} {a : AlgorithmName}

theorem knownAlg_eq_some : p.knownAlg rsaSignature = some a ↔ p.alg = some a.asStr ∧ a ∈ AlgorithmName.builtIn rsaSignature := by
  have names : ∀ {b}, p.knownAlg rsaSignature = some b → p.alg = some b.asStr := by
    intro b h
    rw [knownAlg] at h
    simpa using List.find?_some h
  constructor
  · exact fun h => ⟨names h, List.mem_of_find?_eq_some h⟩
  · rintro ⟨halg, ha⟩
    have hsome : (p.knownAlg rsaSignature).isSome = true := List.find?_isSome.mpr ⟨a, ha, by simpa using halg⟩
    obtain ⟨b, hb⟩ := Option.isSome_iff_exists.mp hsome
    rw [hb, AlgorithmName.asStr_inj (Option.some.inj ((names hb).symm.trans halg))]

theorem knownAlg_of_none (h : p.alg = none) : p.knownAlg rsaSignature = none := by
  rw [Option.eq_none_iff_forall_ne_some]
  intro a ha
  rw [knownAlg_eq_some, h] at ha
  cases ha.1

/-- A declared name is reported as the algorithm of this name, or as none; no name panics. -/
theorem toOption_fromStr {s : Text} (h : p.alg = some s) :
    (AlgorithmName.fromStr rsaSignature s).toOption = (.ok (p.knownAlg rsaSignature) : HyperSigResult _) := by
  have hknown : ∀ a, p.knownAlg rsaSignature = some a ↔ AlgorithmName.fromStr rsaSignature s = .ok a := by
    intro a
    rw [knownAlg_eq_some, h, Option.some.injEq, AlgorithmName.fromStr_eq_ok]
  cases hs : AlgorithmName.fromStr rsaSignature s with
  | panic => exact absurd hs (AlgorithmName.fromStr_ne_panic rsaSignature s)
  | ok b =>
    rw [(hknown b).mpr hs]
    rfl
  | err e =>
    have hnone : p.knownAlg rsaSignature = none := by
      rw [Option.eq_none_iff_forall_ne_some]
      intro a ha
      rw [hknown, hs] at ha
      cases ha
    rw [hnone]
    rfl

end HttpSignatureParams

/-- A declared algorithm is part of what is printed. -/
theorem HttpSignatureParams.alg_infix {p : HttpSignatureParams} {a : Text} (h : p.alg = some a) :
    paramText "alg".toList (some (quoted a)) <:+: p.toText := by
  rw [toText, h, Option.map_some]
  exact ((((List.infix_append' [] _ _).trans (List.suffix_append ..).isInfix).trans (List.suffix_append ..).isInfix).trans
    (List.suffix_append ..).isInfix).trans (((List.suffix_cons ..).trans (List.suffix_append ..)).isInfix)

theorem HttpSignatureBase.alg_infix {base : HttpSignatureBase} {a : Text} (h : base.signatureParams.alg = some a) :
    HttpSignatureParams.paramText "alg".toList (some (HttpSignatureParams.quoted a)) <:+: base.toText :=
  (HttpSignatureParams.alg_infix h).trans (List.suffix_append ..).isInfix

section
variable {κ κ' : Type} [VerifyingKey κ] [VerifyingKey κ'] {key : κ} {key' : κ'}

/-- Keys that verify alike make the same of every label. -/
theorem verifyWithKey_congr (h : ∀ data signature, VerifyingKey.verify key' data signature = VerifyingKey.verify key data signature)
    (map : SignatureMap) (now : UInt64) (keyId : Option Text) :
    verifyWithKey map now key' keyId = verifyWithKey map now key keyId := by
  have hname : acceptedName key' now = acceptedName key now := by
    funext e
    rw [acceptedName, acceptedName, HttpSignatureBase.verifySignatureHeaders, HttpSignatureBase.verifySignatureHeaders, h]
  unfold verifyWithKey
  rw [hname]

end

namespace Message
variable {β γ κ : Type} [VerifyingKey κ] {m : Message β γ}

/-- The algorithms that the labels of a message declare, as they are reported. -/
theorem getAlgKeyIds_of_ok {map : HttpSignatureHeadersMap} (h : extractSignatureHeadersWithName m.message = .ok map)
    (rsaSignature : Bool) : ∃ algs, m.getAlgKeyIds rsaSignature = .ok algs ∧
      algs.entries = map.entries.map fun e => (e.1, (e.2.signatureParams.knownAlg rsaSignature, e.2.signatureParams.keyid)) := by
  let reported : Text × HttpSignatureHeaders → SignatureName × (Option AlgorithmName × Option Text) :=
    fun e => (e.1, (e.2.signatureParams.knownAlg rsaSignature, e.2.signatureParams.keyid))
  have hnd : ((map.entries.map reported).map Prod.fst).Nodup := by
    rw [List.map_map]
    exact map.nodup
  refine ⟨IndexMap.ofList (map.entries.map reported), ?_, IndexMap.entries_ofList hnd⟩
  rw [getAlgKeyIds_eq, getAlgKeyIdsInner, h, Outcome.ok_bind, Outcome.mapM_eq_ok_of_forall (g := reported) ?_, Outcome.ok_bind]
  intro e _
  cases halg : e.2.signatureParams.alg with
  | none =>
    have hnone : e.2.signatureParams.knownAlg rsaSignature = none := HttpSignatureParams.knownAlg_of_none halg
    simp only [reported, hnone, Outcome.ok_bind]
  | some s => simp only [reported, HttpSignatureParams.toOption_fromStr halg, Outcome.ok_bind]

/-- The headers hold these parameters and these bytes under a label. -/
def Labels (m : Message β γ) (name : SignatureName) (p : HttpSignatureParams) (bytes : Bytes) : Prop :=
  ∃ input signature k member ps, SignatureFields m.headers input signature ∧ (k, member) ∈ input.entries ∧ k.text = name ∧
    HttpSignatureParams.tryFrom member = .ok p ∧ signature.get? k = some (.item ⟨.byteSequence bytes, ps⟩)

/-- A signature that is accepted carries its declared algorithm in the bytes that the key accepted with the bytes of its
label, and the algorithm is reported as it was declared; but whatever the key's own algorithm is, the outcome is the
same. -/
theorem accepted_alg {key : κ} {keyId : Option Text} {now : UInt64} {name : SignatureName}
    (h : m.verifyMessageSignature key keyId now = .ok name) :
    ∃ params p base bytes, m.getSignatureParams = .ok params ∧ (name, p) ∈ params.entries ∧ m.Labels name p bytes ∧
      m.signatureBase p = .ok base ∧ VerifyingKey.verify key base.asBytes bytes = .ok () ∧
      (∀ a ∈ p.alg, HttpSignatureParams.paramText "alg".toList (some (HttpSignatureParams.quoted a)) <:+: base.toText) ∧
      (∀ rsaSignature, ∃ algs alg, m.getAlgKeyIds rsaSignature = .ok algs ∧ (name, (alg, p.keyid)) ∈ algs.entries ∧
        ∀ a, alg = some a ↔ p.alg = some a.asStr ∧ a ∈ AlgorithmName.builtIn rsaSignature) ∧
      ∀ (κ' : Type) [VerifyingKey κ'] (key' : κ'),
        (∀ data signature, VerifyingKey.verify key' data signature = VerifyingKey.verify key data signature) →
        m.verifyMessageSignature key' keyId now = .ok name := by
  obtain ⟨map, hm, hver⟩ := verifyMessageSignature_eq_ok.mp h
  obtain ⟨input, signature, l₁, ⟨k, member⟩, l₂, hf, hl, -, hacc, rfl⟩ :=
    (find?_selects_eq_some hm).mp ((verifyWithKey_eq_ok hver name).mp rfl)
  obtain ⟨p, base, bytes, ps, hread, hbase, hget, -, -, hverify⟩ := hacc
  have hmem : (k, member) ∈ input.entries := hl ▸ by simp
  have hparams : base.signatureParams = p := (buildSignatureBase_eq_ok.mp hbase).2
  -- the label is one of those that all the calls read
  have hinner := hm
  rw [extractSignatures_eq] at hinner
  obtain ⟨input', signature', hf', hr, -⟩ := extractSignaturesInner_eq_ok.mp hinner
  obtain ⟨rfl, rfl⟩ := hf.unique hf'
  obtain ⟨headersMap, hheaders, hentries⟩ := extractSignatureHeadersWithName_of_readable hf hr
  have he : (k.text, (⟨k.text, bytes, p⟩ : HttpSignatureHeaders)) ∈ headersMap.entries := by
    rw [hentries, List.mem_filterMap]
    exact ⟨(k, member), hmem, by rw [readEntry, hread, signatureBytes, hget]; rfl⟩
  obtain ⟨params, hp, hpmem⟩ := getSignatureParams_of_ok hheaders
  refine ⟨params, p, base, bytes, hp, hpmem _ he, ⟨input, signature, k, member, ps, hf, hmem, rfl, hread, hget⟩, hbase, hverify,
    fun a hdecl => HttpSignatureBase.alg_infix (hparams ▸ hdecl), fun rsaSignature => ?_, ?_⟩
  · obtain ⟨algs, ha, halgs⟩ := getAlgKeyIds_of_ok hheaders rsaSignature
    exact ⟨algs, _, ha, halgs ▸ List.mem_map_of_mem he, fun a => HttpSignatureParams.knownAlg_eq_some⟩
  · intro κ' _ key' hsame
    refine verifyMessageSignature_eq_ok.mpr ⟨map, hm, ?_⟩
    rw [verifyWithKey_congr hsame]
    exact hver

/-! ### A key of another algorithm -/

open scoped ByteKey

/-- Parameters that cover nothing and declare an algorithm. -/
def declaring (alg : Text) : HttpSignatureParams := { HttpSignatureParams.ofComponents [] with alg := some alg }

/-- A request whose one signature declares an algorithm that the byte keys are not of. -/
def declaredHmac : Message Unit Unit := .request (getRequest [
  (signatureInputHeader, "a=();alg=\"hmac-sha256\"".toList),
  (signatureHeader, "a=:AA==:".toList)])

theorem declaredHmac_params : declaredHmac.getSignatureParams = .ok (.ofList [("a".toList, declaring "hmac-sha256".toList)]) := by
  decide

theorem declaredHmac_verified : declaredHmac.verifyMessageSignature (ByteKey.mk 0) none 0 = .ok "a".toList := by
  decide

/-- A signature that declares an algorithm is accepted by a key of another one. -/
theorem accepted_despite_alg : ∃ params, declaredHmac.getSignatureParams = .ok params ∧
    declaredHmac.verifyMessageSignature (ByteKey.mk 0) none 0 = .ok "a".toList ∧
    ∃ p, ("a".toList, p) ∈ params.entries ∧ ∃ alg, p.alg = some alg ∧ alg ≠ (VerifyingKey.alg (ByteKey.mk 0)).asStr :=
  ⟨_, declaredHmac_params, declaredHmac_verified, declaring "hmac-sha256".toList, List.mem_singleton.mpr rfl, _, rfl,
    by decide⟩

theorem declaredHmac_reported : ∃ algs, declaredHmac.getAlgKeyIds false = .ok algs ∧
    ("a".toList, (some AlgorithmName.hmacSha256, none)) ∈ algs.entries := by
  obtain ⟨params, p, base, bytes, hp, hmem, -, -, -, -, hreported, -⟩ := accepted_alg declaredHmac_verified
  obtain ⟨algs, alg, ha, hamem, halg⟩ := hreported false
  rw [declaredHmac_params] at hp
  cases hp
  cases List.mem_singleton.mp hmem
  obtain rfl := (halg .hmacSha256).mpr ⟨rfl, by decide⟩
  exact ⟨algs, ha, hamem⟩

end Message

/-! ### The expiry that is checked -/

/-- A key that accepts every signature. -/
inductive AnyKey where
  | mk

local instance : VerifyingKey AnyKey where
  verify _ _ _ := .ok ()
  keyId _ := []
  alg _ := .ed25519

namespace HttpSignatureBase
variable {base : HttpSignatureBase} {headers : HttpSignatureHeaders}

/-- The headers expire with the base or before it, or the base never does. -/
def ExpiresFirst (headers : HttpSignatureHeaders) (base : HttpSignatureBase) : Prop :=
  ∀ t ∈ base.signatureParams.expires, t.toNat + 1 = 2 ^ 64 ∨ ∃ s ∈ headers.signatureParams.expires, s ≤ t

theorem verifySignatureHeaders_eq_ok {κ : Type} [VerifyingKey κ] {key : κ} {now : UInt64} :
    base.verifySignatureHeaders key headers now = .ok () ↔ headers.signatureParams.isExpired now = false ∧
      VerifyingKey.verify key base.asBytes headers.signature = .ok () := by
  rw [HttpSignatureParams.isExpired_eq_false, ← verifySignatureHeaders_isOk, Outcome.isOk_iff]
  exact ⟨fun h => ⟨(), h⟩, fun ⟨_, h⟩ => h⟩

/-- The headers expire first exactly when the base is in time whenever they are. -/
theorem expiresFirst_iff : ExpiresFirst headers base ↔
    ∀ now, headers.signatureParams.isExpired now = false → base.signatureParams.isExpired now = false := by
  simp only [HttpSignatureParams.isExpired_eq_false]
  constructor
  · intro h now hfresh t ht
    rw [UInt64.le_iff_toNat_le]
    rcases h t ht with hmax | ⟨s, hs, hst⟩
    · have := now.toNat_lt
      omega
    · have hfresh := hfresh s hs
      rw [UInt64.le_iff_toNat_le] at hst hfresh
      omega
  · intro h t ht
    by_contra hno
    obtain ⟨hmax, hlate⟩ := not_or.mp hno
    -- the moment after the base expires
    have hlt := t.toNat_lt
    have hnow : (t + 1).toNat = t.toNat + 1 := by
      rw [UInt64.toNat_add, show (1 : UInt64).toNat = 1 from rfl, Nat.mod_eq_of_lt (by omega)]
    have hfresh : ∀ s ∈ headers.signatureParams.expires, t + 1 ≤ s := by
      intro s hs
      have hlate : ¬ s ≤ t := fun hst => hlate ⟨s, hs, hst⟩
      rw [UInt64.le_iff_toNat_le] at hlate ⊢
      omega
    have hle := h (t + 1) hfresh t ht
    rw [UInt64.le_iff_toNat_le] at hle
    omega

/-- At one time no key accepts an expired base exactly when the base has not expired or the headers have. One key never
accepts an expired base exactly when it does not take the signature or the headers expire first, and all keys together
exactly when the headers expire first. -/
theorem verified_unexpired_iff (base : HttpSignatureBase) (headers : HttpSignatureHeaders) :
    (∀ now : UInt64, (∀ {κ : Type} [VerifyingKey κ] (key : κ),
        base.verifySignatureHeaders key headers now = .ok () → base.signatureParams.isExpired now = false) ↔
      base.signatureParams.isExpired now = false ∨ headers.signatureParams.isExpired now = true) ∧
    (∀ {κ : Type} [VerifyingKey κ] (key : κ), (∀ now : UInt64,
        base.verifySignatureHeaders key headers now = .ok () → base.signatureParams.isExpired now = false) ↔
      VerifyingKey.verify key base.asBytes headers.signature ≠ .ok () ∨ ExpiresFirst headers base) ∧
    ((∀ {κ : Type} [VerifyingKey κ] (key : κ) (now : UInt64),
        base.verifySignatureHeaders key headers now = .ok () → base.signatureParams.isExpired now = false) ↔
      ExpiresFirst headers base) := by
  have hkey : ∀ {κ : Type} [VerifyingKey κ] (key : κ), (∀ now : UInt64,
      base.verifySignatureHeaders key headers now = .ok () → base.signatureParams.isExpired now = false) ↔
        VerifyingKey.verify key base.asBytes headers.signature ≠ .ok () ∨ ExpiresFirst headers base := by
    intro κ _ key
    rw [expiresFirst_iff]
    simp only [verifySignatureHeaders_eq_ok]
    by_cases hverify : VerifyingKey.verify key base.asBytes headers.signature = .ok ()
    · simp [hverify]
    · simp [hverify]
  refine ⟨fun now => ⟨fun h => ?_, ?_⟩, hkey, fun h => ?_, fun h κ _ key => (hkey key).mpr (.inr h)⟩
  · cases hexpired : headers.signatureParams.isExpired now
    · exact .inl (h AnyKey.mk (verifySignatureHeaders_eq_ok.mpr ⟨hexpired, rfl⟩))
    · exact .inr rfl
  · rintro (h | h) κ _ key hok
    · exact h
    · rw [verifySignatureHeaders_eq_ok, h] at hok
      cases hok.1
  · exact ((hkey AnyKey.mk).mp (h AnyKey.mk)).resolve_left fun hno => hno rfl

/-- A base that expired at the first second. -/
def expiredBase : HttpSignatureBase where
  componentLines := []
  signatureParams := { HttpSignatureParams.ofComponents [] with expires := some 1 }
  length_eq := rfl
  ids_match := rfl

open scoped ByteKey

/-- Headers with a later expiry make an expired base acceptable. -/
theorem expired_accepted : HttpSignatureBase.tryNew [] expiredBase.signatureParams = .ok expiredBase ∧
    ∃ headers, HttpSignatureHeaders.tryParse "sig=:AA==:".toList "sig=();expires=10".toList =
        .ok (.ofList [("sig".toList, headers)]) ∧
      expiredBase.verifySignatureHeaders (ByteKey.mk 0) headers 5 = .ok () ∧
      expiredBase.signatureParams.isExpired 5 = true := by
  refine ⟨rfl, ⟨"sig".toList, [0], { HttpSignatureParams.ofComponents [] with expires := some 10 }⟩, ?_, ?_, ?_⟩
  all_goals decide +kernel

end HttpSignatureBase
end HttpSig
