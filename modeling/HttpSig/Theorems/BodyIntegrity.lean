import HttpSig.Theorems.Authenticity
import HttpSig.Theorems.DigestLines

/-! A body whose digest is covered: when the signature is accepted and the digest verifies, the body has the digest of
the one that was signed for. -/

namespace HttpSig
open Rust Sfv Http Systems

/-! ### Digests in their field -/

def digestText (t : ContentDigestType) (digest : Bytes) : Text := t.toText ++ '=' :: ':' :: Base64.encode digest ++ [':']

theorem comma_notMem_digestText (t : ContentDigestType) (digest : Bytes) : ',' ∉ digestText t digest := by
  have ht : ',' ∉ t.toText := by cases t <;> decide
  have hencode : ',' ∉ Base64.encode digest := by
    intro hm
    have := Base64.isBase64Char_of_mem_encode ',' hm
    revert this
    decide
  simp [digestText, ht, hencode]

theorem isDigestField_digestText (t : ContentDigestType) (digest : Bytes) : IsDigestField t digest (digestText t digest) := by
  refine ⟨_, ∅, ?_, IndexMap.entries_ofList (by simp)⟩
  rw [digestText, ContentDigestType.member_eq]
  exact parseDictionaryField_member t.key _

/-- A text has one digest. -/
theorem IsDigestField.unique {t t' : ContentDigestType} {digest digest' : Bytes} {s : Text} (h : IsDigestField t digest s)
    (h' : IsDigestField t' digest' s) : t = t' ∧ digest = digest' := by
  obtain ⟨d, ps, hd, he⟩ := h
  obtain ⟨d', ps', hd', he'⟩ := h'
  obtain rfl : d = d' := Option.some.inj (hd.symm.trans hd')
  rw [he] at he'
  have hpair := Prod.mk.inj (List.cons.inj he').1
  have hitem : ListEntry.item ⟨.byteSequence digest, ps⟩ = .item ⟨.byteSequence digest', ps'⟩ := hpair.2
  cases hitem
  exact ⟨ContentDigestType.key_injective hpair.1, rfl⟩

/-- Lines that make up a text without a comma are that one line. -/
theorem line_of_fieldText {headers : HeaderMap} {name s : Text} (h : fieldText headers name = some s) (hs : s ≠ [])
    (hcomma : ',' ∉ s) : ∃ v, headers.getAll name = [v] ∧ v.toStr = some s := by
  obtain ⟨ss, hss, rfl⟩ := Option.map_eq_some_iff.mp h
  cases hl : headers.getAll name with
  | nil =>
    rw [hl] at hss
    cases hss
    exact absurd rfl hs
  | cons v rest =>
    rw [hl, List.mapM_cons] at hss
    obtain ⟨a, ha, hss⟩ := Option.bind_eq_some_iff.mp hss
    obtain ⟨bs, hbs, hss⟩ := Option.bind_eq_some_iff.mp hss
    cases hss
    cases rest with
    | nil =>
      rw [List.mapM_nil] at hbs
      cases hbs
      exact ⟨v, rfl, by rw [ha, join_singleton]⟩
    | cons w rest =>
      rw [List.mapM_cons] at hbs
      obtain ⟨b, -, hbs⟩ := Option.bind_eq_some_iff.mp hbs
      obtain ⟨bs, -, hbs⟩ := Option.bind_eq_some_iff.mp hbs
      cases hbs
      refine absurd ?_ hcomma
      simp [join_cons_cons]

/-! ### Covered fields -/

/-- An id that prints as a bare name is that name without parameters. -/
theorem HttpMessageComponentId.eq_of_toText {id : HttpMessageComponentId} {n : Text} (hn : '"' ∉ n) (hat : startsWith n '@' = false)
    (h : id.toText = '"' :: n ++ ['"']) : id = ⟨.httpField n, ∅⟩ := by
  rw [id.toText_eq, List.cons_append] at h
  have h : id.name.inner ++ '"' :: (id.params.items.flatMap fun p => ';' :: p.toText) = n ++ '"' :: [] :=
    (List.cons.inj h).2
  have hinner : '"' ∉ id.name.inner := by
    intro hm
    obtain ⟨a, b, hab⟩ := List.append_of_mem hm
    have hcount := congrArg (List.count '"') h
    rw [hab, List.count_append, List.count_append, List.count_append, List.count_cons_self, List.count_cons_self,
      List.count_cons_self, List.count_nil, List.count_eq_zero_of_not_mem hn] at hcount
    omega
  obtain ⟨hname, hparams⟩ := append_cons_inj hinner hn h
  have hitems : id.params.items = [] := by
    cases hi : id.params.items with
    | nil => rfl
    | cons p ps =>
      rw [hi] at hparams
      cases hparams
  obtain ⟨name, params⟩ := id
  have hset : params = ∅ := IndexSet.ext hitems
  cases name with
  | httpField name =>
    have hname : name = n := hname
    rw [hset, hname]
  | derived d =>
    have hname : d.asStr = n := hname
    have := d.startsWith_asStr
    rw [hname, hat] at this
    cases this

/-- The value of a field id without parameters is all the lines of the field. -/
theorem fieldText_of_extractCovered {β γ : Type} {msg : RequestOrResponse β} {reqForParam : Option (Request γ)} {n : Text}
    {c : HttpMessageComponent} (h : extractCovered msg reqForParam ⟨.httpField n, ∅⟩ = .ok c) :
    fieldText msg.headers n = some c.value.toText := by
  have h : extractHttpField msg ⟨.httpField n, ∅⟩ = .ok c := h
  obtain ⟨name, vs, hname, hvs, hbuild⟩ := extractHttpField_eq_ok.mp h
  cases hname
  obtain ⟨ws, hws, rfl⟩ := buildHttpFieldComponent_eq_ok.mp hbuild
  cases hws
  rw [mapM_toStr] at hvs
  rw [fieldText, Outcome.okOr_eq_ok.mp hvs]
  rfl

/-! ### Two messages -/

/-- The digest field of the message is the one line that is set for its body. -/
def CarriesOwnDigest {β : Type} [Sha2] [Body β] (msg : RequestOrResponse β) (t : ContentDigestType) (bytes : Bytes) : Prop :=
  Body.intoBytes msg.body = some bytes ∧ ∃ value, msg.headers.getAll contentDigestHeader = [value] ∧
    value.toStr = some (digestText t (deriveDigest bytes t))

section
variable {β δ : Type} [Sha2] [Body β] [Body δ] {msg : RequestOrResponse β} {msg' : RequestOrResponse δ}
  {t : ContentDigestType} {bytes : Bytes}

omit [Body δ] in
theorem carriesOwnDigest_of_set {msg' : RequestOrResponse Bytes} (h : msg.setContentDigest t = .ok msg') :
    ∃ bytes, CarriesOwnDigest msg' t bytes := by
  rw [RequestOrResponse.setContentDigest_eq, Outcome.map_eq_ok] at h
  obtain ⟨⟨headers, bytes⟩, hset, rfl⟩ := h
  obtain ⟨⟨bytes', digest⟩, hinto, hset⟩ := Outcome.bind_eq_ok.mp hset
  obtain ⟨body, -, hinto⟩ := Option.bind_eq_some_iff.mp (Outcome.okOr_eq_ok.mp hinto)
  cases hinto
  obtain ⟨value, hvalue, -⟩ := t.exists_value (deriveDigest bytes' t)
  dsimp only at hset
  rw [hvalue] at hset
  cases hset
  have htext : value.toStr = some (digestText t (deriveDigest bytes t)) := by
    obtain ⟨v, hv, ht⟩ := HeaderValue.fromStr_of_text (s := digestText t (deriveDigest bytes t)) fun c hc => by
      rw [digestText, ContentDigestType.member_eq] at hc
      exact isTextChar_of_isPrintable (isPrintable_of_mem_serializeMember hc)
    cases hvalue.symm.trans hv
    exact ht
  refine ⟨bytes, ?_, value, ?_, htext⟩
  · cases msg <;> rfl
  · rw [RequestOrResponse.headers_withHeaders]
    exact HeaderMap.getAll_insert value _ (by decide)

omit [Body δ] in
theorem CarriesOwnDigest.fieldText (h : CarriesOwnDigest msg t bytes) :
    fieldText msg.headers contentDigestHeader = some (digestText t (deriveDigest bytes t)) := by
  obtain ⟨-, value, hline, hvalue⟩ := h
  rw [HttpSig.fieldText, hline, List.mapM_cons, hvalue]
  simp

/-- Messages whose digest fields read alike have bodies of the same digest, when one was set for its body and the
other verifies. -/
theorem digest_eq_of_fieldText (hown : CarriesOwnDigest msg t bytes)
    (hsame : fieldText msg'.headers contentDigestHeader = fieldText msg.headers contentDigestHeader)
    (hverify : msg'.verifyContentDigest.isOk = true) :
    ∃ bytes', Body.intoBytes msg'.body = some bytes' ∧ deriveDigest bytes' t = deriveDigest bytes t := by
  rw [hown.fieldText] at hsame
  obtain ⟨v, hv, htext⟩ := line_of_fieldText hsame (by simp [digestText])
    (comma_notMem_digestText t _)
  obtain ⟨bytes', hbody, s, hs, t', hdigest⟩ := RequestOrResponse.verifyContentDigest_isOk.mp hverify
  rw [hv, List.head?_cons, Option.bind_some, htext] at hs
  obtain rfl : digestText t (deriveDigest bytes t) = s := Option.some.inj hs
  obtain ⟨rfl, heq⟩ := hdigest.unique (isDigestField_digestText t _)
  exact ⟨bytes', hbody, heq⟩

end

/-! ### Runs -/

def contentDigestId : HttpMessageComponentId := ⟨.httpField contentDigestHeader, ∅⟩

theorem mem_components {β γ : Type} {m : Message β γ} {p : HttpSignatureParams} {base : HttpSignatureBase}
    (h : m.signatureBase p = .ok base) {id : HttpMessageComponentId} (hid : id ∈ p.coveredComponents) :
    ∃ c, extractCovered m.message m.reqForParam id = .ok c ∧ (id.toText, c.value.toText) ∈ base.statement.components := by
  obtain ⟨hall, -⟩ := buildSignatureBase_eq_ok.mp h
  obtain ⟨c, hc, hex⟩ := Outcome.exists_of_mem_right hall.flip hid
  refine ⟨c, hex, List.mem_map.mpr ⟨c, hc, ?_⟩⟩
  rw [extractCovered_id hex]

/-- Bases that say the same cover the same plain fields, with the same lines behind them. -/
theorem fieldText_of_statement {β β' γ γ' : Type} {m : Message β γ} {m' : Message β' γ'} {p p' : HttpSignatureParams}
    {base base' : HttpSignatureBase} {n : Text} (h : m.signatureBase p = .ok base) (h' : m'.signatureBase p' = .ok base')
    (hs : base.statement = base'.statement) (hn : '"' ∉ n) (hat : startsWith n '@' = false)
    (hid : ⟨.httpField n, ∅⟩ ∈ p.coveredComponents) :
    ⟨.httpField n, ∅⟩ ∈ p'.coveredComponents ∧ fieldText m.headers n = fieldText m'.headers n := by
  obtain ⟨c, hc, hmem⟩ := mem_components h hid
  rw [hs] at hmem
  obtain ⟨l, hl, heq⟩ := List.mem_map.mp hmem
  obtain ⟨hall, -⟩ := buildSignatureBase_eq_ok.mp h'
  obtain ⟨id', hid', hex⟩ := Outcome.exists_of_mem_right hall hl
  have hprint : l.id.toText = HttpMessageComponentId.toText ⟨.httpField n, ∅⟩ := congrArg Prod.fst heq
  have htext : l.id.toText = '"' :: n ++ ['"'] := by
    rw [hprint, HttpMessageComponentId.toText_eq]
    rfl
  have hvalue : l.value.toText = c.value.toText := congrArg Prod.snd heq
  obtain rfl : id' = ⟨.httpField n, ∅⟩ := (extractCovered_id hex).symm.trans (HttpMessageComponentId.eq_of_toText hn hat htext)
  have hm : fieldText m.headers n = some c.value.toText := fieldText_of_extractCovered hc
  have hm' : fieldText m'.headers n = some l.value.toText := fieldText_of_extractCovered hex
  exact ⟨hid', by rw [hm, hm', hvalue]⟩

section
variable {π β γ σ κ : Type} [SigningKey σ] [VerifyingKey κ] [Sha2] [Body β] {sk : π → σ} {vk : π → κ}
  {s s' : NetworkState π} {m : Message β γ} {asks : List (π × Option Text)}
  {results : List (Except HyperSigError SignatureName)} {a : π} {keyId : Option Text} {name : SignatureName}

/-- The messages that a principal signs with their digest covered are such that the digest is that of their body. -/
def DigestsBeforeSigning (a : π) (es : List (NetworkEvent π β γ)) : Prop :=
  ∀ m list, .sign a m list ∈ es → (∃ e ∈ list, contentDigestId ∈ e.1.coveredComponents) →
    ∃ t bytes, CarriesOwnDigest m.message t bytes

/-- A body that arrives under an accepted signature with a covered digest, and verifies, has the digest of the body
that the principal signed for. -/
theorem body_of_accepted {es₁ es₂ : List (NetworkEvent π β γ)} {map : SignatureMap}
    {entry : HttpSignatureBase × HttpSignatureHeaders}
    (hrun : (network sk vk).Run s (es₁ ++ .receive m asks results :: es₂) s') (hs : s.emitted = [])
    (hacc : ((a, keyId), Except.ok name) ∈ asks.zip results) (hdigests : DigestsBeforeSigning a es₁)
    (hm : m.extractSignatures = .ok map) (hentry : map.get? name = some entry)
    (hcovered : contentDigestId ∈ entry.2.signatureParams.coveredComponents)
    (hverify : m.message.verifyContentDigest.isOk = true) :
    ∃ m₀ list t bytes bytes', .sign a m₀ list ∈ es₁ ∧ CarriesOwnDigest m₀.message t bytes ∧
      Body.intoBytes m.message.body = some bytes' ∧ deriveDigest bytes' t = deriveDigest bytes t := by
  obtain ⟨m₀, list, e, base, hsign, he, hbuilt, hp, hstatement⟩ := bases_of_accepted hrun hs hacc hm hentry
  obtain ⟨hcovered₀, hsame⟩ := fieldText_of_statement hp hbuilt hstatement (by decide) (by decide) hcovered
  obtain ⟨t, bytes, hown⟩ := hdigests m₀ list hsign ⟨e, he, hcovered₀⟩
  obtain ⟨bytes', hbody, hdigest⟩ := digest_eq_of_fieldText hown hsame hverify
  exact ⟨m₀, list, t, bytes, bytes', hsign, hown, hbody, hdigest⟩

end

/-! ### A body on its way -/

attribute [local instance] RequestOrResponse.helloDigests
open scoped ByteKey

def digestedRequest : Message Bytes Unit :=
  .request (RequestOrResponse.withDigestLines ["sha-256=:X48E9qOokqqrvdts8nOJRJN3OWDUoyWxBf7kbu9DBPE=:".toList])

theorem digestedRequest_carries : CarriesOwnDigest digestedRequest.message .sha256 RequestOrResponse.helloWorld :=
  ⟨rfl, (HeaderValue.fromStr "sha-256=:X48E9qOokqqrvdts8nOJRJN3OWDUoyWxBf7kbu9DBPE=:".toList).get (by decide),
    by decide, by decide⟩

def digestParams : HttpSignatureParams := .ofComponents [contentDigestId]

def digestBase : HttpSignatureBase where
  componentLines := [⟨contentDigestId, .string "sha-256=:X48E9qOokqqrvdts8nOJRJN3OWDUoyWxBf7kbu9DBPE=:".toList⟩]
  signatureParams := digestParams
  length_eq := rfl
  ids_match := by decide

def signedDigest : Message Bytes Unit :=
  (digestedRequest.setMessageSignatures (entriesOf (soleKey ()) [(digestParams, none)])).1

theorem signedDigest_signatures : signedDigest.extractSignatures =
    .ok (.ofList [("sig".toList, (digestBase, ⟨"sig".toList, [2], digestParams⟩))]) := by
  decide

theorem emittedBases_digestedRequest :
    emittedBases digestedRequest (entriesOf (soleKey ()) [(digestParams, none)]) = [digestBase] := by
  decide

theorem signedDigest_body : ∃ m₀ list t bytes bytes',
    .sign () m₀ list ∈ [NetworkEvent.sign () digestedRequest [(digestParams, none)]] ∧
    CarriesOwnDigest m₀.message t bytes ∧ Body.intoBytes signedDigest.message.body = some bytes' ∧
    deriveDigest bytes' t = deriveDigest bytes t := by
  have hunforged : Unforged soleKey ⟨[((), digestBase)], 7⟩ signedDigest := by
    intro map hm e he a _
    rw [signedDigest_signatures] at hm
    cases hm
    obtain rfl := List.mem_singleton.mp he
    exact ⟨digestBase, List.mem_singleton.mpr rfl, rfl⟩
  have hsign : NetworkStep soleKey soleKey ⟨[], 7⟩ (.sign () digestedRequest [(digestParams, none)])
      ⟨(emittedBases digestedRequest (entriesOf (soleKey ()) [(digestParams, none)])).map (Prod.mk ()), 7⟩ :=
    .sign () digestedRequest [(digestParams, none)]
  rw [emittedBases_digestedRequest] at hsign
  have hreceive : NetworkStep soleKey soleKey ⟨[((), digestBase)], 7⟩
      (.receive signedDigest [((), none)] [.ok "sig".toList]) ⟨[((), digestBase)], 7⟩ :=
    .receive hunforged (by decide)
  have hdigests : DigestsBeforeSigning () [NetworkEvent.sign () digestedRequest [(digestParams, none)]] := by
    intro m list hmem _
    cases List.mem_singleton.mp hmem
    exact ⟨_, _, digestedRequest_carries⟩
  have hentry : (IndexMap.ofList [("sig".toList, (digestBase, (⟨"sig".toList, [2], digestParams⟩ : HttpSignatureHeaders)))]).get?
      "sig".toList = some (digestBase, ⟨"sig".toList, [2], digestParams⟩) := by decide
  exact body_of_accepted (.cons hsign (.single hreceive)) rfl (List.mem_singleton.mpr rfl) hdigests
    signedDigest_signatures hentry (List.mem_singleton.mpr rfl) (by decide)

end HttpSig
