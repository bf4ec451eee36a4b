import HttpSig.Theorems.Custody
import HttpSig.Theorems.RequestComponents

/-! A response that covers its request. Who accepts it for a request of their own has asked what the signer answered, as far
as the covered `req` components show it. -/

namespace HttpSig
open Rust Sfv Http Systems

/-! ### Bases that say the same -/

/-- A component that is read from the request behind a response. -/
theorem request_of_extractCovered {β γ : Type} {m : Message β γ} {id : HttpMessageComponentId} {c : HttpMessageComponent}
    (h : extractCovered m.message m.reqForParam id = .ok c) (hreq : HttpMessageComponentParams.hasReq id.params = true) :
    ∃ res r, m = .response res (some r) ∧ extractHttpMessageComponent (.request r) id = .ok c := by
  unfold extractCovered at h
  rw [if_pos hreq] at h
  cases m with
  | request req => cases h
  | response res reqForParam =>
    cases reqForParam with
    | none => cases h
    | some r => exact ⟨res, r, rfl, h⟩

section
variable {β β' γ γ' : Type} {m : Message β γ} {m' : Message β' γ'} {p p' : HttpSignatureParams} {base base' : HttpSignatureBase}
  {id : HttpMessageComponentId}

/-- What both bases cover has one value. -/
theorem component_of_statement (h : m.signatureBase p = .ok base) (h' : m'.signatureBase p' = .ok base')
    (hs : base.statement = base'.statement) (hquote : ∀ x ∈ p'.coveredComponents, x.Quoteless)
    (hid : id ∈ p.coveredComponents) (hidq : id.Quoteless) : ∃ c c', extractCovered m.message m.reqForParam id = .ok c ∧
      extractCovered m'.message m'.reqForParam id = .ok c' ∧ c.value.toText = c'.value.toText := by
  obtain ⟨c, hc, hmem⟩ := mem_components h hid
  rw [hs] at hmem
  obtain ⟨c', hl, heq⟩ := List.mem_map.mp hmem
  obtain ⟨hall, -⟩ := buildSignatureBase_eq_ok.mp h'
  obtain ⟨id', hid', hex⟩ := Outcome.exists_of_mem_right hall hl
  have hprint : id'.toText = id.toText := (extractCovered_id hex) ▸ congrArg Prod.fst heq
  obtain rfl : id' = id := (hquote id' hid').eq hidq hprint
  exact ⟨c, c', hc, hex, (congrArg Prod.snd heq).symm⟩

/-- What both bases cover of the requests is the same. -/
theorem request_of_statement (h : m.signatureBase p = .ok base) (h' : m'.signatureBase p' = .ok base')
    (hs : base.statement = base'.statement) (hquote : ∀ x ∈ p'.coveredComponents, x.Quoteless)
    (hid : id ∈ p.coveredComponents) (hidq : id.Quoteless) (hreq : HttpMessageComponentParams.hasReq id.params = true) :
    ∃ res r res' r' c c', m = .response res (some r) ∧ m' = .response res' (some r') ∧
      extractHttpMessageComponent (.request r) id = .ok c ∧ extractHttpMessageComponent (.request r') id = .ok c' ∧
      c.value.toText = c'.value.toText := by
  obtain ⟨c, c', hc, hex, hvalue⟩ := component_of_statement h h' hs hquote hid hidq
  obtain ⟨res, r, hm, hr⟩ := request_of_extractCovered hc hreq
  obtain ⟨res', r', hm', hr'⟩ := request_of_extractCovered hex hreq
  exact ⟨res, r, res', r', c, c', hm, hm', hr, hr', hvalue⟩

end

/-! ### Runs -/

section
variable {π β γ σ κ : Type} [SigningKey σ] [VerifyingKey κ] {sk : π → σ} {vk : π → κ} {s s' : NetworkState π}
  {asks : List (π × Option Text)} {results : List (Except HyperSigError SignatureName)} {a : π} {keyId : Option Text}
  {name : SignatureName} {res : Response β} {r : Request γ}

/-- The principal covers no id with a quote in it. -/
def CoversQuoteless (a : π) (es : List (NetworkEvent π β γ)) : Prop :=
  ∀ m list, .sign a m list ∈ es → ∀ e ∈ list, ∀ id ∈ e.1.coveredComponents, id.Quoteless

/-- The `req` components of the accepting side's request. -/
def SameRequestComponents (r r₀ : Request γ) (ids : List HttpMessageComponentId) : Prop :=
  ∀ id ∈ ids, id.Quoteless → HttpMessageComponentParams.hasReq id.params = true →
    ∃ c c₀, extractHttpMessageComponent (.request r) id = .ok c ∧ extractHttpMessageComponent (.request r₀) id = .ok c₀ ∧
      c.value.toText = c₀.value.toText

/-- A response that is accepted for a request, and covers something of it, was signed for a request that is the same in
all that is covered of it. -/
theorem request_of_accepted {es₁ es₂ : List (NetworkEvent π β γ)} {map : SignatureMap}
    {entry : HttpSignatureBase × HttpSignatureHeaders} {id : HttpMessageComponentId}
    (hrun : (network sk vk).Run s (es₁ ++ .receive (.response res (some r)) asks results :: es₂) s') (hs : s.emitted = [])
    (hacc : ((a, keyId), Except.ok name) ∈ asks.zip results) (hquote : CoversQuoteless a es₁)
    (hm : (Message.response res (some r)).extractSignatures = .ok map) (hentry : map.get? name = some entry)
    (hid : id ∈ entry.2.signatureParams.coveredComponents) (hidq : id.Quoteless)
    (hreq : HttpMessageComponentParams.hasReq id.params = true) :
    ∃ res₀ r₀ list, .sign a (.response res₀ (some r₀)) list ∈ es₁ ∧
      SameRequestComponents r r₀ entry.2.signatureParams.coveredComponents := by
  obtain ⟨m₀, list, e, base, hsign, he, hbuilt, hp, hsame⟩ := bases_of_accepted hrun hs hacc hm hentry
  have hcovered : ∀ x ∈ e.1.coveredComponents, x.Quoteless := hquote m₀ list hsign e he
  obtain ⟨_, _, res₀, r₀, _, _, _, rfl, -⟩ := request_of_statement hp hbuilt hsame hcovered hid hidq hreq
  refine ⟨res₀, r₀, list, hsign, fun x hx hxq hxreq => ?_⟩
  obtain ⟨_, r', _, r₀', c, c₀, hm', hm₀, hc, hc₀, hvalue⟩ := request_of_statement hp hbuilt hsame hcovered hx hxq hxreq
  cases hm'
  cases hm₀
  exact ⟨c, c₀, hc, hc₀, hvalue⟩

end

/-! ### An answer on its way -/

open scoped ByteKey

def methodOfRequest : HttpMessageComponentId := ⟨.derived .method, .ofList [.req]⟩

def answerParams : HttpSignatureParams := .ofComponents [methodOfRequest]

def answerBase : HttpSignatureBase where
  componentLines := [⟨methodOfRequest, .string "GET".toList⟩]
  signatureParams := answerParams
  length_eq := rfl
  ids_match := by decide

def plainAnswer : Message Unit Unit := .response Message.emptyResponse (some (getRequest []))

def answerResponse : Response Unit :=
  { Message.emptyResponse with headers := (plainAnswer.setMessageSignatures (entriesOf (soleKey ()) [(answerParams, none)])).1.headers }

def answerSignatures : SignatureMap := .ofList [("sig".toList, (answerBase, ⟨"sig".toList, [2], answerParams⟩))]

theorem answerResponse_signatures :
    (Message.response answerResponse (some (getRequest []))).extractSignatures = .ok answerSignatures := by
  decide

theorem emittedBases_plainAnswer :
    emittedBases plainAnswer (entriesOf (soleKey ()) [(answerParams, none)]) = [answerBase] := by
  decide

theorem methodOfRequest_quoteless : methodOfRequest.Quoteless where
  wellFormed := trivial
  noQuote := by
    refine ⟨by decide, fun p hp v hv => ?_⟩
    cases List.mem_singleton.mp hp
    cases hv

theorem answerResponse_request : ∃ res₀ r₀ list,
    .sign () (.response res₀ (some r₀)) list ∈ [NetworkEvent.sign () plainAnswer [(answerParams, none)]] ∧
    SameRequestComponents (getRequest []) r₀ [methodOfRequest] := by
  have hunforged : Unforged soleKey ⟨[((), answerBase)], 7⟩ (.response answerResponse (some (getRequest []))) := by
    intro map hm e he a _
    rw [answerResponse_signatures] at hm
    cases hm
    obtain rfl := List.mem_singleton.mp he
    exact ⟨answerBase, List.mem_singleton_self _, rfl⟩
  have hsign : NetworkStep soleKey soleKey ⟨[], 7⟩ (.sign () plainAnswer [(answerParams, none)])
      ⟨(emittedBases plainAnswer (entriesOf (soleKey ()) [(answerParams, none)])).map (Prod.mk ()), 7⟩ :=
    .sign () plainAnswer [(answerParams, none)]
  rw [emittedBases_plainAnswer] at hsign
  have hreceive : NetworkStep soleKey soleKey ⟨[((), answerBase)], 7⟩
      (.receive (.response answerResponse (some (getRequest []))) [((), none)] [.ok "sig".toList]) ⟨[((), answerBase)], 7⟩ :=
    .receive hunforged (by decide)
  have hquote : CoversQuoteless () [NetworkEvent.sign () plainAnswer [(answerParams, none)]] := by
    intro m list hmem e he id hid
    cases List.mem_singleton.mp hmem
    cases List.mem_singleton.mp he
    cases List.mem_singleton.mp hid
    exact methodOfRequest_quoteless
  have hentry : answerSignatures.get? "sig".toList = some (answerBase, ⟨"sig".toList, [2], answerParams⟩) := by decide
  exact request_of_accepted (.cons hsign (.single hreceive)) rfl (List.mem_singleton_self _) hquote answerResponse_signatures
    hentry (List.mem_singleton_self _) methodOfRequest_quoteless (by decide)

end HttpSig
