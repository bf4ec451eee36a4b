import HttpSig.Theorems.Legality
import HttpSig.Theorems.RequestBinding

/-! What is accepted on a message was signed on a message that shows the same: each covered component has the value it
had there, and where one of them is not in both kinds of message, requests are not taken for responses. -/

namespace HttpSig
open Rust Sfv Http Systems

/-! ### Ids of one kind -/

/-- Only one kind of message can cover the id. -/
def OneKind (id : HttpMessageComponentId) : Prop :=
  HttpMessageComponentParams.hasReq id.params = true ∨ ∃ n, id.name = .derived n ∧ n ≠ .signatureParams

section
variable {β β' γ γ' : Type} {msg : RequestOrResponse β} {msg' : RequestOrResponse β'} {r : Option (Request γ)}
  {r' : Option (Request γ')} {id : HttpMessageComponentId}

theorem OneKind.not_both (hid : OneKind id) (h : Legal msg r id) (h' : Legal msg' r' id) (hk : msg.isRequest = true) :
    msg'.isRequest ≠ false := by
  intro hk'
  obtain ⟨hreq, hstatus⟩ := h.request hk
  rcases hid with hr | ⟨n, hn, hne⟩
  · rw [hreq] at hr
    cases hr
  · rcases h'.response_own hk' hreq n hn with rfl | rfl
    · exact hstatus hn
    · exact hne rfl

theorem OneKind.isRequest_eq (hid : OneKind id) (h : Legal msg r id) (h' : Legal msg' r' id) :
    msg.isRequest = msg'.isRequest := by
  cases hk : msg.isRequest with
  | true => exact ((Bool.not_eq_false _).mp (hid.not_both h h' hk)).symm
  | false =>
    cases hk' : msg'.isRequest with
    | true => exact absurd hk (hid.not_both h' h hk')
    | false => rfl

end

/-! ### Runs -/

section
variable {π β γ σ κ : Type} [SigningKey σ] [VerifyingKey κ] {sk : π → σ} {vk : π → κ} {s s' : NetworkState π}
  {m : Message β γ} {asks : List (π × Option Text)} {results : List (Except HyperSigError SignatureName)} {a : π}
  {keyId : Option Text} {name : SignatureName}

/-- The components are on both messages, with the same values. -/
def SameComponents (m m₀ : Message β γ) (ids : List HttpMessageComponentId) : Prop :=
  ∀ id ∈ ids, id.Quoteless → ∃ c c₀, extractCovered m.message m.reqForParam id = .ok c ∧
    extractCovered m₀.message m₀.reqForParam id = .ok c₀ ∧ c.value.toText = c₀.value.toText

/-- What is accepted on a message was signed on one with the same covered components, and on one of its kind when a
component of one kind is covered. -/
theorem components_of_accepted {es₁ es₂ : List (NetworkEvent π β γ)} {map : SignatureMap}
    {entry : HttpSignatureBase × HttpSignatureHeaders}
    (hrun : (network sk vk).Run s (es₁ ++ .receive m asks results :: es₂) s') (hs : s.emitted = [])
    (hacc : ((a, keyId), Except.ok name) ∈ asks.zip results) (hquote : CoversQuoteless a es₁)
    (hm : m.extractSignatures = .ok map) (hentry : map.get? name = some entry) :
    ∃ m₀ list, .sign a m₀ list ∈ es₁ ∧ SameComponents m m₀ entry.2.signatureParams.coveredComponents ∧
      ∀ id ∈ entry.2.signatureParams.coveredComponents, id.Quoteless → OneKind id →
        m.message.isRequest = m₀.message.isRequest := by
  obtain ⟨m₀, list, e, base, hsign, he, hbuilt, hp, hsame⟩ := bases_of_accepted hrun hs hacc hm hentry
  have hcomponents : SameComponents m m₀ entry.2.signatureParams.coveredComponents := fun id hid hidq =>
    component_of_statement hp hbuilt hsame (hquote m₀ list hsign e he) hid hidq
  refine ⟨m₀, list, hsign, hcomponents, fun id hid hidq hkind => ?_⟩
  obtain ⟨c, c₀, hc, hc₀, -⟩ := hcomponents id hid hidq
  exact hkind.isRequest_eq (legal_of_extractCovered hc) (legal_of_extractCovered hc₀)

end

open scoped ByteKey

theorem signedRequest_components : ∃ m₀ list, .sign () m₀ list ∈ [signedRequestEvent] ∧
    SameComponents signedRequest m₀ Message.methodParams.coveredComponents ∧
    signedRequest.message.isRequest = m₀.message.isRequest := by
  have hmethod : HttpMessageComponentId.Quoteless ⟨.derived .method, ∅⟩ :=
    ⟨trivial, by decide, fun _ h => absurd h List.not_mem_nil⟩
  have hquote : CoversQuoteless () [signedRequestEvent] := by
    intro m list hmem e he id hid
    cases List.mem_singleton.mp hmem
    cases List.mem_singleton.mp he
    cases List.mem_singleton.mp hid
    exact hmethod
  have hentry : (IndexMap.ofList [("sig".toList, (Message.methodBase, (⟨"sig".toList, [2], Message.methodParams⟩ :
      HttpSignatureHeaders)))]).get? "sig".toList = some (Message.methodBase, ⟨"sig".toList, [2], Message.methodParams⟩) := by
    decide
  obtain ⟨m₀, list, hsign, hsame, hkind⟩ := components_of_accepted signedRequest_run rfl (List.mem_singleton.mpr rfl) hquote
    signedRequest_signatures hentry
  exact ⟨m₀, list, hsign, hsame, hkind _ List.mem_cons_self hmethod (Or.inr ⟨.method, rfl, by decide⟩)⟩

end HttpSig
