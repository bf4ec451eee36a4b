import HttpSig.Theorems.Atomicity
import HttpSig.Theorems.Presence

/-! Which ids a message of a kind may cover. The guards are spread over the extraction of fields and of derived
components; together they leave the legal ids, and a list with another one is not signed. -/

namespace HttpSig
open Rust Sfv Http

section
variable {β γ : Type} {msg : RequestOrResponse β} {reqForParam : Option (Request γ)} {id : HttpMessageComponentId}
  {c : HttpMessageComponent}

/-- What an id has to be for a message to cover it. -/
structure Legal (msg : RequestOrResponse β) (reqForParam : Option (Request γ)) (id : HttpMessageComponentId) : Prop where
  request : msg.isRequest = true → HttpMessageComponentParams.hasReq id.params = false ∧ id.name ≠ .derived .status
  response_req : msg.isRequest = false → HttpMessageComponentParams.hasReq id.params = true →
    reqForParam ≠ none ∧ id.name ≠ .derived .status
  response_own : msg.isRequest = false → HttpMessageComponentParams.hasReq id.params = false →
    ∀ n, id.name = .derived n → n = .status ∨ n = .signatureParams
  field : ∀ name, id.name = .httpField name → ∀ q ∈ id.params.items, q.isUnsupported = false
  query_param : id.name = .derived .queryParam → ∃ name, .name name ∈ id.params.items

/-! ### What the source of an id takes -/

/-- A field with an unsupported parameter is rejected, whatever its lines are. -/
theorem rejectsField_of_unsupported {name : Text} {params : HttpMessageComponentParams}
    {q : HttpMessageComponentParam} (hq : q ∈ params.items) (hu : q.isUnsupported = true) : RejectsField msg name params := by
  by_cases htext : ∃ v ∈ msg.headers.getAll name, v.toStr = none
  · exact Or.inl htext
  · obtain ⟨vs, hvs⟩ := exists_mapM_toStr fun v hv hnone => htext ⟨v, hv, hnone⟩
    exact Or.inr ⟨vs, hvs, Or.inl ⟨q, hq, hu⟩⟩

theorem supported_of_not_rejectsIn (h : ¬RejectsIn msg id) {name : Text} (hn : id.name = .httpField name) :
    ∀ q ∈ id.params.items, q.isUnsupported = false := by
  intro q hq
  rw [← Bool.not_eq_true]
  intro hu
  refine h ?_
  rw [RejectsIn, hn]
  exact rejectsField_of_unsupported hq hu

theorem kind_of_not_rejectsIn (h : ¬RejectsIn msg id) {n : DerivedComponentName} (hn : id.name = .derived n) :
    wrongKind msg n = false := by
  rw [RejectsIn, hn, not_or, not_or, Bool.not_eq_true, Bool.not_eq_true] at h
  exact h.2.1

theorem name_of_not_rejectsIn (h : ¬RejectsIn msg id) (hn : id.name = .derived .queryParam) :
    ∃ name, .name name ∈ id.params.items := by
  rw [RejectsIn, hn, not_or, not_or] at h
  simpa using (not_or.mp h.2.2).2

/-! ### Covered ids are legal -/

/-- An id that is covered is read from the message itself, or with `req` from the request behind a response. -/
theorem source_of_extractCovered (h : extractCovered msg reqForParam id = .ok c) :
    (HttpMessageComponentParams.hasReq id.params = false ∧ ¬RejectsIn msg id) ∨
    (HttpMessageComponentParams.hasReq id.params = true ∧ msg.isRequest = false ∧
      ∃ req, reqForParam = some req ∧ ¬RejectsIn (.request req) id) := by
  unfold extractCovered at h
  split at h
  · rename_i hr
    split at h
    · cases h
    · rename_i hk
      cases reqForParam with
      | none => cases h
      | some req =>
        exact Or.inr ⟨hr, by simpa using hk, req, rfl, (extractHttpMessageComponent_isOk fun _ => rfl).mp ⟨c, h⟩⟩
  · rename_i hr
    exact Or.inl ⟨by simpa using hr, (extractHttpMessageComponent_isOk fun h => absurd h hr).mp ⟨c, h⟩⟩

theorem legal_of_extractCovered (h : extractCovered msg reqForParam id = .ok c) : Legal msg reqForParam id := by
  rcases source_of_extractCovered h with ⟨hr, hok⟩ | ⟨hr, hk, req, rfl, hok⟩
  · refine ⟨fun hk => ⟨hr, fun hn => ?_⟩, fun _ hr' => ?_, fun hk _ n hn => ?_, fun name => supported_of_not_rejectsIn hok,
      name_of_not_rejectsIn hok⟩
    · have hkind := kind_of_not_rejectsIn hok hn
      simp [wrongKind, hk] at hkind
    · rw [hr] at hr'
      cases hr'
    · have hkind := kind_of_not_rejectsIn hok hn
      rw [wrongKind, hk] at hkind
      by_contra hno
      rw [not_or] at hno
      simp [hno] at hkind
  · refine ⟨fun hk' => ?_, fun _ _ => ⟨by simp, fun hn => ?_⟩, fun _ hr' => ?_, fun name => supported_of_not_rejectsIn hok,
      name_of_not_rejectsIn hok⟩
    · rw [hk] at hk'
      cases hk'
    · have hkind := kind_of_not_rejectsIn hok hn
      simp [wrongKind, RequestOrResponse.isRequest] at hkind
    · rw [hr] at hr'
      cases hr'

/-- A base covers legal ids only. -/
theorem legal_of_buildSignatureBase {p : HttpSignatureParams} {base : HttpSignatureBase}
    (h : buildSignatureBase msg p reqForParam = .ok base) : ∀ id ∈ p.coveredComponents, Legal msg reqForParam id := by
  intro id hid
  obtain ⟨line, -, hline⟩ := Outcome.exists_of_mem_right (buildSignatureBase_eq_ok.mp h).1.flip hid
  exact legal_of_extractCovered hline

end

/-! ### Other ids are not signed -/

namespace Message
variable {β γ κ : Type} [SigningKey κ] {m : Message β γ} {p : HttpSignatureParams}

/-- Without a base there is an error, and the message is left as it was. -/
theorem setMessageSignature_of_no_base (h : ∀ base, m.signatureBase p ≠ .ok base) (key : κ) (name : Option Text) :
    ∃ e, m.setMessageSignature p key name = (m, .err e) := by
  cases hb : m.signatureBase p with
  | ok base => exact absurd hb (h base)
  | panic => exact absurd hb buildSignatureBase_ne_panic
  | err e =>
    have hsigned : signedHeaders m.message [(p, key, name)] m.reqForParam = .err e := by
      rw [signedHeaders, List.mapM_cons]
      show ((m.signatureBase p >>= _) >>= _) >>= _ = _
      rw [hb]
      rfl
    refine ⟨e, ?_⟩
    rw [setMessageSignature_eq, setMessageSignatures_eq]
    unfold setMessageSignaturesOf
    rw [hsigned]
    exact Prod.ext (withHeaders_self m) rfl

/-- A base is built over legal ids only, and a message whose parameters cover another id is not signed. -/
theorem covered_legal (p : HttpSignatureParams) :
    (∀ (msg : RequestOrResponse β) (reqForParam : Option (Request γ)) (base : HttpSignatureBase),
      buildSignatureBase msg p reqForParam = .ok base → ∀ id ∈ p.coveredComponents, Legal msg reqForParam id) ∧
    ∀ m : Message β γ, (∃ id ∈ p.coveredComponents, ¬ Legal m.message m.reqForParam id) →
      ∀ (key : κ) (name : Option Text), ∃ e, m.setMessageSignature p key name = (m, .err e) := by
  refine ⟨fun _ _ _ h => legal_of_buildSignatureBase h, ?_⟩
  rintro m ⟨id, hid, hillegal⟩
  exact setMessageSignature_of_no_base fun base hb => hillegal (legal_of_buildSignatureBase hb id hid)

/-- A response to a request with a query, and with a field that is a dictionary. -/
def answeredQuery : Message Unit Unit :=
  .response ⟨⟨404, by decide⟩, ⟨[("x".toList, "a=1, b".toList)].filterMap headerLine⟩, ()⟩
    (some { getRequest [] with uri := { sampleUri with rawQuery := some ⟨"n=1".toList, by decide⟩ } })

/-- Ids of the response and of its request: a status, a field under `sf` and `key`, a method and a query parameter. -/
def answeredIds : List HttpMessageComponentId := [
  ⟨.derived .status, ∅⟩,
  ⟨.httpField "x".toList, .ofList [.sf, .key "b".toList]⟩,
  ⟨.derived .method, .ofList [.req]⟩,
  ⟨.derived .queryParam, .ofList [.name "n".toList, .req]⟩]

open scoped ByteKey

/-- All of these ids are legal, and the response is not signed when they are joined by a path of its own. -/
theorem answeredIds_legal : (∀ id ∈ answeredIds, Legal answeredQuery.message answeredQuery.reqForParam id) ∧
    ∃ e, answeredQuery.setMessageSignature (.ofComponents (answeredIds ++ [⟨.derived .path, ∅⟩])) (ByteKey.mk 2) none =
      (answeredQuery, .err e) := by
  have hpath : ¬Legal answeredQuery.message answeredQuery.reqForParam ⟨.derived .path, ∅⟩ := by
    intro h
    rcases h.response_own rfl rfl .path rfl with h | h <;> cases h
  have hbuilt : (answeredQuery.signatureBase (.ofComponents answeredIds)).isOk = true := by decide
  obtain ⟨base, hbase⟩ := Outcome.isOk_iff.mp hbuilt
  exact ⟨(@covered_legal Unit Unit ByteKey _ _).1 _ _ base hbase,
    (covered_legal _).2 answeredQuery ⟨_, List.mem_append_right _ List.mem_cons_self, hpath⟩ _ _⟩

end Message
end HttpSig
