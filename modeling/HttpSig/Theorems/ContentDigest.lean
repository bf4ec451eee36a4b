import HttpSig.ContentDigest
import HttpSig.Theorems.Signing

/-! Setting a content digest changes nothing but its own field, and what was set verifies with exactly the bodies of
the same digest. -/

namespace Http
open Rust HttpSig

theorem HeaderName.text_inj {n n' : HeaderName} (h : n.text = n'.text) : n = n' := by
  cases n
  cases n'
  cases h
  rfl

namespace HeaderMap

/-! ### Inserting a line -/

/-- Inserting leaves the lines of every other field in their order. -/
theorem filter_insertLine_ne (name : HeaderName) (value : HeaderValue) (l : List (HeaderName × HeaderValue)) :
    (insertLine name value l).filter (fun e => e.1 ≠ name) = l.filter fun e => e.1 ≠ name := by
  induction l with
  | nil => simp [insertLine]
  | cons e l ih =>
    rw [insertLine]
    split
    · rename_i he
      simp [he, List.filter_filter]
    · rename_i he
      rw [List.filter_cons_of_pos (by simpa using he), List.filter_cons_of_pos (by simpa using he), ih]

/-- Inserting leaves one line of the field itself. -/
theorem filter_insertLine_eq (name : HeaderName) (value : HeaderValue) (l : List (HeaderName × HeaderValue)) :
    (insertLine name value l).filter (fun e => e.1 = name) = [(name, value)] := by
  induction l with
  | nil => simp [insertLine]
  | cons e l ih =>
    rw [insertLine]
    split
    · simp [List.filter_filter]
    · rename_i he
      rw [List.filter_cons_of_neg (by simpa using he), ih]

theorem getAll_insert {name : HeaderName} (value : HeaderValue) (m : HeaderMap) {s : Text}
    (h : name.text = toAsciiLowercase s) : (m.insert name value).getAll s = [value] := by
  have hsame : (fun e : HeaderName × HeaderValue => decide (e.1.text = toAsciiLowercase s)) = fun e => decide (e.1 = name) := by
    funext e
    rw [← h, decide_eq_decide]
    exact ⟨HeaderName.text_inj, congrArg HeaderName.text⟩
  rw [getAll, insert, hsame, filter_insertLine_eq]
  rfl

end HeaderMap
end Http

namespace HttpSig
open Rust Sfv Http

/-! ### Digests as field values -/

theorem isEqualDigest_iff {a b : Bytes} : isEqualDigest a b = true ↔ a = b := by
  have hct : ∀ {a b : Bytes}, a.length = b.length → ((a.zip b).all (fun e => e.1 == e.2) = true ↔ a = b) := by
    intro a
    induction a with
    | nil =>
      intro b hlen
      simp [List.length_eq_zero_iff.mp hlen.symm]
    | cons x a ih =>
      intro b hlen
      cases b with
      | nil => cases hlen
      | cons y b =>
        rw [List.zip_cons_cons, List.all_cons, Bool.and_eq_true, beq_iff_eq, ih (Nat.succ.inj hlen), List.cons.injEq]
  unfold isEqualDigest ctEq
  by_cases hlen : a.length = b.length
  · rw [if_neg (not_not_intro hlen), hlen, BEq.rfl, Bool.true_and, hct hlen]
  · rw [if_pos hlen]
    simp only [Bool.false_eq_true, false_iff]
    exact fun h => hlen (congrArg List.length h)

namespace ContentDigestType

theorem fromStr_toText (t : ContentDigestType) : fromStr t.toText = .ok t := by
  cases t <;> decide

/-- The key of a digest in the field. -/
def key (t : ContentDigestType) : Key := ⟨t.toText, by cases t <;> decide⟩

/-- What is formatted for a digest is a member of a dictionary. -/
theorem member_eq (t : ContentDigestType) (digest : Bytes) : t.toText ++ '=' :: ':' :: Base64.encode digest ++ [':'] =
    serializeMember t.key (.item ⟨.byteSequence digest, ∅⟩) := by
  rw [serializeMember_item, if_neg (by simp), serializeItem]
  simp [serializeBareItem, serializeParameters, key]

/-- The text of a digest is a header value, and one that carries the digest. -/
theorem exists_value (t : ContentDigestType) (digest : Bytes) :
    ∃ value, HeaderValue.fromStr (t.toText ++ '=' :: ':' :: Base64.encode digest ++ [':']) = some value ∧
      Carries value t.key (.item ⟨.byteSequence digest, ∅⟩) := by
  rw [member_eq]
  have hprint : ∀ c ∈ serializeMember t.key (.item ⟨.byteSequence digest, ∅⟩), isPrintable c = true :=
    fun c hc => isPrintable_of_mem_serializeMember hc
  obtain ⟨value, hvalue, -⟩ := HeaderValue.fromStr_of_text fun c hc => isTextChar_of_isPrintable (hprint c hc)
  exact ⟨value, hvalue, carries_of_fromStr hvalue hprint (parseDictionaryField_member _ _)⟩

end ContentDigestType

theorem extractContentDigest_of_carries {headers : HeaderMap} {value : HeaderValue} {t : ContentDigestType} {digest : Bytes}
    (h : headers.getAll contentDigestHeader = [value]) (hc : Carries value t.key (.item ⟨.byteSequence digest, ∅⟩)) :
    extractContentDigest headers = .ok (t, digest) := by
  obtain ⟨text, htext, hparse⟩ := hc
  have hget : headers.get contentDigestHeader = some value := by rw [HeaderMap.get, h, List.head?_cons]
  have hentries : (IndexMap.ofList [(t.key, ListEntry.item ⟨.byteSequence digest, ∅⟩)]).entries =
      [(t.key, .item ⟨.byteSequence digest, ∅⟩)] := IndexMap.entries_ofList (by simp)
  have hkey : t.key.text = t.toText := rfl
  rw [extractContentDigest, hget, Outcome.okOr_some, Outcome.ok_bind, htext, Outcome.okOr_some, Outcome.ok_bind, hparse,
    Outcome.okOr_some, Outcome.ok_bind]
  simp only [hentries, hkey, ContentDigestType.fromStr_toText, Outcome.mapErr_ok, Outcome.ok_bind]

section
variable {β : Type} [Sha2] [Body β] {headers : HeaderMap} {body : β} {bytes : Bytes}

theorem setContentDigestOf_eq_ok (headers : HeaderMap) (hbody : Body.intoBytes body = some bytes) (t : ContentDigestType) :
    ∃ value, Carries value t.key (.item ⟨.byteSequence (deriveDigest bytes t), ∅⟩) ∧
      setContentDigestOf headers body t = .ok (headers.insert contentDigestHeaderName value, bytes) := by
  obtain ⟨value, hvalue, hc⟩ := t.exists_value (deriveDigest bytes t)
  have hinto : intoBytesWithDigest body t = some (bytes, Base64.encode (deriveDigest bytes t)) := by
    rw [intoBytesWithDigest, hbody]
    rfl
  refine ⟨value, hc, ?_⟩
  rw [setContentDigestOf, hinto, Outcome.okOr_some, Outcome.ok_bind]
  simp only [hvalue]

theorem verifyContentDigestOf_of_extract {t : ContentDigestType} {digest : Bytes}
    (h : extractContentDigest headers = .ok (t, digest)) (hbody : Body.intoBytes body = some bytes) :
    verifyContentDigestOf headers body = if deriveDigest bytes t = digest then .ok bytes
      else .err (.invalidContentDigest "Content-Digest verification failed".toList) := by
  rw [verifyContentDigestOf, h, Outcome.ok_bind]
  dsimp only
  rw [hbody, Outcome.okOr_some, Outcome.ok_bind]
  exact if_congr isEqualDigest_iff rfl rfl

end

/-! ### Messages of either kind -/

namespace RequestOrResponse
variable {β δ : Type}

def body : RequestOrResponse β → β
  | request req => req.body
  | response res => res.body

def withBody : RequestOrResponse β → δ → RequestOrResponse δ
  | request req, body => request ⟨req.method, req.uri, req.headers, body⟩
  | response res, body => response ⟨res.status, res.headers, body⟩

def setContentDigest [Sha2] [Body β] : RequestOrResponse β → ContentDigestType → HyperDigestResult (RequestOrResponse Bytes)
  | request req, cdType => request <$> req.setContentDigest cdType
  | response res, cdType => response <$> res.setContentDigest cdType

def verifyContentDigest [Sha2] [Body β] : RequestOrResponse β → HyperDigestResult (RequestOrResponse Bytes)
  | request req => request <$> req.verifyContentDigest
  | response res => response <$> res.verifyContentDigest

def withHeaders : RequestOrResponse β → HeaderMap → RequestOrResponse β
  | request req, headers => request { req with headers }
  | response res, headers => response { res with headers }

@[simp] theorem headers_withBody (msg : RequestOrResponse β) (body : δ) : (msg.withBody body).headers = msg.headers := by
  cases msg <;> rfl

@[simp] theorem headers_withHeaders (msg : RequestOrResponse β) (headers : HeaderMap) :
    (msg.withHeaders headers).headers = headers := by
  cases msg <;> rfl

@[simp] theorem body_withHeaders (msg : RequestOrResponse β) (headers : HeaderMap) :
    (msg.withHeaders headers).body = msg.body := by
  cases msg <;> rfl

@[simp] theorem body_withBody (msg : RequestOrResponse β) (body : δ) : (msg.withBody body).body = body := by
  cases msg <;> rfl

/-- The same method and URI, or the same status. -/
def SameStart : RequestOrResponse β → RequestOrResponse δ → Prop
  | request req, request req' => req'.method = req.method ∧ req'.uri = req.uri
  | response res, response res' => res'.status = res.status
  | _, _ => False

section
variable [Sha2] [Body β] {msg : RequestOrResponse β} {bytes : Bytes}

theorem setContentDigest_eq (msg : RequestOrResponse β) (t : ContentDigestType) : msg.setContentDigest t =
    (fun r => (msg.withBody r.2).withHeaders r.1) <$> setContentDigestOf msg.headers msg.body t := by
  cases msg with
  | request req =>
    rw [setContentDigest, Http.Request.setContentDigest, headers, body]
    cases setContentDigestOf req.headers req.body t <;> rfl
  | response res =>
    rw [setContentDigest, Http.Response.setContentDigest, headers, body]
    cases setContentDigestOf res.headers res.body t <;> rfl

theorem verifyContentDigest_eq (msg : RequestOrResponse β) : msg.verifyContentDigest =
    (fun bytes => msg.withBody bytes) <$> verifyContentDigestOf msg.headers msg.body := by
  cases msg with
  | request req =>
    rw [verifyContentDigest, Http.Request.verifyContentDigest, headers, body]
    cases verifyContentDigestOf req.headers req.body <;> rfl
  | response res =>
    rw [verifyContentDigest, Http.Response.verifyContentDigest, headers, body]
    cases verifyContentDigestOf res.headers res.body <;> rfl

/-! ### The round trip -/

/-- A digest can be set on every message whose body can be read. Nothing changes but its field, which has one line
then; the result verifies as it is, and with another body exactly if that has the same digest. -/
theorem setContentDigest_verifies (hbody : Body.intoBytes msg.body = some bytes) (t : ContentDigestType) :
    ∃ msg' : RequestOrResponse Bytes, msg.setContentDigest t = .ok msg' ∧ msg'.body = bytes ∧ msg.SameStart msg' ∧
      (∃ value, msg'.headers.getAll contentDigestHeader = [value]) ∧
      msg'.headers.entries.filter (fun e => e.1 ≠ contentDigestHeaderName) =
        msg.headers.entries.filter (fun e => e.1 ≠ contentDigestHeaderName) ∧
      msg'.verifyContentDigest = .ok msg' ∧
      ∀ {δ : Type} [Body δ] (body' : δ) (bytes' : Bytes), Body.intoBytes body' = some bytes' →
        ((msg'.withBody body').verifyContentDigest.isOk = true ↔ deriveDigest bytes' t = deriveDigest bytes t) := by
  obtain ⟨value, hc, hset⟩ := setContentDigestOf_eq_ok msg.headers hbody t
  have hlines : (msg.headers.insert contentDigestHeaderName value).getAll contentDigestHeader = [value] :=
    HeaderMap.getAll_insert value msg.headers (by decide)
  have hverify : ∀ {δ : Type} [Body δ] (msg' : RequestOrResponse δ) (bytes' : Bytes),
      msg'.headers = msg.headers.insert contentDigestHeaderName value → Body.intoBytes msg'.body = some bytes' →
      msg'.verifyContentDigest = if deriveDigest bytes' t = deriveDigest bytes t then .ok (msg'.withBody bytes')
        else .err (.invalidContentDigest "Content-Digest verification failed".toList) := by
    intro δ _ msg' bytes' hheaders hbytes
    rw [verifyContentDigest_eq, verifyContentDigestOf_of_extract
      (extractContentDigest_of_carries (by rw [hheaders, hlines]) hc) hbytes]
    split <;> rfl
  refine ⟨(msg.withBody bytes).withHeaders (msg.headers.insert contentDigestHeaderName value), ?_, by simp, ?_,
    ⟨value, by rw [headers_withHeaders, hlines]⟩, ?_, ?_, ?_⟩
  · rw [setContentDigest_eq, hset]
    rfl
  · cases msg
    · exact ⟨rfl, rfl⟩
    · rfl
  · rw [headers_withHeaders]
    exact HeaderMap.filter_insertLine_ne ..
  · rw [hverify _ bytes (by simp) (by simp; rfl), if_pos rfl]
    cases msg <;> rfl
  · intro δ _ body' bytes' hbytes'
    rw [hverify _ bytes' (by simp) (by simpa using hbytes')]
    split
    · rename_i h
      simp [h, Outcome.isOk]
    · rename_i h
      simp [h, Outcome.isOk]

end

/-! ### A message that already has digests -/

def helloWorld : Bytes := utf8Bytes "\x7b\"hello\": \"world\"\x7d".toList

/-- The digests of one body; no other body has them. -/
local instance helloDigests : Sha2 where
  sha256 bytes := if bytes = helloWorld then (Base64.decode "X48E9qOokqqrvdts8nOJRJN3OWDUoyWxBf7kbu9DBPE=".toList).getD [] else []
  sha512 bytes := if bytes = helloWorld then (Base64.decode
    "WZDPaVn/7XgHaAy8pmojAkGWoRx2UFChF41A2svX+TaPm+AbwAgBWnrIiYllu7BNNyealdVLvRwEmTHWXvJwew==".toList).getD [] else []

def helloRequest : Request Bytes :=
  let req := getRequest [(contentDigestHeader, "sha-256=:AA==:".toList), ("x".toList, "a".toList), (contentDigestHeader, "b".toList)]
  ⟨req.method, req.uri, req.headers, helloWorld⟩

theorem helloRequest_verifies : ∃ msg', (request helloRequest).setContentDigest .sha256 = .ok msg' ∧
    (∃ value, msg'.headers.getAll contentDigestHeader = [value]) ∧ msg'.verifyContentDigest = .ok msg' ∧
    (msg'.withBody (utf8Bytes "x".toList)).verifyContentDigest.isOk = false := by
  obtain ⟨msg', hset, -, -, hline, -, hverify, hother⟩ :=
    @setContentDigest_verifies Bytes _ _ (request helloRequest) helloWorld rfl .sha256
  refine ⟨msg', hset, hline, hverify, ?_⟩
  rw [← Bool.not_eq_true, hother _ _ rfl]
  decide

end RequestOrResponse
end HttpSig
