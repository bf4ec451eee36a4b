import HttpSig.Systems.Runs
import HttpSig.Theorems.DigestLines
import HttpSig.Theorems.Relay
import HttpSig.Theorems.Sources

/-! Messages on their way through intermediaries that do with field lines what HTTP lets them: lines of one field become
one line or are split again, fields change places, and lines of other fields come and go. Verification ends alike before
and after, as long as the covered fields are read without `sf` and `key`. -/

namespace HttpSig
open Rust Sfv Http Systems

/-! ### Lines of a field -/

/-- Two field lines in one. -/
def joinValues (v w : HeaderValue) : HeaderValue where
  bytes := v.bytes ++ (0x2c :: 0x20 :: w.bytes)
  valid := by
    rw [List.all_append, v.valid, Bool.true_and, List.all_cons, List.all_cons, w.valid]
    decide

theorem toStr_joinValues (v w : HeaderValue) :
    (joinValues v w).toStr = v.toStr.bind fun s => w.toStr.map (joinLines s) := by
  have hall : (joinValues v w).bytes.all isVisibleAscii = (v.bytes.all isVisibleAscii && w.bytes.all isVisibleAscii) := by
    have hsep : ∀ b, (isVisibleAscii 0x2c && (isVisibleAscii 0x20 && b)) = b := by decide
    rw [joinValues, List.all_append, List.all_cons, List.all_cons, hsep]
  rw [HeaderValue.toStr, hall, HeaderValue.toStr, HeaderValue.toStr]
  cases v.bytes.all isVisibleAscii
  · rfl
  · cases w.bytes.all isVisibleAscii
    · rfl
    · rw [Bool.and_self, if_pos rfl, if_pos rfl, if_pos rfl, joinValues, List.map_append]
      rfl

theorem linesText_joinValues (ls rest : List HeaderValue) (v w : HeaderValue) :
    linesText (ls ++ joinValues v w :: rest) = linesText (ls ++ v :: w :: rest) := by
  rw [linesText, linesText, List.mapM_append, List.mapM_append, List.mapM_cons, List.mapM_cons, List.mapM_cons,
    toStr_joinValues]
  cases ls.mapM HeaderValue.toStr with
  | none => rfl
  | some ss =>
    cases v.toStr with
    | none => rfl
    | some s =>
      cases w.toStr with
      | none => rfl
      | some t =>
        cases rest.mapM HeaderValue.toStr with
        | none => rfl
        | some ts => exact congrArg some (join_joinLines ss ts s t)

/-! ### Fields that show the same -/

/-- The field is on both sides or on neither, with one text. -/
structure SameText (headers headers' : HeaderMap) (name : Text) : Prop where
  present : headers.containsKey name = headers'.containsKey name
  text : fieldText headers name = fieldText headers' name

theorem SameText.symm {headers headers' : HeaderMap} {name : Text} (h : SameText headers headers' name) :
    SameText headers' headers name := ⟨h.present.symm, h.text.symm⟩

theorem sameText_of_getAll {headers headers' : HeaderMap} {name : Text}
    (h : headers.getAll name = headers'.getAll name) : SameText headers headers' name := by
  refine ⟨by rw [containsKey_eq, containsKey_eq, h], by rw [fieldText, fieldText, h]⟩

theorem getAll_append_entries (l l' : List (HeaderName × HeaderValue)) (name : Text) :
    HeaderMap.getAll ⟨l ++ l'⟩ name = HeaderMap.getAll ⟨l⟩ name ++ HeaderMap.getAll ⟨l'⟩ name := by
  rw [HeaderMap.getAll, List.filter_append, List.map_append]
  rfl

theorem getAll_cons_entries (e : HeaderName × HeaderValue) (l : List (HeaderName × HeaderValue)) (name : Text) :
    HeaderMap.getAll ⟨e :: l⟩ name =
      if e.1.text = toAsciiLowercase name then e.2 :: HeaderMap.getAll ⟨l⟩ name else HeaderMap.getAll ⟨l⟩ name := by
  rw [HeaderMap.getAll, List.filter_cons]
  by_cases he : e.1.text = toAsciiLowercase name
  · rw [if_pos (decide_eq_true he), if_pos he]
    rfl
  · rw [if_neg (by simpa using he), if_neg he]
    rfl

/-- What an intermediary does to header lines. The fields that are kept lose and gain no line of their own. -/
inductive Recombine (kept : Text → Prop) : HeaderMap → HeaderMap → Prop where
  | join {pre mid post : List (HeaderName × HeaderValue)} {n : HeaderName} {v w : HeaderValue} (hmid : ∀ e ∈ mid, e.1 ≠ n) :
      Recombine kept ⟨pre ++ (n, v) :: (mid ++ (n, w) :: post)⟩ ⟨pre ++ (n, joinValues v w) :: (mid ++ post)⟩
  | split {pre mid post : List (HeaderName × HeaderValue)} {n : HeaderName} {v w : HeaderValue} (hmid : ∀ e ∈ mid, e.1 ≠ n) :
      Recombine kept ⟨pre ++ (n, joinValues v w) :: (mid ++ post)⟩ ⟨pre ++ (n, v) :: (mid ++ (n, w) :: post)⟩
  | swap {pre post : List (HeaderName × HeaderValue)} {e e' : HeaderName × HeaderValue} (hne : e.1 ≠ e'.1) :
      Recombine kept ⟨pre ++ e :: e' :: post⟩ ⟨pre ++ e' :: e :: post⟩
  | add {pre post : List (HeaderName × HeaderValue)} {e : HeaderName × HeaderValue} (he : ¬ kept e.1.text) :
      Recombine kept ⟨pre ++ post⟩ ⟨pre ++ e :: post⟩
  | drop {pre post : List (HeaderName × HeaderValue)} {e : HeaderName × HeaderValue} (he : ¬ kept e.1.text) :
      Recombine kept ⟨pre ++ e :: post⟩ ⟨pre ++ post⟩

section
variable {kept : Text → Prop} {headers headers' : HeaderMap} {name : Text}

theorem sameText_join {pre mid post : List (HeaderName × HeaderValue)} {n : HeaderName} (v w : HeaderValue)
    (hmid : ∀ e ∈ mid, e.1 ≠ n) (name : Text) :
    SameText ⟨pre ++ (n, v) :: (mid ++ (n, w) :: post)⟩ ⟨pre ++ (n, joinValues v w) :: (mid ++ post)⟩ name := by
  by_cases hn : n.text = toAsciiLowercase name
  · have hnone : HeaderMap.getAll ⟨mid⟩ name = [] := by
      rw [HeaderMap.getAll, List.map_eq_nil_iff, List.filter_eq_nil_iff]
      intro e he hname
      exact hmid e he (HeaderName.text_inj ((of_decide_eq_true hname).trans hn.symm))
    have hlines : HeaderMap.getAll ⟨pre ++ (n, v) :: (mid ++ (n, w) :: post)⟩ name =
        HeaderMap.getAll ⟨pre⟩ name ++ v :: w :: HeaderMap.getAll ⟨post⟩ name := by
      rw [getAll_append_entries, getAll_cons_entries, if_pos hn, getAll_append_entries, hnone, getAll_cons_entries, if_pos hn]
      rfl
    have hlines' : HeaderMap.getAll ⟨pre ++ (n, joinValues v w) :: (mid ++ post)⟩ name =
        HeaderMap.getAll ⟨pre⟩ name ++ joinValues v w :: HeaderMap.getAll ⟨post⟩ name := by
      rw [getAll_append_entries, getAll_cons_entries, if_pos hn, getAll_append_entries, hnone]
      rfl
    constructor
    · rw [containsKey_eq, containsKey_eq, hlines, hlines']
      cases HeaderMap.getAll ⟨pre⟩ name <;> rfl
    · have htext := linesText_joinValues (HeaderMap.getAll ⟨pre⟩ name) (HeaderMap.getAll ⟨post⟩ name) v w
      rw [← hlines, ← hlines'] at htext
      exact htext.symm
  · refine sameText_of_getAll ?_
    rw [getAll_append_entries, getAll_append_entries, getAll_cons_entries, getAll_cons_entries, if_neg hn, if_neg hn,
      getAll_append_entries, getAll_append_entries, getAll_cons_entries, if_neg hn]

theorem sameText_add {pre post : List (HeaderName × HeaderValue)} {e : HeaderName × HeaderValue} (he : ¬ kept e.1.text)
    (hname : kept (toAsciiLowercase name)) : SameText ⟨pre ++ post⟩ ⟨pre ++ e :: post⟩ name := by
  have hne : e.1.text ≠ toAsciiLowercase name := fun heq => he (heq ▸ hname)
  refine sameText_of_getAll ?_
  rw [getAll_append_entries, getAll_append_entries, getAll_cons_entries, if_neg hne]

/-- No kept field shows anything else than before. -/
theorem Recombine.sameText (h : Recombine kept headers headers') (hname : kept (toAsciiLowercase name)) :
    SameText headers headers' name := by
  cases h with
  | join hmid => exact sameText_join _ _ hmid name
  | split hmid => exact (sameText_join _ _ hmid name).symm
  | @swap pre post e e' hne =>
    refine sameText_of_getAll ?_
    rw [getAll_append_entries, getAll_append_entries, getAll_cons_entries, getAll_cons_entries, getAll_cons_entries,
      getAll_cons_entries]
    by_cases he : e.1.text = toAsciiLowercase name
    · have he' : e'.1.text ≠ toAsciiLowercase name := fun heq => hne (HeaderName.text_inj (he.trans heq.symm))
      rw [if_pos he, if_neg he', if_neg he', if_pos he]
    · rw [if_neg he, if_neg he]
  | add he => exact sameText_add he hname
  | drop he => exact (sameText_add he hname).symm

end

/-! ### Messages that show the same -/

/-- The same start line, and the same texts of the kept fields. -/
structure Alike {β : Type} (kept : Text → Prop) (msg msg' : RequestOrResponse β) : Prop where
  kind : msg.isRequest = msg'.isRequest
  method : msg.method = msg'.method
  uri : msg.uri = msg'.uri
  status : msg.status = msg'.status
  fields : ∀ name, kept (toAsciiLowercase name) → SameText msg.headers msg'.headers name

/-- An id whose value is in what is kept: a field that is read as one text, or a part of the start line. -/
def ReadWhole (kept : Text → Prop) (id : HttpMessageComponentId) : Prop :=
  match id.name with
  | .httpField name => kept (toAsciiLowercase name) ∧ id.params.readings = []
  | .derived n => n ≠ .signatureParams

section
variable {β : Type} {kept : Text → Prop} {msg msg' : RequestOrResponse β} {id : HttpMessageComponentId}

theorem extractHttpField_whole {name : Text} (hn : id.name = .httpField name) (hr : id.params.readings = []) :
    extractHttpField msg id = Outcome.okOr .failedToStrSignatureHeaders (fieldText msg.headers name) >>= fun t =>
      .ok ⟨id, .string t⟩ := by
  have hbuild : ∀ vs, HttpMessageComponent.tryFrom id vs = .ok ⟨id, .string (join ", ".toList vs)⟩ := by
    intro vs
    have hfold : id.params.items.foldlM handleParam vs = .ok vs := by
      rw [foldlM_readings]
      rw [HttpMessageComponentParams.readings] at hr
      rw [hr]
      rfl
    unfold HttpMessageComponent.tryFrom
    rw [hn]
    dsimp only
    rw [buildHttpFieldComponent, hfold]
    rfl
  unfold extractHttpField
  rw [hn]
  dsimp only
  rw [mapM_toStr, fieldText]
  cases (msg.headers.getAll name).mapM HeaderValue.toStr with
  | none => rfl
  | some vs =>
    show intoHyper (HttpMessageComponent.tryFrom id vs) = _
    rw [hbuild]
    rfl

theorem extractHttpMessageComponent_of_alike (h : Alike kept msg msg') (hid : ReadWhole kept id) :
    extractHttpMessageComponent msg id = extractHttpMessageComponent msg' id := by
  unfold ReadWhole at hid
  cases hn : id.name with
  | httpField name =>
    rw [hn] at hid
    have hfield : ∀ msg : RequestOrResponse β, extractHttpMessageComponent msg id = extractHttpField msg id := by
      intro msg
      unfold extractHttpMessageComponent
      rw [hn]
    rw [hfield, hfield, extractHttpField_whole hn hid.2, extractHttpField_whole hn hid.2, (h.fields name hid.1).text]
  | derived n =>
    rw [hn] at hid
    refine extractHttpMessageComponent_congr h.kind ?_
    rw [hn]
    cases n with
    | method => exact h.method
    | requestTarget => exact ⟨h.method, h.uri⟩
    | status => exact h.status
    | signatureParams => exact absurd rfl hid
    | _ => exact h.uri

end

namespace Message
variable {β γ : Type} {kept : Text → Prop} {m m' : Message β γ}

/-- Two messages show the same, and so do the requests behind them. -/
structure SameShown (kept : Text → Prop) (m m' : Message β γ) : Prop where
  own : Alike kept m.message m'.message
  request : Option.Rel (fun r r' => Alike kept (.request r) (.request r')) m.reqForParam m'.reqForParam

theorem SameShown.signatureBase (h : m.SameShown kept m') {p : HttpSignatureParams}
    (hids : ∀ id ∈ p.coveredComponents, ReadWhole kept id) : m.signatureBase p = m'.signatureBase p := by
  refine buildSignatureBase_congr fun id hid => ?_
  unfold extractCovered
  rw [h.own.kind, extractHttpMessageComponent_of_alike h.own (hids id hid)]
  have hr := h.request
  generalize m.reqForParam = r at hr ⊢
  generalize m'.reqForParam = r' at hr ⊢
  cases hr with
  | none => rfl
  | some hr =>
    dsimp only
    rw [extractHttpMessageComponent_of_alike hr (hids id hid)]

/-- The fields of the signatures are kept, and so is all that they cover. -/
structure Covers (kept : Text → Prop) (m : Message β γ) : Prop where
  input : kept signatureInputHeader
  signature : kept signatureHeader
  whole : ∀ params, m.getSignatureParams = .ok params → ∀ e ∈ params.entries, ∀ id ∈ e.2.coveredComponents, ReadWhole kept id

theorem SameShown.extractSignatures (h : m.SameShown kept m') (hc : m.Covers kept) :
    m.extractSignatures = m'.extractSignatures := by
  have hinput := h.own.fields signatureInputHeader hc.input
  have hsignature := h.own.fields signatureHeader hc.signature
  have hread : extractSignatureHeadersWithName m.message = extractSignatureHeadersWithName m'.message := by
    by_cases hboth : m.message.headers.containsKey signatureInputHeader = true ∧ m.message.headers.containsKey signatureHeader = true
    · rw [extractSignatureHeadersWithName_eq hboth.1 hboth.2, extractSignatureHeadersWithName_eq (hinput.present ▸ hboth.1)
        (hsignature.present ▸ hboth.2), hinput.text, hsignature.text]
    · have hnone : (m.message.headers.containsKey signatureInputHeader && m.message.headers.containsKey signatureHeader) = false := by
        rw [← Bool.not_eq_true, Bool.and_eq_true]
        exact hboth
      have hnone' := hnone
      rw [hinput.present, hsignature.present] at hnone'
      rw [extractSignatureHeadersWithName, extractSignatureHeadersWithName, hnone, hnone']
      rfl
  rw [extractSignatures_eq, extractSignatures_eq, extractSignaturesInner, extractSignaturesInner, ← hread]
  cases hx : extractSignatureHeadersWithName m.message with
  | ok map =>
    obtain ⟨params, hparams, hmem⟩ := getSignatureParams_of_ok hx
    rw [Outcome.ok_bind, Outcome.ok_bind]
    have hentry : ∀ e ∈ map.entries, extractEntry m.message m.reqForParam e = extractEntry m'.message m'.reqForParam e := by
      intro e he
      have hbase := h.signatureBase (hc.whole params hparams _ (hmem e he))
      rw [Message.signatureBase, Message.signatureBase] at hbase
      rw [extractEntry, extractEntry, hbase]
    rw [Outcome.mapM_congr hentry]
  | _ => rfl

theorem SameShown.verifyMessageSignatures {κ : Type} [VerifyingKey κ] (h : m.SameShown kept m') (hc : m.Covers kept)
    (keyAndId : List (κ × Option Text)) (now : UInt64) :
    m.verifyMessageSignatures keyAndId now = m'.verifyMessageSignatures keyAndId now := by
  have hkind : m.kind = m'.kind := by
    have hk := h.own.kind
    cases m <;> cases m' <;> first | rfl | cases hk
  have hhas : hasMessageSignatureInner m.message.headers = hasMessageSignatureInner m'.message.headers := by
    rw [hasMessageSignatureInner, hasMessageSignatureInner, (h.own.fields signatureInputHeader hc.input).present,
      (h.own.fields signatureHeader hc.signature).present]
  rw [verifyMessageSignatures_eq, verifyMessageSignatures_eq, verifyMessageSignaturesOf, verifyMessageSignaturesOf, hkind, hhas,
    ← extractSignatures_eq, ← extractSignatures_eq, h.extractSignatures hc]

/-! ### Runs -/

/-- Which of the two messages an intermediary works on. -/
inductive Half where
  | own
  | request

/-- A message, and the request behind it, on their ways through intermediaries. -/
inductive Pass (kept : Text → Prop) : Message β γ → Half → Message β γ → Prop where
  | own {m : Message β γ} {headers' : HeaderMap} (h : Recombine kept m.headers headers') :
      Pass kept m .own (m.withHeaders headers')
  | request {res : Response β} {r : Request γ} {headers' : HeaderMap} (h : Recombine kept r.headers headers') :
      Pass kept (.response res (some r)) .request (.response res (some { r with headers := headers' }))

def transit (β γ : Type) (kept : Text → Prop) : System (Message β γ) Half where
  init _ := True
  step := Pass kept

theorem SameShown.refl (m : Message β γ) : m.SameShown kept m := by
  have hsame : ∀ {δ : Type} (msg : RequestOrResponse δ), Alike kept msg msg :=
    fun msg => ⟨rfl, rfl, rfl, rfl, fun _ _ => ⟨rfl, rfl⟩⟩
  refine ⟨hsame _, ?_⟩
  cases m.reqForParam with
  | none => exact .none
  | some r => exact .some (hsame _)

theorem alike_trans {δ : Type} {a b c : RequestOrResponse δ} (h : Alike kept a b) (h' : Alike kept b c) : Alike kept a c :=
  ⟨h.kind.trans h'.kind, h.method.trans h'.method, h.uri.trans h'.uri, h.status.trans h'.status, fun name hname =>
    ⟨(h.fields name hname).present.trans (h'.fields name hname).present,
      (h.fields name hname).text.trans (h'.fields name hname).text⟩⟩

theorem SameShown.pass {m₀ : Message β γ} (h : m₀.SameShown kept m) {half : Half} (hpass : Pass kept m half m') :
    m₀.SameShown kept m' := by
  cases hpass with
  | @own _ headers' hheaders =>
    have hown : Alike kept m.message (m.withHeaders headers').message := by
      cases m with
      | request req => exact ⟨rfl, rfl, rfl, rfl, fun name hname => hheaders.sameText hname⟩
      | response res r => exact ⟨rfl, rfl, rfl, rfl, fun name hname => hheaders.sameText hname⟩
    refine ⟨alike_trans h.own hown, ?_⟩
    have hreq : (m.withHeaders headers').reqForParam = m.reqForParam := by
      cases m <;> rfl
    rw [hreq]
    exact h.request
  | @request res r headers' hheaders =>
    refine ⟨h.own, ?_⟩
    have hr := h.request
    generalize m₀.reqForParam = r₀ at hr ⊢
    cases hr with
    | some hr =>
      have hreq : Alike kept (.request r) (.request { r with headers := headers' } : RequestOrResponse γ) :=
        ⟨rfl, rfl, rfl, rfl, fun name hname => hheaders.sameText hname⟩
      exact .some (alike_trans hr hreq)

/-- Whatever intermediaries do to the lines of a message and of the request behind it, in any number of steps: signatures
that cover nothing by single lines are extracted as before, and every list of keys gets the results it would have had. -/
theorem outcomes_of_transit {halves : List Half} (hrun : (transit β γ kept).Run m halves m') (hc : m.Covers kept) :
    m.extractSignatures = m'.extractSignatures ∧
      ∀ {κ : Type} [VerifyingKey κ] (keyAndId : List (κ × Option Text)) (now : UInt64),
        m.verifyMessageSignatures keyAndId now = m'.verifyMessageSignatures keyAndId now := by
  have hsame : m.SameShown kept m' :=
    hrun.invariant (P := fun x => m.SameShown kept x) (fun _ _ _ h hpass => h.pass hpass) (.refl m)
  exact ⟨hsame.extractSignatures hc, fun keyAndId now => hsame.verifyMessageSignatures hc keyAndId now⟩

/-! ### A request whose lines are joined -/

def cacheName : HeaderName := ⟨"cache-control".toList, by decide⟩

def noCache : HeaderValue := ⟨utf8Bytes "no-cache".toList, by decide⟩

def noStore : HeaderValue := ⟨utf8Bytes "no-store".toList, by decide⟩

def keptFields (name : Text) : Prop := name ∈ ["cache-control".toList, signatureInputHeader, signatureHeader]

def cacheSignature : List (HeaderName × HeaderValue) := [
  (signatureInputHeaderName, ⟨utf8Bytes "a=(\"cache-control\")".toList, by decide⟩),
  (signatureHeaderName, ⟨utf8Bytes "a=:AQ==:".toList, by decide⟩)]

/-- A request with a signature that covers the cache lines. -/
def cachedRequest (lines : List (HeaderName × HeaderValue)) : Message Unit Unit :=
  .request { getRequest [] with headers := ⟨lines ++ cacheSignature⟩ }

theorem cachedRequest_run : (transit Unit Unit keptFields).Run (cachedRequest [(cacheName, noCache), (cacheName, noStore)])
    [.own, .own] (cachedRequest [(viaName, noStore), (cacheName, joinValues noCache noStore)]) := by
  have hjoin : Recombine keptFields ⟨[] ++ (cacheName, noCache) :: ([] ++ (cacheName, noStore) :: cacheSignature)⟩
      ⟨[] ++ (cacheName, joinValues noCache noStore) :: ([] ++ cacheSignature)⟩ :=
    .join fun e he => absurd he List.not_mem_nil
  have hadd : Recombine keptFields ⟨[] ++ (cacheName, joinValues noCache noStore) :: cacheSignature⟩
      ⟨[] ++ (viaName, noStore) :: (cacheName, joinValues noCache noStore) :: cacheSignature⟩ := by
    refine .add ?_
    unfold keptFields
    decide
  have hfirst : Pass keptFields (cachedRequest [(cacheName, noCache), (cacheName, noStore)]) .own
      (cachedRequest [(cacheName, joinValues noCache noStore)]) := .own hjoin
  have hnext : Pass keptFields (cachedRequest [(cacheName, joinValues noCache noStore)]) .own
      (cachedRequest [(viaName, noStore), (cacheName, joinValues noCache noStore)]) := .own hadd
  exact .cons hfirst (.single hnext)

theorem cachedRequest_covers : (cachedRequest [(cacheName, noCache), (cacheName, noStore)]).Covers keptFields where
  input := by
    unfold keptFields
    decide
  signature := by
    unfold keptFields
    decide
  whole := by
    have hread : (cachedRequest [(cacheName, noCache), (cacheName, noStore)]).getSignatureParams =
        .ok (.ofList [("a".toList, .ofComponents [⟨.httpField "cache-control".toList, ∅⟩])]) := by decide
    intro params hparams e he id hid
    rw [hread] at hparams
    cases hparams
    cases List.mem_singleton.mp he
    cases List.mem_singleton.mp hid
    exact ⟨List.mem_cons_self, rfl⟩

theorem cachedRequest_agrees : (cachedRequest [(cacheName, noCache), (cacheName, noStore)]).extractSignatures =
    (cachedRequest [(viaName, noStore), (cacheName, joinValues noCache noStore)]).extractSignatures :=
  (outcomes_of_transit cachedRequest_run cachedRequest_covers).1

end Message
end HttpSig
