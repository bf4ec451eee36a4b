import HttpSig.Theorems.Appending
import HttpSig.Theorems.Rereading

/-! What signing appends: one pair of lines for each signature, which read back as the label with its parameters
and its bytes. -/

namespace HttpSig
open Rust Sfv Http

/-! ### Signatures -/

section
variable {β γ κ : Type} [SigningKey κ] {msg : RequestOrResponse β} {reqForParam : Option (Request γ)}

/-- A header pair made for the parameters, the key and the name. -/
def Signs (msg : RequestOrResponse β) (reqForParam : Option (Request γ)) (e : HttpSignatureParams × κ × Option Text)
    (h : HttpSignatureHeaders) : Prop :=
  ∃ base signature, buildSignatureBase msg e.1 reqForParam = .ok base ∧
    SigningKey.sign e.2.1 base.asBytes = .ok signature ∧ h = ⟨e.2.2.getD defaultSignatureName, signature, e.1⟩

theorem buildSignatureHeaders_eq_ok {base : HttpSignatureBase} {key : κ} {name : Option Text} {h : HttpSignatureHeaders} :
    base.buildSignatureHeaders key name = .ok h ↔ ∃ signature, SigningKey.sign key base.asBytes = .ok signature ∧
      h = ⟨name.getD defaultSignatureName, signature, base.signatureParams⟩ := by
  rw [HttpSignatureBase.buildSignatureHeaders, Outcome.bind_eq_ok]
  refine exists_congr fun signature => and_congr_right fun _ => ?_
  rw [Outcome.ok.injEq, eq_comm]

/-- Signing succeeds when it makes one pair for each entry of the list. -/
theorem signedHeaders_eq_ok {list : List (HttpSignatureParams × κ × Option Text)} {hs : List HttpSignatureHeaders} :
    signedHeaders msg list reqForParam = .ok hs ↔ List.Forall₂ (Signs msg reqForParam) list hs := by
  constructor
  · intro h
    obtain ⟨bases, hbases, hjoin⟩ := Outcome.bind_eq_ok.mp h
    rw [Outcome.mapM_eq_ok] at hbases
    rw [Outcome.joinAll_eq_ok, List.forall₂_map_left_iff] at hjoin
    clear h
    induction hbases generalizing hs with
    | nil =>
      cases hjoin
      exact .nil
    | @cons e b list bases hb _ ih =>
      obtain ⟨h, hs, hh, hrest, rfl⟩ := List.forall₂_cons_left_iff.mp hjoin
      obtain ⟨base, hbase, hb⟩ := Outcome.bind_eq_ok.mp hb
      cases hb
      rw [intoHyper_eq_ok, buildSignatureHeaders_eq_ok] at hh
      obtain ⟨signature, hsign, rfl⟩ := hh
      refine .cons ⟨base, signature, hbase, hsign, ?_⟩ (ih hrest)
      rw [(buildSignatureBase_eq_ok.mp hbase).2]
  · intro h
    induction h with
    | nil => rfl
    | @cons e h list hs hsigns _ ih =>
      obtain ⟨base, signature, hbase, hsign, rfl⟩ := hsigns
      obtain ⟨bases, hbases, hjoin⟩ := Outcome.bind_eq_ok.mp ih
      rw [Outcome.joinAll_eq_ok] at hjoin
      have hfirst : (buildSignatureBase msg e.1 reqForParam >>= fun base => Outcome.ok (base, e.2)) = .ok (base, e.2) :=
        Outcome.bind_eq_ok.mpr ⟨base, hbase, rfl⟩
      have hpair : intoHyper (base.buildSignatureHeaders e.2.1 e.2.2) =
          .ok ⟨e.2.2.getD defaultSignatureName, signature, e.1⟩ := by
        rw [intoHyper_eq_ok, buildSignatureHeaders_eq_ok, (buildSignatureBase_eq_ok.mp hbase).2]
        exact ⟨signature, hsign, rfl⟩
      refine Outcome.bind_eq_ok.mpr ⟨(base, e.2) :: bases, ?_, Outcome.joinAll_eq_ok.mpr (.cons hpair hjoin)⟩
      rw [Outcome.mapM_eq_ok] at hbases ⊢
      exact .cons hfirst hbases

end

/-! ### Lines -/

/-- The two lines of a header pair. -/
def HeaderLines (h : HttpSignatureHeaders) (l : HeaderValue × HeaderValue) : Prop :=
  HeaderValue.fromStr h.signatureInputHeaderValue = some l.1 ∧ HeaderValue.fromStr h.signatureHeaderValue = some l.2

/-- The headers after several pairs. -/
def appendPairs (headers : HeaderMap) (lines : List (HeaderValue × HeaderValue)) : HeaderMap :=
  lines.foldl (fun headers l => appendPair headers l.1 l.2) headers

theorem appendSignatureHeaders_eq_ok {headers' : HeaderMap} : ∀ {hs : List HttpSignatureHeaders} {headers : HeaderMap},
    appendSignatureHeaders hs headers = (headers', .ok ()) ↔
      ∃ lines, List.Forall₂ HeaderLines hs lines ∧ headers' = appendPairs headers lines
  | [], headers => by
    rw [appendSignatureHeaders]
    constructor
    · rintro ⟨⟩
      exact ⟨[], .nil, rfl⟩
    · rintro ⟨_, ⟨⟩, rfl⟩
      rfl
  | h :: hs, headers => by
    rw [appendSignatureHeaders]
    constructor
    · intro heq
      split at heq
      · cases heq
      · rename_i v hv
        dsimp only at heq
        split at heq
        · cases heq
        · rename_i w hw
          obtain ⟨lines, hl, rfl⟩ := appendSignatureHeaders_eq_ok.mp heq
          exact ⟨(v, w) :: lines, .cons ⟨hv, hw⟩ hl, rfl⟩
    · rintro ⟨_, ⟨⟩, rfl⟩
      rename_i l lines hl hls
      rw [hl.1]
      dsimp only
      rw [hl.2]
      exact appendSignatureHeaders_eq_ok.mpr ⟨lines, hls, rfl⟩

namespace Message
variable {β γ κ : Type} [SigningKey κ] {m m' : Message β γ}

/-- A call that succeeds appends one pair for each signature it makes, and changes nothing else. -/
theorem setMessageSignatures_eq_ok {list : List (HttpSignatureParams × κ × Option Text)} :
    m.setMessageSignatures list = (m', .ok ()) ↔ ∃ hs lines, signedHeaders m.message list m.reqForParam = .ok hs ∧
      List.Forall₂ HeaderLines hs lines ∧ m' = m.withHeaders (appendPairs m.headers lines) := by
  rw [setMessageSignatures_eq, Prod.mk.injEq]
  unfold setMessageSignaturesOf
  cases hs : signedHeaders m.message list m.reqForParam with
  | ok hs' =>
    dsimp only
    constructor
    · rintro ⟨rfl, h⟩
      obtain ⟨lines, hl, heq⟩ := appendSignatureHeaders_eq_ok.mp (Prod.ext rfl h)
      exact ⟨hs', lines, rfl, hl, congrArg m.withHeaders heq⟩
    · rintro ⟨_, lines, ⟨⟩, hl, rfl⟩
      have heq : appendSignatureHeaders hs' m.message.headers = (appendPairs m.headers lines, .ok ()) :=
        appendSignatureHeaders_eq_ok.mpr ⟨lines, hl, rfl⟩
      rw [heq]
      exact ⟨rfl, rfl⟩
  | _ => simp

end Message

/-! ### Reading the lines back -/

theorem isTextChar_of_isPrintable {c : Char} (h : isPrintable c = true) : isTextChar c = true := by
  rw [isPrintable_iff] at h
  rw [isTextChar_iff]
  omega

/-- A printable line that parses carries what it parses to. -/
theorem carries_of_fromStr {s : Text} {v : HeaderValue} {k : Key} {e : ListEntry} (hv : HeaderValue.fromStr s = some v)
    (hs : ∀ c ∈ s, isPrintable c = true) (hp : parseDictionaryField s = some (IndexMap.ofList [(k, e)])) :
    Carries v k e := by
  obtain ⟨v', hv', ht⟩ := HeaderValue.fromStr_of_text fun c hc => isTextChar_of_isPrintable (hs c hc)
  cases hv.symm.trans hv'
  exact ⟨s, ht, hp⟩

section
variable {h : HttpSignatureHeaders} {l : HeaderValue × HeaderValue} {k : Key}

theorem HeaderLines.carries_signature (hl : HeaderLines h l) (hk : h.signatureName = k.text) :
    Carries l.2 k (.item ⟨.byteSequence h.signature, ∅⟩) := by
  have heq : h.signatureHeaderValue = serializeMember k (.item ⟨.byteSequence h.signature, ∅⟩) := by
    rw [serializeMember_item, if_neg (by simp), serializeItem, HttpSignatureHeaders.signatureHeaderValue, hk]
    simp [serializeBareItem, serializeParameters]
  have hv := hl.2
  rw [heq] at hv
  exact carries_of_fromStr hv (fun c hc => isPrintable_of_mem_serializeMember hc) (parseDictionaryField_member k _)

theorem HeaderLines.carries_signatureInput (hl : HeaderLines h l) (hk : h.signatureName = k.text)
    (hp : h.signatureParams.ReadsBack) :
    ∃ m, HttpSignatureParams.tryFrom (.innerList m) = .ok h.signatureParams ∧ Carries l.1 k (.innerList m) := by
  obtain ⟨m, hm, hread⟩ := HttpSignatureParams.readsBack_iff.mp hp
  have hprint : ∀ c ∈ h.signatureInputHeaderValue, isPrintable c = true := by
    intro c hc
    rw [HttpSignatureHeaders.signatureInputHeaderValue, hk, List.mem_append, List.mem_cons] at hc
    rcases hc with hc | rfl | hc
    · exact isPrintable_of_isPlain (isPlain_of_mem_key hc)
    · decide
    · exact HttpSignatureParams.isPrintable_of_mem_toText hread c hc
  refine ⟨m, hread, carries_of_fromStr hl.1 hprint ?_⟩
  rw [HttpSignatureHeaders.signatureInputHeaderValue, hk]
  exact parseDictionaryField_of_parseListField hm rfl

end
end HttpSig
