import HttpSig.Theorems.Retention

/-! What a failed signing call leaves behind. Every base and every signature is made before the first line is
appended, but a later pair whose text is no header value stops the appending after the earlier ones. -/

namespace HttpSig
open Rust Sfv Http

/-! ### The lines of one pair -/

/-- The text of the `signature-input` line is a header value. -/
def HttpSignatureHeaders.hasLine (h : HttpSignatureHeaders) : Bool :=
  (utf8Bytes h.signatureInputHeaderValue).all isValidByte

theorem utf8Bytes_append (s t : Text) : utf8Bytes (s ++ t) = utf8Bytes s ++ utf8Bytes t := List.flatMap_append

theorem isValidByte_of_isTextChar {s : Text} (h : ∀ c ∈ s, isTextChar c = true) : (utf8Bytes s).all isValidByte = true := by
  obtain ⟨v, hv, -⟩ := HeaderValue.fromStr_of_text h
  rw [← HeaderValue.fromStr_eq_some.mp hv]
  exact v.valid

/-- The `signature` line adds nothing to the label that is not visible ASCII. -/
theorem exists_headerLines {h : HttpSignatureHeaders} (hl : h.hasLine = true) : ∃ l, HeaderLines h l := by
  have hname : (utf8Bytes h.signatureName).all isValidByte = true := by
    rw [HttpSignatureHeaders.hasLine, HttpSignatureHeaders.signatureInputHeaderValue, utf8Bytes_append, List.all_append,
      Bool.and_eq_true] at hl
    exact hl.1
  have hrest : ∀ c ∈ '=' :: ':' :: (Base64.encode h.signature ++ [':']), isTextChar c = true := by
    intro c hc
    simp only [List.mem_cons, List.mem_append, List.not_mem_nil, or_false] at hc
    rcases hc with rfl | rfl | hc | rfl
    · decide
    · decide
    · exact isTextChar_of_isPrintable
        (isPrintable_of_isPlain (isPlain_of_isBase64Char (Base64.isBase64Char_of_mem_encode c hc)))
    · decide
  have hsig : (utf8Bytes h.signatureHeaderValue).all isValidByte = true := by
    have heq : h.signatureHeaderValue = h.signatureName ++ '=' :: ':' :: (Base64.encode h.signature ++ [':']) := by
      simp [HttpSignatureHeaders.signatureHeaderValue]
    rw [heq, utf8Bytes_append, List.all_append, hname, isValidByte_of_isTextChar hrest]
    rfl
  exact ⟨(⟨_, hl⟩, ⟨_, hsig⟩), HeaderValue.fromStr_eq_some.mpr rfl, HeaderValue.fromStr_eq_some.mpr rfl⟩

theorem hasLine_iff {h : HttpSignatureHeaders} : h.hasLine = true ↔ ∃ l, HeaderLines h l := by
  refine ⟨exists_headerLines, ?_⟩
  rintro ⟨l, hl, -⟩
  rw [HttpSignatureHeaders.hasLine, ← HeaderValue.fromStr_eq_some.mp hl]
  exact l.1.valid

theorem length_appendPairs (headers : HeaderMap) (lines : List (HeaderValue × HeaderValue)) :
    (appendPairs headers lines).entries.length = headers.entries.length + 2 * lines.length := by
  induction lines generalizing headers with
  | nil => rfl
  | cons l lines ih =>
    have hpair : (appendPair headers l.1 l.2).entries.length = headers.entries.length + 2 := by
      simp [appendPair, HeaderMap.append]
    have hrest : (appendPairs headers (l :: lines)).entries.length =
        (appendPair headers l.1 l.2).entries.length + 2 * lines.length := ih (appendPair headers l.1 l.2)
    rw [hrest, hpair, List.length_cons]
    omega

theorem appendPairs_eq_self {headers : HeaderMap} {lines : List (HeaderValue × HeaderValue)}
    (h : appendPairs headers lines = headers) : lines = [] := by
  have hlen := length_appendPairs headers lines
  rw [h] at hlen
  exact List.length_eq_zero_iff.mp (by omega)

/-- Appending fails at the first pair without a line, and leaves the pairs before it. -/
theorem appendSignatureHeaders_eq_err {headers' : HeaderMap} {e : HyperSigError} :
    ∀ {hs : List HttpSignatureHeaders} {headers : HeaderMap}, appendSignatureHeaders hs headers = (headers', .err e) →
      ∃ hs₁ h hs₂ lines, hs = hs₁ ++ h :: hs₂ ∧ List.Forall₂ HeaderLines hs₁ lines ∧ h.hasLine = false ∧
        headers' = appendPairs headers lines
  | [], headers, heq => by cases heq
  | h :: hs, headers, heq => by
    rw [appendSignatureHeaders] at heq
    cases hl : h.hasLine with
    | true =>
      obtain ⟨l, hv, hw⟩ := hasLine_iff.mp hl
      rw [hv] at heq
      dsimp only at heq
      rw [hw] at heq
      obtain ⟨hs₁, h', hs₂, lines, rfl, hlines, hno, rfl⟩ := appendSignatureHeaders_eq_err heq
      exact ⟨h :: hs₁, h', hs₂, l :: lines, rfl, .cons ⟨hv, hw⟩ hlines, hno, rfl⟩
    | false =>
      have hv : HeaderValue.fromStr h.signatureInputHeaderValue = none := by
        rw [HttpSignatureHeaders.hasLine] at hl
        rw [HeaderValue.fromStr, dif_neg (by rw [hl]; exact Bool.false_ne_true)]
      rw [hv] at heq
      cases heq
      exact ⟨[], h, hs, [], rfl, .nil, hl, rfl⟩

/-! ### One call -/

section
variable {β γ κ : Type} [SigningKey κ] {m : Message β γ} {list : List (HttpSignatureParams × κ × Option Text)}

/-- An entry whose base can be built from the message and signed with its key. -/
def Signable (m : Message β γ) (e : HttpSignatureParams × κ × Option Text) : Prop :=
  ∃ base signature, m.signatureBase e.1 = .ok base ∧ SigningKey.sign e.2.1 base.asBytes = .ok signature

/-- An entry whose label and parameters have no control character, so that they make a header value. -/
def hasLine (e : HttpSignatureParams × κ × Option Text) : Bool :=
  (utf8Bytes (labelOf e ++ '=' :: e.1.toText)).all isValidByte

theorem hasLine_of_signs {e : HttpSignatureParams × κ × Option Text} {h : HttpSignatureHeaders}
    (hs : Signs m.message m.reqForParam e h) : h.hasLine = hasLine e := by
  obtain ⟨base, signature, -, -, rfl⟩ := hs
  rfl

/-- Everything is signed, or nothing is appended. -/
theorem exists_signedHeaders : (∃ hs, signedHeaders m.message list m.reqForParam = .ok hs) ↔ ∀ e ∈ list, Signable m e := by
  constructor
  · rintro ⟨hs, h⟩ e he
    obtain ⟨x, -, base, signature, hbase, hsign, -⟩ := Outcome.exists_of_mem_right (signedHeaders_eq_ok.mp h).flip he
    exact ⟨base, signature, hbase, hsign⟩
  · intro h
    induction list with
    | nil => exact ⟨[], rfl⟩
    | cons e list ih =>
      obtain ⟨⟨base, signature, hbase, hsign⟩, hrest⟩ := List.forall_mem_cons.mp h
      obtain ⟨hs, hhs⟩ := ih hrest
      exact ⟨_, signedHeaders_eq_ok.mpr (.cons ⟨base, signature, hbase, hsign, rfl⟩ (signedHeaders_eq_ok.mp hhs))⟩

end

theorem appendSignatureHeaders_ne_panic (hs : List HttpSignatureHeaders) (headers : HeaderMap) :
    (appendSignatureHeaders hs headers).2 ≠ .panic := by
  induction hs generalizing headers with
  | nil => exact Outcome.ok_ne_panic ()
  | cons h hs ih =>
    rw [appendSignatureHeaders]
    split
    · exact Outcome.err_ne_panic _
    · dsimp only
      split
      · exact Outcome.err_ne_panic _
      · exact ih _

/-- Appending restores nothing, so a failure leaves the headers alone exactly when it comes at the first pair. -/
theorem appendSignatureHeaders_atomic_iff {hs : List HttpSignatureHeaders} {headers : HeaderMap} :
    (∀ headers' e, appendSignatureHeaders hs headers = (headers', .err e) → headers' = headers) ↔
      ((∀ h ∈ hs.head?, h.hasLine = true) → ∀ h ∈ hs, h.hasLine = true) := by
  constructor
  · intro hatomic hfirst h hh
    cases hr : (appendSignatureHeaders hs headers).2 with
    | ok u =>
      obtain ⟨lines, hlines, -⟩ := appendSignatureHeaders_eq_ok.mp (Prod.ext rfl hr)
      obtain ⟨l, -, hl⟩ := Outcome.exists_of_mem_right hlines.flip hh
      exact hasLine_iff.mpr ⟨l, hl⟩
    | err x =>
      have hheaders := hatomic _ x (Prod.ext rfl hr)
      obtain ⟨hs₁, h', hs₂, lines, rfl, hlines, hno, heq⟩ := appendSignatureHeaders_eq_err (Prod.ext rfl hr)
      obtain rfl : lines = [] := appendPairs_eq_self (heq.symm.trans hheaders)
      cases hlines
      rw [hfirst h' rfl] at hno
      cases hno
    | panic => exact absurd hr (appendSignatureHeaders_ne_panic hs headers)
  · intro hcond headers' e heq
    obtain ⟨hs₁, h, hs₂, lines, rfl, hlines, hno, rfl⟩ := appendSignatureHeaders_eq_err heq
    cases hlines with
    | nil => rfl
    | @cons h₁ l hs₁ lines hl _ =>
      -- The first pair has its lines, so all of them have.
      have hfirst : h₁.hasLine = true := hasLine_iff.mpr ⟨l, hl⟩
      rw [hcond (by rintro h ⟨⟩; exact hfirst) h (by simp)] at hno
      cases hno

namespace Message
variable {β γ κ : Type} [SigningKey κ] {m : Message β γ} {list : List (HttpSignatureParams × κ × Option Text)}

theorem withHeaders_self (m : Message β γ) : m.withHeaders m.headers = m := by
  cases m <;> rfl

/-- What all entries signed make has lines exactly when the entries have. -/
theorem hasLine_congr {hs : List HttpSignatureHeaders} (h : List.Forall₂ (Signs m.message m.reqForParam) list hs) :
    ((∀ h ∈ hs.head?, h.hasLine = true) → ∀ h ∈ hs, h.hasLine = true) ↔
      ((∀ e ∈ list.head?, hasLine e = true) → ∀ e ∈ list, hasLine e = true) := by
  cases h with
  | nil => simp
  | @cons e h list hs hsigns hrest =>
    have hall : (∀ h ∈ hs, h.hasLine = true) ↔ ∀ e ∈ list, hasLine e = true := by
      induction hrest with
      | nil => simp
      | cons hsigns _ ih => simp [hasLine_of_signs hsigns, ih]
    simp [hasLine_of_signs hsigns, hall]

/-- A call that fails leaves the message as it was, unless it signs every entry and stops at one whose text is no
header value behind a first one whose text is one. -/
theorem setMessageSignatures_atomic_iff : (∀ m' e, m.setMessageSignatures list = (m', .err e) → m' = m) ↔
    ((∀ e ∈ list, Signable m e) → (∀ e ∈ list.head?, hasLine e = true) → ∀ e ∈ list, hasLine e = true) := by
  rw [← exists_signedHeaders, setMessageSignatures_eq]
  unfold setMessageSignaturesOf
  cases hhs : signedHeaders m.message list m.reqForParam with
  | ok hs =>
    have hsigned : ∃ hs', Outcome.ok hs = (Outcome.ok hs' : HyperSigResult _) := ⟨hs, rfl⟩
    rw [forall_prop_of_true hsigned, ← hasLine_congr (signedHeaders_eq_ok.mp hhs),
      ← @appendSignatureHeaders_atomic_iff hs m.message.headers]
    dsimp only
    constructor
    · intro hatomic headers' e heq
      have hmsg := hatomic (m.withHeaders headers') e (by rw [heq])
      have := congrArg Message.headers hmsg
      rwa [headers_withHeaders] at this
    · intro hatomic m' e heq
      rw [Prod.mk.injEq] at heq
      obtain ⟨rfl, hr⟩ := heq
      exact (congrArg m.withHeaders (hatomic _ e (Prod.ext rfl hr))).trans (withHeaders_self m)
  | err x =>
    refine iff_of_true ?_ (by rintro ⟨hs, h⟩; cases h)
    rintro m' e heq
    cases heq
    exact withHeaders_self m
  | panic =>
    refine iff_of_true ?_ (by rintro ⟨hs, h⟩; cases h)
    rintro m' e heq
    cases heq

/-! ### A failure behind a signature -/

open scoped ByteKey

/-- A tag with a line feed, which no header value may hold. -/
def brokenTagParams : HttpSignatureParams := { methodParams with tag := some "\n".toList }

/-- The second signature fails, and the lines of the first one stay. -/
theorem brokenTag_leaves : ∃ m' e, unsignedRequest.setMessageSignatures
      [(methodParams, ByteKey.mk 2, none), (brokenTagParams, ByteKey.mk 3, some "c".toList)] = (m', .err e) ∧
    foundLabels unsignedRequest = none ∧ foundLabels m' = some ["sig".toList] ∧ m' ≠ unsignedRequest := by
  have hcall : (unsignedRequest.setMessageSignatures
        [(methodParams, ByteKey.mk 2, none), (brokenTagParams, ByteKey.mk 3, some "c".toList)]).2 = .err .invalidHeaderValue ∧
      foundLabels unsignedRequest = none ∧
      foundLabels (unsignedRequest.setMessageSignatures
        [(methodParams, ByteKey.mk 2, none), (brokenTagParams, ByteKey.mk 3, some "c".toList)]).1 = some ["sig".toList] := by
    decide
  refine ⟨_, .invalidHeaderValue, Prod.ext rfl hcall.1, hcall.2.1, hcall.2.2, fun h => ?_⟩
  have hlabels : foundLabels unsignedRequest = some ["sig".toList] := (congrArg foundLabels h).symm.trans hcall.2.2
  rw [hcall.2.1] at hlabels
  cases hlabels

end Message
end HttpSig
