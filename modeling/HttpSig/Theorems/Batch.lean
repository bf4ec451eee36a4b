import HttpSig.Theorems.Atomicity

/-! Signing a list at once and one entry after another. At once every base is built before the first line is appended;
one after another each is built over a message that has the lines of the earlier ones. The two agree on entries that
do not cover the signature fields of the message itself. -/

namespace HttpSig
open Rust Sfv Http

/-- An id that is read from the signature fields of the message itself: by name, or all of `signature-input` at once. -/
def ReadsOwnSignatures (id : HttpMessageComponentId) : Prop :=
  ReadsSignatureField id ∨ HttpMessageComponentParams.hasReq id.params = false ∧ id.name = .derived .signatureParams

theorem getAll_appendPairs_other {name : Text} (hi : toAsciiLowercase name ≠ signatureInputHeader)
    (hs : toAsciiLowercase name ≠ signatureHeader) (lines : List (HeaderValue × HeaderValue)) :
    ∀ headers : HeaderMap, (appendPairs headers lines).getAll name = headers.getAll name := by
  induction lines with
  | nil => exact fun _ => rfl
  | cons l lines ih =>
    intro headers
    show (appendPairs (appendPair headers l.1 l.2) lines).getAll name = _
    rw [ih, getAll_appendPair_other hi hs]

namespace Message
variable {β γ κ : Type} [SigningKey κ] {m m' : Message β γ} {e : HttpSignatureParams × κ × Option Text}
  {list : List (HttpSignatureParams × κ × Option Text)}

/-- Signing the entries one after another, each over the message that the one before has left, up to the first that
fails. -/
def setMessageSignatureEach (m : Message β γ) : List (HttpSignatureParams × κ × Option Text) →
    Message β γ × HyperSigResult Unit
  | [] => (m, .ok ())
  | (params, key, name) :: list =>
    match m.setMessageSignature params key name with
    | (m, .ok ()) => setMessageSignatureEach m list
    | r => r

theorem setMessageSignatureEach_cons_eq_ok : m.setMessageSignatureEach (e :: list) = (m', .ok ()) ↔
    ∃ m₁, m.setMessageSignature e.1 e.2.1 e.2.2 = (m₁, .ok ()) ∧ m₁.setMessageSignatureEach list = (m', .ok ()) := by
  obtain ⟨params, key, name⟩ := e
  rw [setMessageSignatureEach]
  constructor
  · intro h
    split at h
    · exact ⟨_, ‹_›, h⟩
    · rename_i hno
      exact absurd h (hno m')
  · rintro ⟨m₁, h₁, h⟩
    rw [h₁]
    exact h

/-! ### One more pair -/

theorem withHeaders_withPair (v w : HeaderValue) (h : HeaderMap) : (m.withPair v w).withHeaders h = m.withHeaders h := by
  cases m <;> rfl

/-- What is signed of other entries does not change with one more pair. -/
theorem signs_withPair {v w : HeaderValue} {h : HttpSignatureHeaders}
    (hown : ∀ id ∈ e.1.coveredComponents, ¬ ReadsOwnSignatures id) :
    Signs (m.withPair v w).message (m.withPair v w).reqForParam e h ↔ Signs m.message m.reqForParam e h := by
  have hbase : (m.withPair v w).signatureBase e.1 = m.signatureBase e.1 :=
    signatureBase_withPair (fun id hid hfield => hown id hid (Or.inl hfield))
      fun id hid hn hr => absurd (Or.inr ⟨hr, hn⟩) (hown id hid)
  refine exists_congr fun base => exists_congr fun signature => and_congr_left fun _ => ?_
  show (m.withPair v w).signatureBase e.1 = .ok base ↔ m.signatureBase e.1 = .ok base
  rw [hbase]

theorem forall₂_signs_withPair {v w : HeaderValue} {hs : List HttpSignatureHeaders}
    (hown : ∀ e ∈ list, ∀ id ∈ e.1.coveredComponents, ¬ ReadsOwnSignatures id) :
    List.Forall₂ (Signs (m.withPair v w).message (m.withPair v w).reqForParam) list hs ↔
      List.Forall₂ (Signs m.message m.reqForParam) list hs := by
  induction list generalizing hs with
  | nil => rw [List.forall₂_nil_left_iff, List.forall₂_nil_left_iff]
  | cons e list ih =>
    obtain ⟨he, hrest⟩ := List.forall_mem_cons.mp hown
    rw [List.forall₂_cons_left_iff, List.forall₂_cons_left_iff]
    simp only [signs_withPair he, ih hrest]

theorem setMessageSignatures_singleton_eq_ok {m₁ : Message β γ} : m.setMessageSignatures [e] = (m₁, .ok ()) ↔
    ∃ h l, Signs m.message m.reqForParam e h ∧ HeaderLines h l ∧ m₁ = m.withPair l.1 l.2 := by
  rw [setMessageSignatures_eq_ok]
  simp only [signedHeaders_eq_ok]
  constructor
  · rintro ⟨hs, lines, hsigns, hlines, rfl⟩
    obtain ⟨h, _, hsign, hnil, rfl⟩ := List.forall₂_cons_left_iff.mp hsigns
    cases hnil
    obtain ⟨l, _, hline, hnil, rfl⟩ := List.forall₂_cons_left_iff.mp hlines
    cases hnil
    exact ⟨h, l, hsign, hline, rfl⟩
  · rintro ⟨h, l, hsigns, hline, rfl⟩
    exact ⟨[h], [l], .cons hsigns .nil, .cons hline .nil, rfl⟩

/-- Signing a list at once is signing its first entry and then the others. -/
theorem setMessageSignatures_cons_eq_ok (hown : ∀ e ∈ list, ∀ id ∈ e.1.coveredComponents, ¬ ReadsOwnSignatures id) :
    m.setMessageSignatures (e :: list) = (m', .ok ()) ↔
      ∃ m₁, m.setMessageSignatures [e] = (m₁, .ok ()) ∧ m₁.setMessageSignatures list = (m', .ok ()) := by
  constructor
  · intro h
    obtain ⟨hs, lines, hsigned, hlines, rfl⟩ := setMessageSignatures_eq_ok.mp h
    rw [signedHeaders_eq_ok] at hsigned
    obtain ⟨x, hs, hx, hsigns, rfl⟩ := List.forall₂_cons_left_iff.mp hsigned
    obtain ⟨l, lines', hl, hrest, rfl⟩ := List.forall₂_cons_left_iff.mp hlines
    refine ⟨m.withPair l.1 l.2, setMessageSignatures_singleton_eq_ok.mpr ⟨x, l, hx, hl, rfl⟩, ?_⟩
    have hsigns := (forall₂_signs_withPair (v := l.1) (w := l.2) hown).mpr hsigns
    refine setMessageSignatures_eq_ok.mpr ⟨_, lines', signedHeaders_eq_ok.mpr hsigns, hrest, ?_⟩
    rw [withHeaders_withPair, withPair, headers_withHeaders]
    rfl
  · rintro ⟨m₁, hfirst, h⟩
    obtain ⟨x, l, hx, hl, rfl⟩ := setMessageSignatures_singleton_eq_ok.mp hfirst
    obtain ⟨hs, lines, hsigned, hlines, rfl⟩ := setMessageSignatures_eq_ok.mp h
    rw [signedHeaders_eq_ok, forall₂_signs_withPair hown] at hsigned
    refine setMessageSignatures_eq_ok.mpr ⟨x :: hs, l :: lines, signedHeaders_eq_ok.mpr (.cons hx hsigned),
      .cons hl hlines, ?_⟩
    rw [withHeaders_withPair, withPair, headers_withHeaders]
    rfl

/-! ### Lists -/

/-- Signing at once and one after another come to the same. -/
theorem setMessageSignatureEach_eq_ok_iff (hown : ∀ e ∈ list, ∀ id ∈ e.1.coveredComponents, ¬ ReadsOwnSignatures id) :
    m.setMessageSignatureEach list = (m', .ok ()) ↔ m.setMessageSignatures list = (m', .ok ()) := by
  induction list generalizing m with
  | nil =>
    rw [setMessageSignatures_eq_ok]
    constructor
    · rintro ⟨⟩
      exact ⟨[], [], rfl, .nil, (withHeaders_self _).symm⟩
    · rintro ⟨hs, lines, hsigned, hlines, rfl⟩
      cases hsigned
      cases hlines
      exact Prod.ext (withHeaders_self _).symm rfl
  | cons e list ih =>
    have hrest := (List.forall_mem_cons.mp hown).2
    rw [setMessageSignatureEach_cons_eq_ok, setMessageSignatures_cons_eq_ok hrest]
    refine exists_congr fun m₁ => and_congr ?_ (ih hrest)
    rw [setMessageSignature_eq]

/-- Where every step succeeds, the whole list at once succeeds and leaves the same message; lines are added to the
signature fields only. -/
theorem setMessageSignatures_of_each (hown : ∀ e ∈ list, ∀ id ∈ e.1.coveredComponents, ¬ ReadsOwnSignatures id)
    (h : m.setMessageSignatureEach list = (m', .ok ())) : m.setMessageSignatures list = (m', .ok ()) ∧
      ∀ name, toAsciiLowercase name ≠ signatureInputHeader → toAsciiLowercase name ≠ signatureHeader →
        m'.headers.getAll name = m.headers.getAll name := by
  have hbatch := (setMessageSignatureEach_eq_ok_iff hown).mp h
  refine ⟨hbatch, fun name hi hs => ?_⟩
  obtain ⟨-, lines, -, -, rfl⟩ := setMessageSignatures_eq_ok.mp hbatch
  rw [headers_withHeaders, getAll_appendPairs_other hi hs]

open scoped ByteKey

theorem firstCall_each : (unsignedRequest.setMessageSignatureEach firstCall).2 = .ok () ∧
    unsignedRequest.setMessageSignatures firstCall = ((unsignedRequest.setMessageSignatureEach firstCall).1, .ok ()) := by
  have hown : ∀ e ∈ firstCall, ∀ id ∈ e.1.coveredComponents, ¬ ReadsOwnSignatures id := by
    intro e he id hid
    obtain rfl : id = ⟨.derived .method, ∅⟩ := by
      rcases List.mem_pair.mp he with rfl | rfl <;> exact List.mem_singleton.mp hid
    rintro (⟨-, name, hn, -⟩ | ⟨-, hn⟩) <;> cases hn
  have hsteps : (unsignedRequest.setMessageSignatureEach firstCall).2 = .ok () := by decide
  exact ⟨hsteps, (setMessageSignatures_of_each hown (Prod.ext rfl hsteps)).1⟩

end Message
end HttpSig
