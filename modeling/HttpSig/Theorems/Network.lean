import HttpSig.Systems.Channel
import HttpSig.Theorems.Atomicity
import HttpSig.Theorems.Statement

/-! Principals who sign messages and check what they receive, over a network that belongs to an adversary: messages
are changed, mixed, replayed and made up at will, but a key accepts no bytes that were not signed with it. Such a
network is an authenticated channel for what signature bases say. -/

namespace HttpSig
open Rust Sfv Http Systems

/-! ### What a call emits -/

section
variable {β γ κ : Type} [SigningKey κ]

/-- The bases whose signatures a call appends to its message: none unless everything is signed, and then those
before the first text that is no header value. -/
def emittedBases (m : Message β γ) (list : List (HttpSignatureParams × κ × Option Text)) : List HttpSignatureBase :=
  if (signedHeaders m.message list m.reqForParam).isOk then
    (list.takeWhile hasLine).filterMap fun e => (m.signatureBase e.1).ok?
  else []

variable {m : Message β γ} {list : List (HttpSignatureParams × κ × Option Text)} {base : HttpSignatureBase}

omit [SigningKey κ] in
theorem newline_notMem_of_hasLine {e : HttpSignatureParams × κ × Option Text} (h : hasLine e = true) :
    '\n' ∉ e.1.toText := by
  intro hm
  have hbyte : (10 : UInt8) ∈ utf8Bytes (labelOf e ++ '=' :: e.1.toText) :=
    List.mem_flatMap.mpr ⟨'\n', by simp [hm], by decide⟩
  have := List.all_eq_true.mp h _ hbyte
  revert this
  decide

/-- An emitted base was built from the message, under parameters that stay on one line. -/
theorem exists_of_mem_emittedBases (h : base ∈ emittedBases m list) :
    ∃ e ∈ list, m.signatureBase e.1 = .ok base ∧ '\n' ∉ e.1.toText := by
  unfold emittedBases at h
  split at h
  · obtain ⟨e, he, hbase⟩ := List.mem_filterMap.mp h
    have hline : hasLine e = true := List.all_eq_true.mp List.all_takeWhile e he
    exact ⟨e, (List.takeWhile_sublist _).mem he, Outcome.ok?_eq_some.mp hbase, newline_notMem_of_hasLine hline⟩
  · cases h

/-- Appending goes on up to the first pair without a line. -/
theorem appendSignatureHeaders_fst : ∀ (hs : List HttpSignatureHeaders) (headers : HeaderMap),
    ∃ lines, List.Forall₂ HeaderLines (hs.takeWhile HttpSignatureHeaders.hasLine) lines ∧
      (appendSignatureHeaders hs headers).1 = appendPairs headers lines
  | [], headers => ⟨[], .nil, rfl⟩
  | h :: hs, headers => by
    cases hl : h.hasLine with
    | true =>
      obtain ⟨l, hv, hw⟩ := hasLine_iff.mp hl
      obtain ⟨lines, hlines, heq⟩ := appendSignatureHeaders_fst hs (appendPair headers l.1 l.2)
      refine ⟨l :: lines, ?_, ?_⟩
      · rw [List.takeWhile_cons_of_pos hl]
        exact .cons ⟨hv, hw⟩ hlines
      · rw [appendSignatureHeaders, hv]
        dsimp only
        rw [hw]
        exact heq
    | false =>
      have hv : HeaderValue.fromStr h.signatureInputHeaderValue = none := by
        rw [HttpSignatureHeaders.hasLine] at hl
        rw [HeaderValue.fromStr, dif_neg (by rw [hl]; exact Bool.false_ne_true)]
      refine ⟨[], ?_, ?_⟩
      · rw [List.takeWhile_cons_of_neg (by rw [hl]; exact Bool.false_ne_true)]
        exact .nil
      · rw [appendSignatureHeaders, hv]
        rfl

/-- The lines of a signature over a base, made for an entry of the list. -/
def SignatureLines (list : List (HttpSignatureParams × κ × Option Text)) (base : HttpSignatureBase)
    (l : HeaderValue × HeaderValue) : Prop :=
  ∃ e ∈ list, ∃ signature, SigningKey.sign e.2.1 base.asBytes = .ok signature ∧
    HeaderLines ⟨labelOf e, signature, e.1⟩ l

theorem forall₂_signatureLines {hs : List HttpSignatureHeaders} {lines : List (HeaderValue × HeaderValue)}
    (hsigns : List.Forall₂ (Signs m.message m.reqForParam) list hs)
    (hlines : List.Forall₂ HeaderLines (hs.takeWhile HttpSignatureHeaders.hasLine) lines) :
    List.Forall₂ (SignatureLines list) ((list.takeWhile hasLine).filterMap fun e => (m.signatureBase e.1).ok?) lines := by
  induction hsigns generalizing lines with
  | nil =>
    cases hlines
    exact .nil
  | @cons e h list hs hs₁ _ ih =>
    cases hl : hasLine e with
    | false =>
      rw [List.takeWhile_cons_of_neg (by rw [hasLine_of_signs hs₁, hl]; exact Bool.false_ne_true)] at hlines
      cases hlines
      rw [List.takeWhile_cons_of_neg (by rw [hl]; exact Bool.false_ne_true)]
      exact .nil
    | true =>
      rw [List.takeWhile_cons_of_pos (by rw [hasLine_of_signs hs₁, hl])] at hlines
      obtain ⟨l, lines, hline, hrest, rfl⟩ := List.forall₂_cons_left_iff.mp hlines
      obtain ⟨base, signature, hbase, hsign, rfl⟩ := hs₁
      have hok : (m.signatureBase e.1).ok? = some base := Outcome.ok?_eq_some.mpr hbase
      rw [List.takeWhile_cons_of_pos hl, List.filterMap_cons, hok]
      refine .cons ⟨e, List.mem_cons_self .., signature, hsign, hline⟩ ((ih hrest).imp ?_)
      rintro b l ⟨x, hx, hsig⟩
      exact ⟨x, List.mem_cons_of_mem _ hx, hsig⟩

/-- However a call ends, it has appended the lines of one signature over each emitted base. -/
theorem setMessageSignatures_emits (m : Message β γ) (list : List (HttpSignatureParams × κ × Option Text)) :
    ∃ lines, List.Forall₂ (SignatureLines list) (emittedBases m list) lines ∧
      (m.setMessageSignatures list).1 = m.withHeaders (appendPairs m.headers lines) := by
  rw [Message.setMessageSignatures_eq]
  unfold setMessageSignaturesOf emittedBases
  cases hs : signedHeaders m.message list m.reqForParam with
  | ok hs' =>
    obtain ⟨lines, hlines, heq⟩ := appendSignatureHeaders_fst hs' m.message.headers
    exact ⟨lines, forall₂_signatureLines (signedHeaders_eq_ok.mp hs) hlines, congrArg m.withHeaders heq⟩
  | _ => exact ⟨[], .nil, rfl⟩

end

/-! ### The network -/

section
variable {π β γ σ κ : Type} [SigningKey σ] [VerifyingKey κ]

/-- What was emitted so far, by whom, and the time. -/
structure NetworkState (π : Type) where
  emitted : List (π × HttpSignatureBase)
  now : UInt64

inductive NetworkEvent (π β γ : Type) where
  | sign (a : π) (m : Message β γ) (list : List (HttpSignatureParams × Option Text))
  | receive (m : Message β γ) (asks : List (π × Option Text)) (results : List (Except HyperSigError SignatureName))
  | tick (now : UInt64)

/-- The entries of a call that signs with one key. -/
def entriesOf (key : σ) (list : List (HttpSignatureParams × Option Text)) : List (HttpSignatureParams × σ × Option Text) :=
  list.map fun e => (e.1, key, e.2)

/-- The keys and key ids a receiver tries. -/
def keysOf (vk : π → κ) (asks : List (π × Option Text)) : List (κ × Option Text) := asks.map fun x => (vk x.1, x.2)

/-- No label of the message is accepted by a principal's key unless the principal has emitted the same bytes. -/
def Unforged (vk : π → κ) (s : NetworkState π) (m : Message β γ) : Prop :=
  ∀ map, m.extractSignatures = .ok map → ∀ e ∈ map.entries, ∀ a,
    VerifyingKey.verify (vk a) e.2.1.asBytes e.2.2.signature = .ok () →
      ∃ base, (a, base) ∈ s.emitted ∧ base.asBytes = e.2.1.asBytes

/-- Any message is signed, with any result; any message that is not forged arrives, at any receiver; time goes on. -/
inductive NetworkStep (sk : π → σ) (vk : π → κ) : NetworkState π → NetworkEvent π β γ → NetworkState π → Prop where
  | sign {s : NetworkState π} (a : π) (m : Message β γ) (list : List (HttpSignatureParams × Option Text)) :
      NetworkStep sk vk s (.sign a m list)
        { s with emitted := s.emitted ++ (emittedBases m (entriesOf (sk a) list)).map (Prod.mk a) }
  | receive {s : NetworkState π} {m : Message β γ} {asks : List (π × Option Text)}
      {results : List (Except HyperSigError SignatureName)} (hunforged : Unforged vk s m)
      (hverify : m.verifyMessageSignatures (keysOf vk asks) s.now = .ok results) :
      NetworkStep sk vk s (.receive m asks results) s
  | tick {s : NetworkState π} {now : UInt64} (h : s.now ≤ now) : NetworkStep sk vk s (.tick now) { s with now }

/-- Nothing was emitted at first. -/
def network (sk : π → σ) (vk : π → κ) : System (NetworkState π) (NetworkEvent π β γ) where
  init s := s.emitted = []
  step := NetworkStep sk vk

/-! ### The channel behind it -/

/-- A statement holds until its expiry. -/
def Statement.InTime (x : Statement) (now : UInt64) : Prop := ∀ t ∈ x.expires, now ≤ t

/-- What a label of a message says. -/
def statementOf (m : Message β γ) (name : SignatureName) : Option Statement :=
  m.extractSignatures.ok?.bind fun map => (map.get? name).map fun e => e.1.statement

/-- What is heard of a principal whose key was tried. -/
def heardOf (m : Message β γ) (x : (π × Option Text) × Except HyperSigError SignatureName) :
    Option (ChannelEvent π Statement UInt64) :=
  match x.2 with
  | .ok name => (statementOf m name).map (.hear x.1.1)
  | .error _ => none

theorem heardOf_ok (m : Message β γ) (x : π × Option Text) (name : SignatureName) :
    heardOf m (x, .ok name) = (statementOf m name).map (.hear x.1) := rfl

/-- What an event is on the channel. -/
def shown (sk : π → σ) : NetworkEvent π β γ → List (ChannelEvent π Statement UInt64)
  | .sign a m list => (emittedBases m (entriesOf (sk a) list)).map fun base => .say a base.statement
  | .receive m asks results => (asks.zip results).filterMap (heardOf m)
  | .tick now => [.tick now]

end
end HttpSig
