import HttpSig.Theorems.Network

/-! What a receiver accepts was said: on a network without forged signatures every label that a principal's key accepts
says what that principal has signed before, and is not past the expiry that was signed. -/

namespace HttpSig
open Rust Sfv Http Systems

section
variable {π β γ σ κ : Type} [SigningKey σ] [VerifyingKey κ] {sk : π → σ} {vk : π → κ} {s s' : NetworkState π}
  {m : Message β γ} {asks : List (π × Option Text)} {results : List (Except HyperSigError SignatureName)} {a : π}
  {keyId : Option Text} {name : SignatureName} {map : SignatureMap}

/-! ### What was emitted -/

/-- An emitted base was built from some message, under parameters that stay on one line. -/
def Emitted (β γ : Type) (base : HttpSignatureBase) : Prop :=
  ∃ (m : Message β γ) (p : HttpSignatureParams), m.signatureBase p = .ok base ∧ '\n' ∉ p.toText

omit [VerifyingKey κ] in
theorem emitted_of_mem {list : List (HttpSignatureParams × σ × Option Text)} {base : HttpSignatureBase}
    (h : base ∈ emittedBases m list) : Emitted β γ base := by
  obtain ⟨e, -, hbase, hnl⟩ := exists_of_mem_emittedBases h
  exact ⟨m, e.1, hbase, hnl⟩

/-! ### One label -/

/-- A label that is found has its base from its own parameters, which were read from the header. -/
theorem base_of_mem_extractSignatures (hm : m.extractSignatures = .ok map)
    {e : SignatureName × (HttpSignatureBase × HttpSignatureHeaders)} (he : e ∈ map.entries) :
    ∃ p, m.signatureBase p = .ok e.2.1 ∧ '\n' ∉ p.toText ∧ e.2.1.signatureParams = e.2.2.signatureParams := by
  rw [Message.extractSignatures_eq] at hm
  obtain ⟨input, signature, -, -, hentries⟩ := extractSignaturesInner_eq_ok.mp hm
  rw [hentries] at he
  obtain ⟨x, -, hx⟩ := List.mem_filterMap.mp he
  obtain ⟨p, base, hread, hbase, rfl⟩ := extractedEntry_eq_some.mp hx
  obtain ⟨l, hl⟩ := HttpSignatureParams.tryFrom_eq_ok hread
  rw [hl] at hread
  exact ⟨p, hbase, HttpSignatureParams.newline_notMem_toText hread, (buildSignatureBase_eq_ok.mp hbase).2⟩

theorem statementOf_eq_some (hm : m.extractSignatures = .ok map)
    {e : SignatureName × (HttpSignatureBase × HttpSignatureHeaders)} (he : e ∈ map.entries) :
    statementOf m e.1 = some e.2.1.statement := by
  have hget : map.get? e.1 = some e.2 := IndexMap.get?_eq_some.mpr he
  rw [statementOf, hm, Outcome.ok?_ok, Option.bind_some, hget]
  rfl

/-- What a key accepts on a network without forgeries was emitted by its principal, and is in time. -/
theorem emitted_of_accepted {now : UInt64} (hunforged : Unforged vk s m)
    (hverify : m.verifyMessageSignatures (keysOf vk asks) now = .ok results)
    (hacc : ((a, keyId), Except.ok name) ∈ asks.zip results) (hemitted : ∀ e ∈ s.emitted, Emitted β γ e.2) :
    ∃ base, (a, base) ∈ s.emitted ∧ statementOf m name = some base.statement ∧ base.statement.InTime now := by
  obtain ⟨map, hm, hall⟩ := Message.verifyMessageSignatures_eq_ok.mp hverify
  rw [keysOf, List.forall₂_map_left_iff] at hall
  have hone : verifyWithKey map now (vk a) keyId = .ok (.ok name) := (List.forall₂_iff_zip.mp hall).2 hacc
  have hfind := (verifyWithKey_eq_ok hone name).mp rfl
  obtain ⟨e, hfound, rfl⟩ := Option.map_eq_some_iff.mp hfind
  have hsel := List.find?_some hfound
  have he := List.mem_of_find?_eq_some hfound
  rw [selects, Bool.and_eq_true, verifySignatureHeaders_isOk] at hsel
  obtain ⟨-, htime, hok⟩ := hsel
  obtain ⟨base, hbase, hbytes⟩ := hunforged map hm e he a hok
  obtain ⟨p, hp, hnl, hparams⟩ := base_of_mem_extractSignatures hm he
  obtain ⟨m₀, p₀, hp₀, hnl₀⟩ := hemitted _ hbase
  have hsame : base.statement = e.2.1.statement := Message.statement_of_asBytes hp₀ hp hnl₀ hnl hbytes
  refine ⟨base, hbase, by rw [statementOf_eq_some hm he, hsame], ?_⟩
  rw [hsame]
  intro t ht
  refine htime t ?_
  rw [← hparams]
  exact ht

/-! ### The network is an authenticated channel -/

/-- The channel of a network: everything emitted is said. -/
def ChannelOf (β γ : Type) (s : NetworkState π) (c : Channel π Statement UInt64) : Prop :=
  c.said = s.emitted.map (fun e => (e.1, e.2.statement)) ∧ c.now = s.now ∧ ∀ e ∈ s.emitted, Emitted β γ e.2

theorem run_say (a : π) : ∀ (bases : List HttpSignatureBase) (c : Channel π Statement UInt64),
    (Channel.system Statement.InTime).Run c (bases.map fun base => .say a base.statement)
      { c with said := c.said ++ bases.map fun base => (a, base.statement) }
  | [], c => by
    rw [List.map_nil, List.map_nil, List.append_nil]
    exact .nil
  | base :: bases, c => by
    have h := run_say a bases { c with said := c.said ++ [(a, base.statement)] }
    rw [List.append_assoc] at h
    exact .cons (.say a base.statement) h

theorem run_hear {es : List (ChannelEvent π Statement UInt64)} {c : Channel π Statement UInt64}
    (h : ∀ e ∈ es, ∃ a x, e = .hear a x ∧ (a, x) ∈ c.said ∧ x.InTime c.now) :
    (Channel.system Statement.InTime).Run c es c := by
  induction es with
  | nil => exact .nil
  | cons e es ih =>
    obtain ⟨⟨a, x, rfl, hsaid, htime⟩, hes⟩ := List.forall_mem_cons.mp h
    exact .cons (.hear hsaid htime) (ih hes)

theorem channelOf_step {c : Channel π Statement UInt64} {e : NetworkEvent π β γ} (hc : ChannelOf β γ s c)
    (hstep : NetworkStep sk vk s e s') :
    ∃ c', (Channel.system Statement.InTime).Run c (shown sk e) c' ∧ ChannelOf β γ s' c' := by
  obtain ⟨hsaid, hnow, hemitted⟩ := hc
  cases hstep with
  | sign a m list =>
    refine ⟨_, run_say a (emittedBases m (entriesOf (sk a) list)) c, ?_, hnow, ?_⟩
    · rw [hsaid, List.map_append, List.map_map]
      rfl
    · intro e he
      rcases List.mem_append.mp he with he | he
      · exact hemitted e he
      · obtain ⟨base, hbase, rfl⟩ := List.mem_map.mp he
        exact emitted_of_mem hbase
  | @receive m asks results hunforged hverify =>
    refine ⟨c, run_hear fun e he => ?_, hsaid, hnow, hemitted⟩
    obtain ⟨⟨⟨a, keyId⟩, r⟩, hmem, hr⟩ := List.mem_filterMap.mp he
    cases r with
    | error e => cases hr
    | ok name =>
      obtain ⟨base, hbase, hstatement, htime⟩ := emitted_of_accepted hunforged hverify hmem hemitted
      rw [heardOf_ok, hstatement] at hr
      obtain rfl : ChannelEvent.hear a base.statement = e := Option.some.inj hr
      refine ⟨a, base.statement, rfl, ?_, hnow ▸ htime⟩
      rw [hsaid]
      exact List.mem_map.mpr ⟨_, hbase, rfl⟩
  | tick h => exact ⟨_, .single (.tick (hnow ▸ h)), hsaid, rfl, hemitted⟩

/-- The network, with an adversary on it, is followed step by step by the channel. -/
def networkSimulation (sk : π → σ) (vk : π → κ) :
    Simulation (network sk vk : System (NetworkState π) (NetworkEvent π β γ))
      (Channel.system Statement.InTime : System (Channel π Statement UInt64) (ChannelEvent π Statement UInt64)) where
  rel := ChannelOf β γ
  shown := shown sk
  init s hs := by
    have hs : s.emitted = [] := hs
    refine ⟨⟨[], s.now⟩, rfl, by rw [hs]; rfl, rfl, ?_⟩
    rw [hs]
    exact fun e he => absurd he List.not_mem_nil
  step _ _ _ _ hc hstep := channelOf_step hc hstep

/-- Everything said on the channel is the signature of a call. -/
theorem sign_of_say {es : List (NetworkEvent π β γ)} {x : Statement} (h : .say a x ∈ es.flatMap (shown sk)) :
    ∃ m list base, .sign a m list ∈ es ∧ base ∈ emittedBases m (entriesOf (sk a) list) ∧ base.statement = x := by
  obtain ⟨e, he, h⟩ := List.mem_flatMap.mp h
  cases e with
  | sign b m list =>
    obtain ⟨base, hbase, heq⟩ := List.mem_map.mp h
    cases heq
    exact ⟨m, list, base, he, hbase, rfl⟩
  | receive m asks results =>
    obtain ⟨⟨y, r⟩, -, hr⟩ := List.mem_filterMap.mp h
    cases r with
    | error e => cases hr
    | ok name =>
      obtain ⟨x', -, hr⟩ := Option.map_eq_some_iff.mp hr
      cases hr
  | tick now => cases List.mem_singleton.mp h

/-- The channel behind a message that is received: what is accepted is heard. -/
theorem heard_of_accepted (sk : π → σ) {x : Statement} (hacc : ((a, keyId), Except.ok name) ∈ asks.zip results)
    (hx : statementOf m name = some x) : .hear a x ∈ shown sk (.receive m asks results : NetworkEvent π β γ) := by
  refine List.mem_filterMap.mpr ⟨_, hacc, ?_⟩
  rw [heardOf_ok, hx]
  rfl

/-- What is accepted in a run was said on the channel before, and is accepted in time. -/
theorem said_of_accepted {es₁ es₂ : List (NetworkEvent π β γ)}
    (hrun : (network sk vk).Run s (es₁ ++ .receive m asks results :: es₂) s') (hs : s.emitted = [])
    (hacc : ((a, keyId), Except.ok name) ∈ asks.zip results) :
    ∃ x, .say a x ∈ es₁.flatMap (shown sk) ∧ statementOf m name = some x ∧
      ∃ u, (network sk vk).Run s es₁ u ∧ x.InTime u.now := by
  obtain ⟨u, hfirst, hrest⟩ := System.run_append.mp hrun
  obtain ⟨v, hstep, -⟩ := System.run_cons.mp hrest
  obtain ⟨c, d, hc, hchannel, hd⟩ := (networkSimulation sk vk).exists_run hfirst hs
  obtain ⟨d', hheard, -⟩ := (networkSimulation sk vk).step _ _ _ _ hd hstep
  cases hstep with
  | receive hunforged hverify =>
    obtain ⟨base, -, hstatement, htime⟩ := emitted_of_accepted hunforged hverify hacc hd.2.2
    refine ⟨base.statement, ?_, hstatement, u, hfirst, htime⟩
    -- What is accepted is heard, and what is heard was said before.
    obtain ⟨fs₁, fs₂, hsplit⟩ := List.append_of_mem (heard_of_accepted sk hacc hstatement)
    have hshown : (networkSimulation sk vk).shown (.receive m asks results : NetworkEvent π β γ) =
        fs₁ ++ .hear a base.statement :: fs₂ := hsplit
    have hall := hchannel.append hheard
    rw [hshown, ← List.append_assoc] at hall
    rcases List.mem_append.mp (Channel.said_of_heard hall hc).1 with h | h
    · exact h
    · have hmem : ChannelEvent.say a base.statement ∈ shown sk (.receive m asks results : NetworkEvent π β γ) := by
        rw [hsplit]
        exact List.mem_append_left _ h
      obtain ⟨m₀, list, base', hsign, -, -⟩ := sign_of_say (List.mem_flatMap.mpr ⟨_, List.mem_singleton_self _, hmem⟩)
      cases List.mem_singleton.mp hsign

/-- In every run a label that a principal's key accepts says what a signature says that the principal has put on some
message earlier in the run: the same ids with the same values, the same times, the same print of the rest. And it is
accepted only in time. -/
theorem signed_of_accepted {es₁ es₂ : List (NetworkEvent π β γ)}
    (hrun : (network sk vk).Run s (es₁ ++ .receive m asks results :: es₂) s') (hs : s.emitted = [])
    (hacc : ((a, keyId), Except.ok name) ∈ asks.zip results) :
    ∃ m₀ list base x, .sign a m₀ list ∈ es₁ ∧ base ∈ emittedBases m₀ (entriesOf (sk a) list) ∧
      statementOf m name = some x ∧ base.statement = x ∧
      ∃ u, (network sk vk).Run s es₁ u ∧ x.InTime u.now := by
  obtain ⟨x, hsaid, hstatement, hu⟩ := said_of_accepted hrun hs hacc
  obtain ⟨m₀, list, base, hsign, hbase, heq⟩ := sign_of_say hsaid
  exact ⟨m₀, list, base, x, hsign, hbase, hstatement, heq, hu⟩

/-- A label that a principal's key accepts has a base that says the same as the base of a call of the principal. -/
theorem bases_of_accepted {es₁ es₂ : List (NetworkEvent π β γ)} {entry : HttpSignatureBase × HttpSignatureHeaders}
    (hrun : (network sk vk).Run s (es₁ ++ .receive m asks results :: es₂) s') (hs : s.emitted = [])
    (hacc : ((a, keyId), Except.ok name) ∈ asks.zip results) (hm : m.extractSignatures = .ok map)
    (hentry : map.get? name = some entry) :
    ∃ m₀ list e base, .sign a m₀ list ∈ es₁ ∧ e ∈ list ∧ m₀.signatureBase e.1 = .ok base ∧
      m.signatureBase entry.2.signatureParams = .ok entry.1 ∧ entry.1.statement = base.statement := by
  obtain ⟨x, hsaid, hstatement, -⟩ := said_of_accepted hrun hs hacc
  obtain ⟨m₀, list, base, hsign, hbase, rfl⟩ := sign_of_say hsaid
  obtain ⟨e, he, hbuilt, -⟩ := exists_of_mem_emittedBases hbase
  obtain ⟨e₀, he₀, rfl⟩ := List.mem_map.mp he
  obtain ⟨p, hp, -, hparams⟩ := base_of_mem_extractSignatures hm (IndexMap.get?_eq_some.mp hentry)
  rw [statementOf_eq_some hm (IndexMap.get?_eq_some.mp hentry)] at hstatement
  rw [← (buildSignatureBase_eq_ok.mp hp).2, hparams] at hp
  exact ⟨m₀, list, e₀, base, hsign, he₀, hbuilt, hp, Option.some.inj hstatement⟩

end

/-! ### A request on its way -/

open scoped ByteKey

def soleKey (_ : Unit) : ByteKey := ⟨2⟩

def signedRequest : Message Unit Unit :=
  (Message.unsignedRequest.setMessageSignatures (entriesOf (soleKey ()) [(Message.methodParams, none)])).1

theorem signedRequest_signatures : signedRequest.extractSignatures =
    .ok (.ofList [("sig".toList, (Message.methodBase, ⟨"sig".toList, [2], Message.methodParams⟩))]) := by
  decide

theorem emittedBases_unsignedRequest :
    emittedBases Message.unsignedRequest (entriesOf (soleKey ()) [(Message.methodParams, none)]) = [Message.methodBase] := by
  decide

def signedRequestEvent : NetworkEvent Unit Unit Unit := .sign () Message.unsignedRequest [(Message.methodParams, none)]

theorem signedRequest_run : (network soleKey soleKey).Run ⟨[], 7⟩
    ([signedRequestEvent] ++ .receive signedRequest [((), none)] [.ok "sig".toList] :: []) ⟨[((), Message.methodBase)], 7⟩ := by
  have hunforged : Unforged soleKey ⟨[((), Message.methodBase)], 7⟩ signedRequest := by
    intro map hm e he a _
    rw [signedRequest_signatures] at hm
    cases hm
    obtain rfl := List.mem_singleton.mp he
    exact ⟨Message.methodBase, List.mem_singleton.mpr rfl, rfl⟩
  have hsign : NetworkStep soleKey soleKey ⟨[], 7⟩ signedRequestEvent
      ⟨(emittedBases Message.unsignedRequest (entriesOf (soleKey ()) [(Message.methodParams, none)])).map (Prod.mk ()), 7⟩ :=
    .sign () Message.unsignedRequest [(Message.methodParams, none)]
  rw [emittedBases_unsignedRequest] at hsign
  exact .cons hsign (.single (.receive hunforged (by decide)))

theorem signedRequest_accepted : ∃ m₀ list base x,
    .sign () m₀ list ∈ [signedRequestEvent] ∧ base ∈ emittedBases m₀ (entriesOf (soleKey ()) list) ∧
    statementOf signedRequest "sig".toList = some x ∧ base.statement = x ∧
    ∃ u, (network soleKey soleKey).Run ⟨[], 7⟩ [signedRequestEvent] u ∧ x.InTime u.now :=
  signed_of_accepted signedRequest_run rfl (List.mem_singleton.mpr rfl)

end HttpSig
