import HttpSig.Systems.Ledger
import HttpSig.Theorems.Binding
import HttpSig.Theorems.Settled

/-! A message on its way through those who sign it and those who change it. Each signing call adds its signatures to
what the message holds, changes beside the covered components leave it alone, and at the end every signature is there
with the base it was made over: the message is a ledger of signatures. -/

namespace HttpSig
open Rust Sfv Http Systems

/-- A signature as a message holds it: its label, its base, and the parameters and bytes under the label. -/
abbrev HeldSignature := SignatureName × (HttpSignatureBase × HttpSignatureHeaders)

def HeldSignature.coveredComponents (e : HeldSignature) : List HttpMessageComponentId :=
  e.2.2.signatureParams.coveredComponents

/-- Every id that is covered is settled among the labels. -/
def AllSettled (labels : List Text) (es : List HeldSignature) : Prop :=
  ∀ e ∈ es, ∀ id ∈ e.coveredComponents, Settled labels id

/-- What signing makes of an entry of its list. -/
def Makes {β γ κ : Type} [SigningKey κ] (m : Message β γ) (e : HttpSignatureParams × κ × Option Text) (r : HeldSignature) : Prop :=
  ∃ base signature, m.signatureBase e.1 = .ok base ∧ SigningKey.sign e.2.1 base.asBytes = .ok signature ∧
    r = (labelOf e, (base, ⟨labelOf e, signature, e.1⟩))

namespace Message
variable {β γ : Type} {m m' : Message β γ} {es made : List HeldSignature}

/-- The signatures of a message, each with a base that can be built from it. -/
structure Holds (m : Message β γ) (es : List HeldSignature) : Prop where
  bears : m.Bears (es.map fun e => (e.1, e.2.2))
  base : ∀ e ∈ es, m.signatureBase e.2.2.signatureParams = .ok e.2.1

theorem holds_unsigned (hi : m.headers.containsKey signatureInputHeader = false)
    (hs : m.headers.containsKey signatureHeader = false) : m.Holds [] :=
  ⟨.unsigned hi hs, fun _ he => absurd he List.not_mem_nil⟩

/-- What a message holds is what is extracted from it. -/
theorem Holds.extractSignatures (h : m.Holds es) (hne : es ≠ []) :
    ∃ map, m.extractSignatures = .ok map ∧ map.entries = es := by
  obtain ⟨hbears, hbase⟩ := h
  generalize hl : es.map (fun e => (e.1, e.2.2)) = l at hbears
  cases hbears with
  | unsigned _ _ => exact absurd (List.map_eq_nil_iff.mp hl) hne
  | @signed map hm _ =>
    refine ⟨_, (extractSignatures_eq m).trans (extractSignaturesInner_of_ok hm), ?_⟩
    have hbuilt : ∀ e ∈ es, builtEntry m.message m.reqForParam (e.1, e.2.2) = some e := by
      intro e he
      have hb : buildSignatureBase m.message e.2.2.signatureParams m.reqForParam = .ok e.2.1 := hbase e he
      rw [builtEntry, hb]
      rfl
    have hall : map.entries.filterMap (builtEntry m.message m.reqForParam) = es := by
      rw [← hl, List.filterMap_map]
      exact (List.filterMap_congr hbuilt).trans (List.filterMap_some)
    exact hall

theorem Holds.nodup (h : m.Holds es) : (es.map Prod.fst).Nodup := by
  obtain ⟨hbears, -⟩ := h
  generalize hl : es.map (fun e => (e.1, e.2.2)) = l at hbears
  have hfst : es.map Prod.fst = l.map Prod.fst := by
    rw [← hl, List.map_map]
    rfl
  rw [hfst]
  cases hbears with
  | unsigned _ _ => exact List.nodup_nil
  | @signed map _ _ => exact map.nodup

/-! ### One hop -/

section
variable {κ : Type} [SigningKey κ] {list : List (HttpSignatureParams × κ × Option Text)}

theorem signedHeaders_of_makes (h : List.Forall₂ (Makes m) list made) :
    signedHeaders m.message list m.reqForParam = .ok (made.map fun e => e.2.2) := by
  rw [signedHeaders_eq_ok, List.forall₂_map_right_iff]
  refine h.imp ?_
  rintro e r ⟨base, signature, hbase, hsign, rfl⟩
  exact ⟨base, signature, hbase, hsign, rfl⟩

/-- A call that succeeds makes a signature for each entry. -/
theorem exists_makes (h : m.setMessageSignatures list = (m', .ok ())) : ∃ made, List.Forall₂ (Makes m) list made := by
  obtain ⟨hs, -, hsigned, -, -⟩ := setMessageSignatures_eq_ok.mp h
  have hsigns := signedHeaders_eq_ok.mp hsigned
  clear h hsigned
  induction hsigns with
  | nil => exact ⟨[], .nil⟩
  | @cons e x list hs hx _ ih =>
    obtain ⟨base, signature, hbase, hsign, rfl⟩ := hx
    obtain ⟨made, hmade⟩ := ih
    exact ⟨_, .cons ⟨base, signature, hbase, hsign, rfl⟩ hmade⟩

/-- What is made of a call that is admitted stands under new labels, and reads back. -/
theorem made_of_admits {labels : List Text} (hadm : Admits labels list) (hmade : List.Forall₂ (Makes m) list made) :
    ∀ x ∈ made.map (fun e => e.2.2), isKey x.signatureName = true ∧ x.signatureParams.ReadsBack ∧ x.signatureName ∉ labels := by
  intro x hx
  obtain ⟨r, hr, rfl⟩ := List.mem_map.mp hx
  obtain ⟨e, he, base, signature, -, -, rfl⟩ := Outcome.exists_of_mem_right hmade hr
  exact ⟨hadm.isKey e he, hadm.readsBack e he, hadm.fresh e he⟩

/-- A signing call adds what it makes to what was there. -/
theorem Holds.setMessageSignatures (h : m.Holds es) (hsettled : AllSettled (es.map Prod.fst) es)
    (hadm : Admits (es.map Prod.fst) list) (hlist : ∀ e ∈ list, ∀ id ∈ e.1.coveredComponents, Settled (es.map Prod.fst) id)
    (hset : m.setMessageSignatures list = (m', .ok ())) (hmade : List.Forall₂ (Makes m) list made) :
    m'.Holds (es ++ made) := by
  have hsigned := signedHeaders_of_makes hmade
  have hof : ∀ r ∈ made, ∃ e ∈ list, Makes m e r := fun r hr =>
    have ⟨e, he, hmakes⟩ := Outcome.exists_of_mem_right hmade hr
    ⟨e, he, hmakes⟩
  obtain ⟨hs, lines, hhs, hlines, rfl⟩ := setMessageSignatures_eq_ok.mp hset
  cases hsigned.symm.trans hhs
  have hname := made_of_admits hadm hmade
  have hbase : ∀ {p : HttpSignatureParams} {base : HttpSignatureBase},
      (∀ id ∈ p.coveredComponents, Settled (es.map Prod.fst) id) → m.signatureBase p = .ok base →
        (m.withHeaders (appendPairs m.headers lines)).signatureBase p = .ok base := fun hids hp =>
    signatureBase_appendPairs hlines (fun x hx => (hname x hx).1) (fun x hx => (hname x hx).2.1)
      (fun x hx => (hname x hx).2.2) hids hp
  constructor
  · have hlabels : (es.map fun e => (e.1, e.2.2)).map Prod.fst = es.map Prod.fst := by
      rw [List.map_map]
      rfl
    have hb := h.bears.setMessageSignatures (hlabels ▸ hadm) hset hsigned
    have hnamed : (made.map fun e => e.2.2).map named = made.map fun e => (e.1, e.2.2) := by
      rw [List.map_map]
      refine List.map_congr_left fun r hr => ?_
      obtain ⟨e, -, base, signature, -, -, rfl⟩ := hof r hr
      rfl
    rwa [hnamed, ← List.map_append] at hb
  · intro e he
    rcases List.mem_append.mp he with he | he
    · exact hbase (hsettled e he) (h.base e he)
    · obtain ⟨x, hx, base, signature, hp, -, rfl⟩ := hof e he
      exact hbase (hlist x hx) hp

end

/-- A change that leaves the signature fields and the covered components as they are. -/
structure Spares (m : Message β γ) (es : List HeldSignature) (m' : Message β γ) : Prop where
  kind : m.message.isRequest = m'.message.isRequest
  input : m.headers.getAll signatureInputHeader = m'.headers.getAll signatureInputHeader
  signature : m.headers.getAll signatureHeader = m'.headers.getAll signatureHeader
  covered : ∀ e ∈ es, ∀ id ∈ e.coveredComponents, m.Agree m' id

theorem Holds.spares (h : m.Holds es) (hs : m.Spares es m') : m'.Holds es := by
  obtain ⟨hbears, hbase⟩ := h
  refine ⟨?_, fun e he => ?_⟩
  · generalize hl : es.map (fun e => (e.1, e.2.2)) = l at hbears
    cases hbears with
    | unsigned hi hsig =>
      refine .unsigned ?_ ?_
      · rwa [containsKey_eq, ← hs.input, ← containsKey_eq]
      · rwa [containsKey_eq, ← hs.signature, ← containsKey_eq]
    | signed hm hne =>
      refine .signed ?_ hne
      rw [← hm]
      exact (extractSignatureHeadersWithName_congr hs.input hs.signature).symm
  · rw [← signatureBase_congr hs.kind (hs.covered e he)]
    exact hbase e he

/-- A message bears one list of signatures only. -/
theorem Bears.unique {l l' : List (Text × HttpSignatureHeaders)} (h : m.Bears l) (h' : m.Bears l') : l = l' := by
  have hno : ∀ {map : HttpSignatureHeadersMap}, m.headers.containsKey signatureInputHeader = false →
      extractSignatureHeadersWithName m.message ≠ .ok map := by
    intro map hi hm
    obtain ⟨input, signature, hf, -⟩ := extractSignatureHeadersWithName_iff.mp hm
    exact Bool.false_ne_true (hi.symm.trans hf.input_present)
  cases h with
  | unsigned hi _ =>
    cases h' with
    | unsigned _ _ => rfl
    | signed hm _ => exact absurd hm (hno hi)
  | signed hm _ =>
    cases h' with
    | unsigned hi _ => exact absurd hm (hno hi)
    | signed hm' _ => rw [Outcome.ok.inj (hm.symm.trans hm')]

/-! ### Runs -/

/-- A hop of the message: someone signs it, under labels that are new and over components that the labels in use do not
move, or someone changes it beside what is covered. -/
inductive Hop : Message β γ → List HeldSignature → Message β γ → Prop where
  | sign {κ : Type} [SigningKey κ] {m m' : Message β γ} {es made : List HeldSignature}
      {list : List (HttpSignatureParams × κ × Option Text)} (hes : m.Holds es) (hadm : Admits (es.map Prod.fst) list)
      (hlist : ∀ e ∈ list, ∀ id ∈ e.1.coveredComponents, Settled (es.map Prod.fst) id)
      (hset : m.setMessageSignatures list = (m', .ok ())) (hmade : List.Forall₂ (Makes m) list made) : Hop m made m'
  | change {m m' : Message β γ} {es : List HeldSignature} (hes : m.Holds es) (hs : m.Spares es m') : Hop m [] m'

/-- Messages that start without signatures. -/
def relay (β γ : Type) : System (Message β γ) (List HeldSignature) where
  init m := m.headers.containsKey signatureInputHeader = false ∧ m.headers.containsKey signatureHeader = false
  step := Hop

/-- A message holds one list of signatures only. -/
theorem Holds.unique {es' : List HeldSignature} (h : m.Holds es) (h' : m.Holds es') : es = es' := by
  obtain ⟨hbears, hbase⟩ := h
  obtain ⟨hbears', hbase'⟩ := h'
  have hmap := hbears.unique hbears'
  clear hbears hbears'
  induction es generalizing es' with
  | nil => exact (List.map_eq_nil_iff.mp hmap.symm).symm
  | cons e es ih =>
    obtain ⟨e', es', rfl, hhead, htail⟩ := List.map_eq_cons_iff.mp hmap.symm
    rw [List.forall_mem_cons] at hbase hbase'
    have hname := congrArg Prod.fst hhead
    have hheaders := congrArg Prod.snd hhead
    have hb : e.2.1 = e'.2.1 := by
      have h₁ := hbase.1
      have h₂ := hbase'.1
      rw [show e'.2.2 = e.2.2 from hheaders, h₁] at h₂
      exact Outcome.ok.inj h₂
    rw [ih hbase.2 hbase'.2 htail.symm]
    exact congrArg (· :: es') (Prod.ext hname.symm (Prod.ext hb hheaders.symm))

/-- The ledger of a message. -/
def LedgerOf (m : Message β γ) (L : Ledger SignatureName (HttpSignatureBase × HttpSignatureHeaders)) : Prop :=
  m.Holds L.entries ∧ AllSettled L.labels L.entries

theorem ledgerOf_step {L : Ledger SignatureName (HttpSignatureBase × HttpSignatureHeaders)} (h : LedgerOf m L)
    (hstep : Hop m made m') : ∃ L', Ledger.system.Run L [made] L' ∧ LedgerOf m' L' := by
  obtain ⟨hholds, hsettled⟩ := h
  cases hstep with
  | @sign κ _ _ _ es _ list hes hadm hlist hset hmade =>
    obtain rfl := hes.unique hholds
    have hholds' := hholds.setMessageSignatures hsettled hadm hlist hset hmade
    refine ⟨⟨L.entries ++ made, hholds'.nodup⟩, .single rfl, hholds', fun e he id hid => ?_⟩
    have hsub : ∀ k ∈ L.labels, k ∈ (L.entries ++ made).map Prod.fst := by
      intro k hk
      rw [List.map_append]
      exact List.mem_append_left _ hk
    rcases List.mem_append.mp he with he | he
    · exact (hsettled e he id hid).mono hsub
    · obtain ⟨x, hx, base, signature, -, -, rfl⟩ := Outcome.exists_of_mem_right hmade he
      exact (hlist x hx id hid).mono hsub
  | change hes hs =>
    obtain rfl := hes.unique hholds
    exact ⟨L, .single (List.append_nil _).symm, hholds.spares hs, hsettled⟩

/-- A message on its way is followed hop by hop by the ledger of its signatures. -/
def relaySimulation (β γ : Type) :
    Simulation (relay β γ) (Ledger.system : System (Ledger SignatureName (HttpSignatureBase × HttpSignatureHeaders)) _) where
  rel := LedgerOf
  shown made := [made]
  init _ hm := ⟨⟨[], List.nodup_nil⟩, rfl, holds_unsigned hm.1 hm.2, fun _ he => absurd he List.not_mem_nil⟩
  step _ _ _ _ h hstep := ledgerOf_step h hstep

/-- A key that accepts one of the signatures, and panics on none, verifies the message while that one is in time. -/
theorem Holds.verifyMessageSignature {κ : Type} [VerifyingKey κ] {key : κ} {keyId : Option Text} {now : UInt64}
    {e : HeldSignature} (h : m.Holds es) (he : e ∈ es)
    (hok : VerifyingKey.verify key e.2.1.asBytes e.2.2.signature = .ok ())
    (hno : ∀ x ∈ es, VerifyingKey.verify key x.2.1.asBytes x.2.2.signature ≠ .panic)
    (hkid : ∀ i ∈ keyId, e.2.2.signatureParams.keyid = some i) (htime : ∀ t ∈ e.2.2.signatureParams.expires, now ≤ t) :
    ∃ name ∈ es.map Prod.fst, m.verifyMessageSignature key keyId now = .ok name := by
  obtain ⟨map, hm, rfl⟩ := h.extractSignatures (List.ne_nil_of_mem he)
  have hsel : selects key keyId now e = true := by
    rw [selects, Bool.and_eq_true, verifySignatureHeaders_isOk, hasKeyId_iff, HttpSignatureBase.keyid,
      (buildSignatureBase_eq_ok.mp (h.base e he)).2]
    exact ⟨hkid, htime, hok⟩
  obtain ⟨x, hfind⟩ := Option.isSome_iff_exists.mp (List.find?_isSome.mpr ⟨e, he, hsel⟩)
  refine ⟨x.1, List.mem_map.mpr ⟨x, List.mem_of_find?_eq_some hfind, rfl⟩,
    verifyMessageSignature_eq_ok.mpr ⟨map, hm, verifyWithKey_of_find ?_ (by rw [hfind]; rfl)⟩⟩
  intro x hx _ hpanic
  rw [HttpSignatureBase.verifySignatureHeaders] at hpanic
  split at hpanic
  · cases hpanic
  · exact hno x hx hpanic

/-- At the end of its way a message holds what was made on it. -/
theorem holds_of_run {mades : List (List HeldSignature)} (hrun : (relay β γ).Run m mades m')
    (hi : m.headers.containsKey signatureInputHeader = false) (hs : m.headers.containsKey signatureHeader = false) :
    m'.Holds mades.flatten := by
  obtain ⟨L, L', hL, hledger, hholds, -⟩ := (relaySimulation β γ).exists_run hrun ⟨hi, hs⟩
  have hempty : L.entries = [] := hL
  have hshown : mades.flatMap (relaySimulation β γ).shown = mades := List.flatMap_singleton' mades
  rwa [Ledger.entries_of_run hledger, hempty, List.nil_append, hshown] at hholds

/-- Whatever hops a message without signatures takes, at the end it holds all the signatures that were made, in their
order, each with the base it was made over. All of them are extracted, and a key that accepts one verifies the message. -/
theorem signatures_of_relay {mades : List (List HeldSignature)} (hrun : (relay β γ).Run m mades m')
    (hi : m.headers.containsKey signatureInputHeader = false) (hs : m.headers.containsKey signatureHeader = false) :
    m'.Holds mades.flatten ∧
    (mades.flatten ≠ [] → ∃ map, m'.extractSignatures = .ok map ∧ map.entries = mades.flatten) ∧
    ∀ {κ : Type} [VerifyingKey κ] (key : κ) (keyId : Option Text) (now : UInt64), ∀ e ∈ mades.flatten,
      VerifyingKey.verify key e.2.1.asBytes e.2.2.signature = .ok () →
      (∀ x ∈ mades.flatten, VerifyingKey.verify key x.2.1.asBytes x.2.2.signature ≠ .panic) →
      (∀ i ∈ keyId, e.2.2.signatureParams.keyid = some i) → (∀ t ∈ e.2.2.signatureParams.expires, now ≤ t) →
        ∃ name ∈ mades.flatten.map Prod.fst, m'.verifyMessageSignature key keyId now = .ok name := by
  have hholds := holds_of_run hrun hi hs
  exact ⟨hholds, fun hne => hholds.extractSignatures hne,
    fun key keyId now e he hok hno hkid htime => hholds.verifyMessageSignature he hok hno hkid htime⟩

/-! ### A request through a proxy -/

open scoped ByteKey

/-- Covers the method and the signature of the client. -/
def proxyParams : HttpSignatureParams :=
  .ofComponents [⟨.derived .method, ∅⟩, ⟨.httpField signatureHeader, .ofList [.key "sig".toList]⟩]

def clientCall : List (HttpSignatureParams × ByteKey × Option Text) := [(methodParams, ⟨2⟩, none)]

def proxyCall : List (HttpSignatureParams × ByteKey × Option Text) := [(proxyParams, ⟨3⟩, some "proxy".toList)]

def clientSigned : Message Unit Unit := (unsignedRequest.setMessageSignatures clientCall).1

def viaName : HeaderName := ⟨"via".toList, by decide⟩

def viaValue : HeaderValue := ⟨utf8Bytes "1.1 proxy".toList, by decide⟩

def passedOn : Message Unit Unit := clientSigned.withHeaders (clientSigned.headers.append viaName viaValue)

def proxySigned : Message Unit Unit := (passedOn.setMessageSignatures proxyCall).1

def proxyBase : HttpSignatureBase where
  componentLines := [⟨⟨.derived .method, ∅⟩, .string "GET".toList⟩,
    ⟨⟨.httpField signatureHeader, .ofList [.key "sig".toList]⟩, .string ":Ag==:".toList⟩]
  signatureParams := proxyParams
  length_eq := rfl
  ids_match := by decide

def clientSignature : HeldSignature := ("sig".toList, (methodBase, ⟨"sig".toList, [2], methodParams⟩))

def proxySignature : HeldSignature := ("proxy".toList, (proxyBase, ⟨"proxy".toList, [3], proxyParams⟩))

theorem proxySigned_run : (relay Unit Unit).Run unsignedRequest [[clientSignature], [], [proxySignature]] proxySigned := by
  have hmethod : ∀ labels, Settled labels ⟨.derived .method, ∅⟩ := by
    rintro labels ⟨-, name, hn, -⟩
    cases hn
  obtain ⟨hback, hback'⟩ : methodParams.ReadsBack ∧ proxyParams.ReadsBack := by
    unfold HttpSignatureParams.ReadsBack
    decide
  have hclient : Hop unsignedRequest [clientSignature] clientSigned := by
    have hadm : Admits (([] : List HeldSignature).map Prod.fst) clientCall :=
      ⟨by decide, List.forall_mem_singleton.mpr hback, by decide, by decide⟩
    have hmade : List.Forall₂ (Makes unsignedRequest) clientCall [clientSignature] :=
      .cons ⟨methodBase, [2], by decide, rfl, rfl⟩ .nil
    refine .sign (holds_unsigned (by decide) (by decide)) hadm ?_ (Prod.ext rfl (by decide)) hmade
    exact List.forall_mem_singleton.mpr (List.forall_mem_singleton.mpr (hmethod _))
  have hholds : ∀ {m : Message Unit Unit}, extractSignatureHeadersWithName m.message =
      .ok (.ofList [("sig".toList, ⟨"sig".toList, [2], methodParams⟩)]) → m.signatureBase methodParams = .ok methodBase →
        m.Holds [clientSignature] :=
    fun hm hbase => ⟨.signed hm (by decide), List.forall_mem_singleton.mpr hbase⟩
  have hchange : Hop clientSigned [] passedOn := by
    refine .change (hholds (by decide) (by decide)) ⟨rfl, by decide, by decide, ?_⟩
    have hagree : clientSigned.Agree passedOn ⟨.derived .method, ∅⟩ := (rfl : Outcome.ok _ = Outcome.ok _)
    exact List.forall_mem_singleton.mpr (List.forall_mem_singleton.mpr hagree)
  have hproxy : Hop passedOn [proxySignature] proxySigned := by
    have hadm : Admits ([clientSignature].map Prod.fst) proxyCall :=
      ⟨by decide, List.forall_mem_singleton.mpr hback', by decide, by decide⟩
    have hmade : List.Forall₂ (Makes passedOn) proxyCall [proxySignature] :=
      .cons ⟨proxyBase, [3], by decide, rfl, rfl⟩ .nil
    refine .sign (hholds (by decide) (by decide)) hadm ?_ (Prod.ext rfl (by decide)) hmade
    refine List.forall_mem_singleton.mpr (List.forall_mem_cons.mpr ⟨hmethod _, List.forall_mem_singleton.mpr ?_⟩)
    exact fun _ => ⟨"sig".toList, [], by decide, by decide⟩
  exact .cons hclient (.cons hchange (.single hproxy))

theorem proxySigned_holds : proxySigned.Holds [clientSignature, proxySignature] ∧
    ∃ name ∈ ["sig".toList, "proxy".toList], proxySigned.verifyMessageSignature (ByteKey.mk 2) none 0 = .ok name := by
  obtain ⟨hholds, -, hverify⟩ := signatures_of_relay proxySigned_run (by decide) (by decide)
  refine ⟨hholds, hverify (ByteKey.mk 2) none 0 clientSignature List.mem_cons_self rfl ?_ ?_ ?_⟩
  · decide
  · rintro i ⟨⟩
  · rintro t ⟨⟩

end Message
end HttpSig
