import HttpSig.Theorems.Signing
import HttpSig.Theorems.Verification

/-! Signing adds to the signatures of a message and loses none, as long as the labels are keys, differ from each
other and from those in use, and the parameters read back. -/

namespace HttpSig
open Rust Sfv Http

/-! ### The signatures that headers hold -/

/-- The signatures of header lines, in the order of `signature-input`; without any line there are none. -/
inductive HoldsSignatures (headers : HeaderMap) : List (Text × HttpSignatureHeaders) → Prop where
  | none (hi : headers.getAll signatureInputHeader = []) (hs : headers.getAll signatureHeader = []) :
      HoldsSignatures headers []
  | some {input signature : Dictionary} (hf : SignatureFields headers input signature) (hr : Readable input)
      (hne : input.entries ≠ []) : HoldsSignatures headers (input.entries.filterMap (readEntry signature))

/-- A header pair under its own name. -/
def named (h : HttpSignatureHeaders) : Text × HttpSignatureHeaders := (h.signatureName, h)

section
variable {headers : HeaderMap} {es : List (Text × HttpSignatureHeaders)}

/-- One more pair is one more signature, under a label that is not in use. -/
theorem HoldsSignatures.appendPair {v w : HeaderValue} {k : Key} {l : InnerList} {bytes : Bytes} {ps : Parameters}
    {p : HttpSignatureParams} (h : HoldsSignatures headers es) (hk : k.text ∉ es.map Prod.fst)
    (hv : Carries v k (.innerList l)) (hw : Carries w k (.item ⟨.byteSequence bytes, ps⟩))
    (hp : HttpSignatureParams.tryFrom (.innerList l) = .ok p) :
    HoldsSignatures (HttpSig.appendPair headers v w) (es ++ [named ⟨k.text, bytes, p⟩]) := by
  have hnew : ∀ {input signature : Dictionary}, Paired input signature → Readable input → k ∉ input.keys →
      SignatureFields (HttpSig.appendPair headers v w) (snoc input k (.innerList l))
        (snoc signature k (.item ⟨.byteSequence bytes, ps⟩)) →
      HoldsSignatures (HttpSig.appendPair headers v w)
        (input.entries.filterMap (readEntry signature) ++ [named ⟨k.text, bytes, p⟩]) := by
    intro input signature hpair hr hk hf
    have hne : (snoc input k (.innerList l)).entries ≠ [] := by
      rw [entries_snoc hk]
      simp
    have h := HoldsSignatures.some hf (hr.snoc hk hp) hne
    rwa [filterMap_readEntry_snoc hpair hk hp] at h
  cases h with
  | none hi hs => exact hnew paired_empty readable_empty List.not_mem_nil (signatureFields_single hi hs hv hw)
  | @some input signature hf hr hne =>
    have hk' : k ∉ input.keys := by
      intro hm
      rw [map_fst_filterMap_readEntry hr] at hk
      exact hk (List.mem_map.mpr ⟨k, hm, rfl⟩)
    exact hnew hf.paired hr hk' (hf.appendPair hne hk' hv hw)

/-- Several pairs are as many signatures. -/
theorem HoldsSignatures.appendPairs {hs : List HttpSignatureHeaders} {lines : List (HeaderValue × HeaderValue)}
    (hlines : List.Forall₂ HeaderLines hs lines) (h : HoldsSignatures headers es)
    (hkey : ∀ x ∈ hs, isKey x.signatureName = true) (hback : ∀ x ∈ hs, x.signatureParams.ReadsBack)
    (hnd : (hs.map HttpSignatureHeaders.signatureName).Nodup) (hfresh : ∀ x ∈ hs, x.signatureName ∉ es.map Prod.fst) :
    HoldsSignatures (HttpSig.appendPairs headers lines) (es ++ hs.map named) := by
  induction hlines generalizing headers es with
  | nil =>
    rw [List.map_nil, List.append_nil]
    exact h
  | @cons x l hs lines hl _ ih =>
    rw [List.forall_mem_cons] at hkey hback hfresh
    obtain ⟨hx, hnd⟩ := List.nodup_cons.mp hnd
    let k : Key := ⟨x.signatureName, hkey.1⟩
    obtain ⟨m, hm, hv⟩ := hl.carries_signatureInput (k := k) rfl hback.1
    have hstep := h.appendPair hfresh.1 hv (hl.carries_signature (k := k) rfl) hm
    have hrest : ∀ y ∈ hs, y.signatureName ∉ (es ++ [named x]).map Prod.fst := by
      intro y hy hmem
      rw [List.map_append, List.mem_append] at hmem
      rcases hmem with hmem | hmem
      · exact hfresh.2 y hy hmem
      · exact hx (List.mem_map.mpr ⟨y, hy, List.mem_singleton.mp hmem⟩)
    have := ih hstep hkey.2 hback.2 hnd hrest
    rw [List.append_assoc] at this
    exact this

end

/-! ### Calls -/

section
variable {κ : Type}

/-- The label a signature is made under. -/
def labelOf (e : HttpSignatureParams × κ × Option Text) : Text := e.2.2.getD defaultSignatureName

/-- What a call asks for: the parameters and the label of each signature. -/
def asked (list : List (HttpSignatureParams × κ × Option Text)) : List (HttpSignatureParams × Text) :=
  list.map fun e => (e.1, labelOf e)

/-- A call beside the labels in use: its own are keys, differ from them and from each other, and its parameters
read back. -/
structure Admits (labels : List Text) (list : List (HttpSignatureParams × κ × Option Text)) : Prop where
  isKey : ∀ e ∈ list, isKey (labelOf e) = true
  readsBack : ∀ e ∈ list, e.1.ReadsBack
  nodup : (list.map labelOf).Nodup
  fresh : ∀ e ∈ list, labelOf e ∉ labels

variable {β γ : Type} [SigningKey κ] {msg : RequestOrResponse β} {reqForParam : Option (Request γ)}

/-- What is made is what was asked for. -/
theorem asked_of_signedHeaders {list : List (HttpSignatureParams × κ × Option Text)} {made : List HttpSignatureHeaders}
    (h : signedHeaders msg list reqForParam = .ok made) :
    made.map (fun x => (x.signatureParams, x.signatureName)) = asked list := by
  rw [asked, ← List.forall₂_eq_eq_eq, List.forall₂_map_left_iff, List.forall₂_map_right_iff]
  refine (signedHeaders_eq_ok.mp h).flip.imp fun x e hsigns => ?_
  obtain ⟨base, signature, -, -, rfl⟩ := hsigns
  rfl

end

namespace Message
variable {β γ : Type} {m m' : Message β γ} {es : List (Text × HttpSignatureHeaders)}

/-- The signatures that reading the message finds: none when it has neither header. -/
inductive Bears (m : Message β γ) : List (Text × HttpSignatureHeaders) → Prop where
  | unsigned (hi : m.headers.containsKey signatureInputHeader = false)
      (hs : m.headers.containsKey signatureHeader = false) : m.Bears []
  | signed {map : HttpSignatureHeadersMap} (h : extractSignatureHeadersWithName m.message = .ok map)
      (hne : map.entries ≠ []) : m.Bears map.entries

theorem bears_iff : m.Bears es ↔ HoldsSignatures m.headers es := by
  have hfst : ∀ {input signature : Dictionary}, Readable input →
      (input.entries.filterMap (readEntry signature) = [] ↔ input.entries = []) := by
    intro input signature hr
    rw [← List.map_eq_nil_iff (f := Prod.fst), map_fst_filterMap_readEntry hr, List.map_eq_nil_iff, IndexMap.keys,
      List.map_eq_nil_iff]
  constructor
  · rintro (⟨hi, hs⟩ | ⟨h, hne⟩)
    · rw [containsKey_eq, Bool.not_eq_false', List.isEmpty_iff] at hi hs
      exact .none hi hs
    · obtain ⟨input, signature, hf, hr, he⟩ := extractSignatureHeadersWithName_iff.mp h
      rw [he] at hne ⊢
      exact .some hf hr fun h => hne ((hfst hr).mpr h)
  · rintro (⟨hi, hs⟩ | @⟨input, signature, hf, hr, hne⟩)
    · refine .unsigned ?_ ?_
      · rw [containsKey_eq, hi]
        rfl
      · rw [containsKey_eq, hs]
        rfl
    · have hf : SignatureFields m.message.headers input signature := hf
      obtain ⟨map, h, he⟩ := extractSignatureHeadersWithName_of_readable hf hr
      rw [← he]
      exact .signed h fun hemp => hne ((hfst hr).mp (he ▸ hemp))

/-- One call keeps what was there and adds what it made. -/
theorem Bears.setMessageSignatures {κ : Type} [SigningKey κ] {list : List (HttpSignatureParams × κ × Option Text)}
    {made : List HttpSignatureHeaders} (h : m.Bears es) (hadm : Admits (es.map Prod.fst) list)
    (hset : m.setMessageSignatures list = (m', .ok ())) (hmade : signedHeaders m.message list m.reqForParam = .ok made) :
    m'.Bears (es ++ made.map named) := by
  obtain ⟨made', lines, hmade', hlines, rfl⟩ := setMessageSignatures_eq_ok.mp hset
  cases hmade.symm.trans hmade'
  have hasked := asked_of_signedHeaders hmade
  have hof : ∀ x ∈ made, ∃ e ∈ list, e.1 = x.signatureParams ∧ labelOf e = x.signatureName := by
    intro x hx
    have hmem : (x.signatureParams, x.signatureName) ∈ asked list := hasked ▸ List.mem_map.mpr ⟨x, hx, rfl⟩
    obtain ⟨e, he, heq⟩ := List.mem_map.mp hmem
    exact ⟨e, he, congrArg Prod.fst heq, congrArg Prod.snd heq⟩
  have hnames : made.map HttpSignatureHeaders.signatureName = list.map labelOf := by
    have := congrArg (List.map Prod.snd) hasked
    rwa [asked, List.map_map, List.map_map] at this
  rw [bears_iff] at h ⊢
  rw [headers_withHeaders]
  refine h.appendPairs hlines ?_ ?_ (hnames ▸ hadm.nodup) ?_
  · intro x hx
    obtain ⟨e, he, -, hn⟩ := hof x hx
    exact hn ▸ hadm.isKey e he
  · intro x hx
    obtain ⟨e, he, hp, -⟩ := hof x hx
    exact hp ▸ hadm.readsBack e he
  · intro x hx
    obtain ⟨e, he, -, hn⟩ := hof x hx
    exact hn ▸ hadm.fresh e he

/-! ### Runs -/

/-- Signing calls one after the other, each of which succeeds and fits the labels in use: the ones at the start and
those of the calls before. -/
inductive SigningRun : List Text → Message β γ → List (HttpSignatureParams × Text) → List HttpSignatureHeaders →
    Message β γ → Prop where
  | nil {labels : List Text} {m : Message β γ} : SigningRun labels m [] [] m
  | call {κ : Type} [SigningKey κ] {labels : List Text} {m m₁ m₂ : Message β γ}
      {list : List (HttpSignatureParams × κ × Option Text)} {rest : List (HttpSignatureParams × Text)}
      {made made' : List HttpSignatureHeaders} (hadm : Admits labels list)
      (hset : m.setMessageSignatures list = (m₁, .ok ())) (hmade : signedHeaders m.message list m.reqForParam = .ok made)
      (tail : SigningRun (labels ++ list.map labelOf) m₁ rest made' m₂) :
      SigningRun labels m (HttpSig.asked list ++ rest) (made ++ made') m₂

/-- No run loses a signature: what was there stays as it was, and every signature made is found behind it. -/
theorem bears_of_signingRun {asked : List (HttpSignatureParams × Text)} {made : List HttpSignatureHeaders}
    (h : m.Bears es) (hrun : SigningRun (es.map Prod.fst) m asked made m') :
    made.map (fun x => (x.signatureParams, x.signatureName)) = asked ∧ m'.Bears (es ++ made.map named) := by
  generalize hlabels : es.map Prod.fst = labels at hrun
  induction hrun generalizing es with
  | nil =>
    refine ⟨rfl, ?_⟩
    rw [List.map_nil, List.append_nil]
    exact h
  | @call κ _ labels m m₁ m₂ list rest made made' hadm hset hmade tail ih =>
    subst hlabels
    have hasked := asked_of_signedHeaders hmade
    have hnames : (es ++ made.map named).map Prod.fst = es.map Prod.fst ++ list.map labelOf := by
      have := congrArg (List.map Prod.snd) hasked
      rw [HttpSig.asked, List.map_map, List.map_map] at this
      rw [List.map_append, List.map_map]
      exact congrArg (es.map Prod.fst ++ ·) this
    obtain ⟨hrest, hbears⟩ := ih (h.setMessageSignatures hadm hset hmade) hnames
    rw [List.map_append, List.map_append, hasked, hrest, ← List.append_assoc]
    exact ⟨rfl, hbears⟩

/-! ### Runs of two calls, and calls that do not fit -/

open scoped ByteKey

def methodParams : HttpSignatureParams := .ofComponents [⟨.derived .method, ∅⟩]

def tagParams : HttpSignatureParams := { methodParams with tag := some "t".toList }

def twiceSignedEntries : HttpSignatureHeadersMap := .ofList [
  ("a".toList, ⟨"a".toList, [0], { methodParams with keyid := some "k".toList }⟩),
  ("b".toList, ⟨"b".toList, [1], .ofComponents []⟩)]

def firstCall : List (HttpSignatureParams × ByteKey × Option Text) :=
  [(methodParams, ⟨2⟩, none), (tagParams, ⟨3⟩, some "c".toList)]

def secondCall : List (HttpSignatureParams × ByteKey × Option Text) := [(methodParams, ⟨4⟩, some "d".toList)]

def signedOnce : Message Unit Unit := (twiceSigned.setMessageSignatures firstCall).1

def signedAgain : Message Unit Unit := (signedOnce.setMessageSignatures secondCall).1

theorem signedAgain_bears : signedAgain.Bears (twiceSignedEntries.entries ++ [
    ("sig".toList, ⟨"sig".toList, [2], methodParams⟩), ("c".toList, ⟨"c".toList, [3], tagParams⟩),
    ("d".toList, ⟨"d".toList, [4], methodParams⟩)]) := by
  have hbears : twiceSigned.Bears twiceSignedEntries.entries := .signed (by decide) (by decide)
  obtain ⟨hmethod, htag⟩ : methodParams.ReadsBack ∧ tagParams.ReadsBack := by
    unfold HttpSignatureParams.ReadsBack
    decide
  have hfirst : Admits (twiceSignedEntries.entries.map Prod.fst) firstCall :=
    ⟨by decide, List.forall_mem_cons.mpr ⟨hmethod, List.forall_mem_singleton.mpr htag⟩, by decide, by decide⟩
  have hsecond : Admits (twiceSignedEntries.entries.map Prod.fst ++ firstCall.map labelOf) secondCall :=
    ⟨by decide, List.forall_mem_singleton.mpr hmethod, by decide, by decide⟩
  have hcalls : ((twiceSigned.setMessageSignatures firstCall).2 = .ok () ∧
      signedHeaders twiceSigned.message firstCall twiceSigned.reqForParam =
        .ok [⟨"sig".toList, [2], methodParams⟩, ⟨"c".toList, [3], tagParams⟩]) ∧
      (signedOnce.setMessageSignatures secondCall).2 = .ok () ∧
      signedHeaders signedOnce.message secondCall signedOnce.reqForParam = .ok [⟨"d".toList, [4], methodParams⟩] := by
    decide
  have hrun : SigningRun (twiceSignedEntries.entries.map Prod.fst) twiceSigned (asked firstCall ++ (asked secondCall ++ []))
      ([⟨"sig".toList, [2], methodParams⟩, ⟨"c".toList, [3], tagParams⟩] ++ ([⟨"d".toList, [4], methodParams⟩] ++ []))
      signedAgain :=
    .call hfirst (Prod.ext rfl hcalls.1.1) hcalls.1.2 (.call hsecond (Prod.ext rfl hcalls.2.1) hcalls.2.2 .nil)
  exact (bears_of_signingRun hbears hrun).2

/-- The labels that reading a message finds. -/
def foundLabels (m : Message Unit Unit) : Option (List Text) :=
  (extractSignatureHeadersWithName m.message).ok?.map IndexMap.keys

/-- The result of a call, and the labels found after it. -/
def labelsAfter (m : Message Unit Unit) (list : List (HttpSignatureParams × ByteKey × Option Text)) :
    HyperSigResult Unit × Option (List Text) :=
  ((m.setMessageSignatures list).2, foundLabels (m.setMessageSignatures list).1)

def unsignedRequest : Message Unit Unit := .request (getRequest [])

/-- A message whose two signature headers are there and empty. -/
def emptySigned : Message Unit Unit := .request (getRequest [(signatureInputHeader, []), (signatureHeader, [])])

/-- Signing succeeds and loses signatures: two without a name share one label, a label in use is overwritten, and a
label that is no key, a key id with a quote or an empty header before it leave headers that cannot be read. -/
theorem signing_loses :
    labelsAfter unsignedRequest [(methodParams, ⟨2⟩, none), (tagParams, ⟨3⟩, none)] = (.ok (), some ["sig".toList]) ∧
    labelsAfter twiceSigned [(methodParams, ⟨2⟩, some "a".toList)] = (.ok (), some ["a".toList, "b".toList]) ∧
    labelsAfter twiceSigned [(methodParams, ⟨2⟩, some "A".toList)] = (.ok (), none) ∧
    labelsAfter twiceSigned [({ methodParams with keyid := some ['"'] }, ⟨2⟩, some "c".toList)] = (.ok (), none) ∧
    foundLabels emptySigned = some [] ∧
    labelsAfter emptySigned [(methodParams, ⟨2⟩, some "c".toList)] = (.ok (), none) := by
  decide

end Message
end HttpSig
