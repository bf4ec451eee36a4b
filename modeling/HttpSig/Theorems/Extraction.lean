import HttpSig.Theorems.Components
import HttpSig.Theorems.Headers

/-! What is extracted from a message, label by label: the labels whose base can be built, each with its base,
its parameters and its bytes; and what one key makes of them. -/

namespace HttpSig
open Rust Sfv Http

/-! ### Reading every member -/

/-- The member under a label with the bytes of that label, when it converts. -/
def readEntry (signature : Dictionary) (e : Key × ListEntry) : Option (Text × HttpSignatureHeaders) :=
  (HttpSignatureParams.tryFrom e.2).ok?.map fun p => (e.1.text, ⟨e.1.text, signatureBytes signature e.1, p⟩)

/-- Every member converts. -/
def Readable (input : Dictionary) : Prop := ∀ e ∈ input.entries, ∃ p, HttpSignatureParams.tryFrom e.2 = .ok p

theorem readEntry_eq_some {signature : Dictionary} {e : Key × ListEntry} {r : Text × HttpSignatureHeaders} :
    readEntry signature e = some r ↔ HttpSignatureHeaders.ReadsEntry signature e r := by
  rw [readEntry, Option.map_eq_some_iff, HttpSignatureHeaders.ReadsEntry]
  refine exists_congr fun p => ?_
  rw [Outcome.ok?_eq_some, eq_comm (a := r)]

theorem forall₂_readsEntry {signature : Dictionary} {l : List (Key × ListEntry)} {rs : List (Text × HttpSignatureHeaders)} :
    List.Forall₂ (HttpSignatureHeaders.ReadsEntry signature) l rs ↔
      (∀ e ∈ l, ∃ p, HttpSignatureParams.tryFrom e.2 = .ok p) ∧ rs = l.filterMap (readEntry signature) := by
  induction l generalizing rs with
  | nil => simp
  | cons e l ih =>
    rw [List.forall_mem_cons, List.filterMap_cons]
    constructor
    · rintro (_ | ⟨h, hl⟩)
      rw [readEntry_eq_some.mpr h]
      obtain ⟨hall, rfl⟩ := ih.mp hl
      obtain ⟨p, hp, -⟩ := h
      exact ⟨⟨⟨p, hp⟩, hall⟩, rfl⟩
    · rintro ⟨⟨⟨p, hp⟩, hall⟩, rfl⟩
      have h : HttpSignatureHeaders.ReadsEntry signature e _ := ⟨p, hp, rfl⟩
      rw [readEntry_eq_some.mpr h]
      exact .cons h (ih.mpr ⟨hall, rfl⟩)

section
variable {β γ : Type} {msg : RequestOrResponse β} {reqForParam : Option (Request γ)}

/-- Reading the headers of a message succeeds when every member converts, and keeps them all. -/
theorem extractSignatureHeadersWithName_iff {map : HttpSignatureHeadersMap} :
    extractSignatureHeadersWithName msg = .ok map ↔ ∃ input signature, SignatureFields msg.headers input signature ∧
      Readable input ∧ map.entries = input.entries.filterMap (readEntry signature) := by
  simp only [extractSignatureHeadersWithName_eq_ok, forall₂_readsEntry, Readable]

theorem map_fst_filterMap_readEntry {input signature : Dictionary} (hr : Readable input) :
    (input.entries.filterMap (readEntry signature)).map Prod.fst = input.keys.map Key.text := by
  rw [HttpSignatureHeaders.map_fst_of_readsEntry (forall₂_readsEntry.mpr ⟨hr, rfl⟩), IndexMap.keys, List.map_map]
  rfl

/-- Headers whose members all convert are read. -/
theorem extractSignatureHeadersWithName_of_readable {input signature : Dictionary}
    (hf : SignatureFields msg.headers input signature) (hr : Readable input) :
    ∃ map, extractSignatureHeadersWithName msg = .ok map ∧ map.entries = input.entries.filterMap (readEntry signature) := by
  have hnd : ((input.entries.filterMap (readEntry signature)).map Prod.fst).Nodup := by
    rw [map_fst_filterMap_readEntry hr]
    exact input.keys_nodup.map fun _ _ h => Key.ext h
  exact ⟨⟨_, hnd⟩, extractSignatureHeadersWithName_iff.mpr ⟨input, signature, hf, hr, rfl⟩, rfl⟩

/-! ### Building the bases -/

/-- A label with its base, when the base can be built. -/
def builtEntry (msg : RequestOrResponse β) (reqForParam : Option (Request γ)) (e : SignatureName × HttpSignatureHeaders) :
    Option (SignatureName × (HttpSignatureBase × HttpSignatureHeaders)) :=
  (buildSignatureBase msg e.2.signatureParams reqForParam).ok?.map fun base => (e.1, (base, e.2))

theorem extractEntry_eq (e : SignatureName × HttpSignatureHeaders) :
    extractEntry msg reqForParam e = .ok (builtEntry msg reqForParam e) := by
  have h : buildSignatureBase msg e.2.signatureParams reqForParam ≠ .panic := buildSignatureBase_ne_panic
  rw [extractEntry, builtEntry]
  cases hb : buildSignatureBase msg e.2.signatureParams reqForParam with
  | panic => exact absurd hb h
  | _ => rfl

theorem builtEntry_fst {e : SignatureName × HttpSignatureHeaders} {r : SignatureName × (HttpSignatureBase × HttpSignatureHeaders)}
    (h : builtEntry msg reqForParam e = some r) : r.1 = e.1 := by
  obtain ⟨base, -, rfl⟩ := Option.map_eq_some_iff.mp h
  rfl

theorem nodup_builtEntries (map : HttpSignatureHeadersMap) :
    ((map.entries.filterMap (builtEntry msg reqForParam)).map Prod.fst).Nodup := by
  refine (List.Sublist.nodup ?_ map.nodup)
  induction map.entries with
  | nil => simp
  | cons e l ih =>
    rw [List.filterMap_cons]
    split
    · exact ih.trans (List.sublist_cons_self ..)
    · rename_i r hr
      rw [List.map_cons, List.map_cons, builtEntry_fst hr]
      exact ih.cons_cons _

/-- Once the headers are read, extracting drops the labels without a base and nothing else. -/
theorem extractSignaturesInner_of_ok {map : HttpSignatureHeadersMap}
    (h : extractSignatureHeadersWithName msg = .ok map) : extractSignaturesInner msg reqForParam =
      .ok ⟨map.entries.filterMap (builtEntry msg reqForParam), nodup_builtEntries map⟩ := by
  rw [extractSignaturesInner, h, Outcome.ok_bind, Outcome.mapM_eq_ok_of_forall fun e _ => extractEntry_eq e,
    Outcome.ok_bind, Outcome.ok.injEq, List.filterMap_map]
  exact IndexMap.ext (IndexMap.entries_ofList (nodup_builtEntries map))

/-- The member under a label as it is extracted. -/
def extractedEntry (msg : RequestOrResponse β) (reqForParam : Option (Request γ)) (signature : Dictionary)
    (e : Key × ListEntry) : Option (SignatureName × (HttpSignatureBase × HttpSignatureHeaders)) :=
  (readEntry signature e).bind (builtEntry msg reqForParam)

theorem extractedEntry_eq_some {signature : Dictionary} {e : Key × ListEntry}
    {r : SignatureName × (HttpSignatureBase × HttpSignatureHeaders)} :
    extractedEntry msg reqForParam signature e = some r ↔ ∃ p base, HttpSignatureParams.tryFrom e.2 = .ok p ∧
      buildSignatureBase msg p reqForParam = .ok base ∧
      r = (e.1.text, (base, ⟨e.1.text, signatureBytes signature e.1, p⟩)) := by
  rw [extractedEntry, Option.bind_eq_some_iff]
  constructor
  · rintro ⟨r', hr', hb⟩
    obtain ⟨p, hp, rfl⟩ := readEntry_eq_some.mp hr'
    obtain ⟨base, hbase, rfl⟩ := Option.map_eq_some_iff.mp hb
    exact ⟨p, base, hp, Outcome.ok?_eq_some.mp hbase, rfl⟩
  · rintro ⟨p, base, hp, hbase, rfl⟩
    exact ⟨_, readEntry_eq_some.mpr ⟨p, hp, rfl⟩,
      Option.map_eq_some_iff.mpr ⟨base, Outcome.ok?_eq_some.mpr hbase, rfl⟩⟩

/-- Headers whose members all convert are extracted. -/
theorem extractSignaturesInner_of_readable (reqForParam : Option (Request γ)) {input signature : Dictionary}
    (hf : SignatureFields msg.headers input signature) (hr : Readable input) : ∃ map, extractSignaturesInner msg reqForParam = .ok map ∧
      map.entries = input.entries.filterMap (extractedEntry msg reqForParam signature) := by
  obtain ⟨headersMap, hm, he⟩ := extractSignatureHeadersWithName_of_readable hf hr
  refine ⟨_, extractSignaturesInner_of_ok hm, ?_⟩
  show headersMap.entries.filterMap _ = _
  rw [he, List.filterMap_filterMap]
  rfl

/-- What extracting gives: the labels whose base can be built, in the order of the inputs. -/
theorem extractSignaturesInner_eq_ok {map : SignatureMap} : extractSignaturesInner msg reqForParam = .ok map ↔
    ∃ input signature, SignatureFields msg.headers input signature ∧ Readable input ∧
      map.entries = input.entries.filterMap (extractedEntry msg reqForParam signature) := by
  constructor
  · intro h
    obtain ⟨headersMap, hm, -⟩ := Outcome.bind_eq_ok.mp h
    obtain ⟨input, signature, hf, hr, -⟩ := extractSignatureHeadersWithName_iff.mp hm
    obtain ⟨map', h', he⟩ := extractSignaturesInner_of_readable reqForParam hf hr
    rw [h] at h'
    cases h'
    exact ⟨input, signature, hf, hr, he⟩
  · rintro ⟨input, signature, hf, hr, he⟩
    obtain ⟨map', h', he'⟩ := extractSignaturesInner_of_readable reqForParam hf hr
    rw [h', Outcome.ok.injEq]
    exact IndexMap.ext (he'.trans he.symm)

theorem extractSignaturesInner_eq_panic :
    extractSignaturesInner msg reqForParam = .panic ↔ extractSignatureHeadersWithName msg = .panic := by
  cases h : extractSignatureHeadersWithName msg with
  | ok map =>
    rw [extractSignaturesInner_of_ok h]
    simp
  | _ => simp [extractSignaturesInner, h]

theorem getAlgKeyIdsInner_eq_panic {rsaSignature : Bool} :
    getAlgKeyIdsInner rsaSignature msg = .panic ↔ extractSignatureHeadersWithName msg = .panic := by
  rw [getAlgKeyIdsInner, Outcome.bind_eq_panic, or_iff_left]
  rintro ⟨map, -, h⟩
  refine Outcome.bind_ne_panic (Outcome.mapM_ne_panic fun e _ => ?_) (fun _ _ => Outcome.ok_ne_panic _) h
  dsimp only
  split
  · exact Outcome.ok_ne_panic _
  · rename_i a _
    cases ha : AlgorithmName.fromStr rsaSignature a with
    | panic => exact absurd ha (AlgorithmName.fromStr_ne_panic rsaSignature a)
    | _ => exact Outcome.ok_ne_panic _

theorem getSignatureParamsInner_eq_panic :
    getSignatureParamsInner msg = .panic ↔ extractSignatureHeadersWithName msg = .panic := by
  rw [getSignatureParamsInner, Outcome.bind_eq_panic, or_iff_left]
  rintro ⟨map, -, h⟩
  exact Outcome.ok_ne_panic _ h

end

/-! ### What one key makes of the labels -/

section
variable {κ : Type} [VerifyingKey κ]

/-- Whether a label bears the key id that is asked for. -/
def hasKeyId (keyId : Option Text) (base : HttpSignatureBase) : Bool :=
  match keyId with
  | some k => base.keyid = some k
  | none => true

/-- A label that a key is asked about and accepts. -/
def selects (key : κ) (keyId : Option Text) (now : UInt64)
    (e : SignatureName × (HttpSignatureBase × HttpSignatureHeaders)) : Bool :=
  hasKeyId keyId e.2.1 && (e.2.1.verifySignatureHeaders key e.2.2 now).isOk

theorem filterKeyId_eq (map : SignatureMap) (keyId : Option Text) :
    filterKeyId map keyId = map.entries.filter fun e => hasKeyId keyId e.2.1 := by
  cases keyId with
  | none => simp [filterKeyId, hasKeyId]
  | some k => rfl

theorem acceptedName_eq_panic {key : κ} {now : UInt64} {e : SignatureName × (HttpSignatureBase × HttpSignatureHeaders)} :
    acceptedName key now e = .panic ↔ e.2.1.verifySignatureHeaders key e.2.2 now = .panic := by
  rw [acceptedName, Outcome.map_eq_panic]
  cases e.2.1.verifySignatureHeaders key e.2.2 now <;> simp

theorem acceptedName_ne_err {key : κ} {now : UInt64} (e : SignatureName × (HttpSignatureBase × HttpSignatureHeaders))
    (x : HyperSigError) : acceptedName key now e ≠ .err x := by
  rw [acceptedName]
  cases e.2.1.verifySignatureHeaders key e.2.2 now <;> exact nofun

theorem acceptedName_of_ne_panic {key : κ} {now : UInt64} {e : SignatureName × (HttpSignatureBase × HttpSignatureHeaders)}
    (h : e.2.1.verifySignatureHeaders key e.2.2 now ≠ .panic) :
    acceptedName key now e = .ok (if (e.2.1.verifySignatureHeaders key e.2.2 now).isOk then some e.1 else none) := by
  rw [acceptedName]
  cases hv : e.2.1.verifySignatureHeaders key e.2.2 now with
  | panic => exact absurd hv h
  | _ => rfl

/-- A key panics when it does on some label with the right key id, since it tries them all. -/
theorem verifyWithKey_eq_panic {map : SignatureMap} {now : UInt64} {key : κ} {keyId : Option Text} :
    verifyWithKey map now key keyId = .panic ↔ ∃ e ∈ map.entries, hasKeyId keyId e.2.1 = true ∧
      e.2.1.verifySignatureHeaders key e.2.2 now = .panic := by
  have hmem : ∀ e, e ∈ filterKeyId map keyId ↔ e ∈ map.entries ∧ hasKeyId keyId e.2.1 = true := by
    intro e
    rw [filterKeyId_eq, List.mem_filter]
  rw [verifyWithKey]
  split
  · rename_i h
    rw [List.isEmpty_iff] at h
    simp only [reduceCtorEq, false_iff, not_exists, not_and]
    intro e he hk _
    have := (hmem e).mpr ⟨he, hk⟩
    rw [h] at this
    cases this
  · rw [Outcome.bind_eq_panic, or_iff_left, Outcome.mapM_eq_panic_of_ne_err fun e _ => acceptedName_ne_err e]
    · simp only [hmem, and_assoc, acceptedName_eq_panic]
    · rintro ⟨names, -, h⟩
      split at h <;> cases h

theorem verifyWithKey_ne_err {map : SignatureMap} {now : UInt64} {k : κ × Option Text} (e : HyperSigError) :
    verifyWithKey map now k.1 k.2 ≠ .err e := by
  rw [verifyWithKey]
  split
  · nofun
  · intro h
    cases hn : (filterKeyId map k.2).mapM (acceptedName k.1 now) with
    | ok names =>
      rw [hn, Outcome.ok_bind] at h
      split at h <;> cases h
    | err x => exact Outcome.mapM_ne_err (fun e _ => acceptedName_ne_err e) x hn
    | panic =>
      rw [hn] at h
      cases h

theorem find?_selects (map : SignatureMap) (key : κ) (keyId : Option Text) (now : UInt64) :
    map.entries.find? (selects key keyId now) =
      (filterKeyId map keyId).find? fun e => (e.2.1.verifySignatureHeaders key e.2.2 now).isOk := by
  rw [filterKeyId_eq, List.find?_filter]
  refine congrArg (List.find? · map.entries) (funext fun e => ?_)
  rw [selects, Bool.decide_and, Bool.decide_eq_true, Bool.decide_eq_true]

/-- The first label that a key selects is its result. -/
theorem verifyWithKey_eq_ok {map : SignatureMap} {now : UInt64} {key : κ} {keyId : Option Text}
    {r : Except HyperSigError SignatureName} (h : verifyWithKey map now key keyId = .ok r) (name : SignatureName) :
    r = .ok name ↔ (map.entries.find? (selects key keyId now)).map Prod.fst = some name := by
  rw [find?_selects]
  rw [verifyWithKey] at h
  split at h
  · rename_i hemp
    rw [List.isEmpty_iff.mp hemp]
    cases h
    simp
  · obtain ⟨names, hn, h⟩ := Outcome.bind_eq_ok.mp h
    have hno : ∀ e ∈ filterKeyId map keyId, e.2.1.verifySignatureHeaders key e.2.2 now ≠ .panic := by
      intro e he hp
      have := (Outcome.mapM_eq_panic_of_ne_err fun e _ => acceptedName_ne_err e).mpr ⟨e, he, acceptedName_eq_panic.mpr hp⟩
      rw [hn] at this
      cases this
    rw [Outcome.mapM_eq_ok_of_forall fun e he => acceptedName_of_ne_panic (hno e he), Outcome.ok.injEq] at hn
    have hhead : (names.filterMap id).head? = ((filterKeyId map keyId).find? fun e =>
        (e.2.1.verifySignatureHeaders key e.2.2 now).isOk).map Prod.fst := by
      rw [← hn, List.filterMap_map, List.head?_filterMap]
      induction filterKeyId map keyId with
      | nil => rfl
      | cons e l ih =>
        rw [List.findSome?_cons, List.find?_cons, Function.comp_apply, id_eq]
        cases (e.2.1.verifySignatureHeaders key e.2.2 now).isOk
        · exact ih
        · rfl
    rw [IndexSet.head?_ofList, hhead] at h
    split at h
    · rename_i n hf
      cases h
      rw [hf]
      simp
    · rename_i hf
      cases h
      rw [hf]
      simp

/-- A key that panics on no label it is asked about hands out the first one it selects. -/
theorem verifyWithKey_of_find {map : SignatureMap} {key : κ} {keyId : Option Text} {now : UInt64} {name : SignatureName}
    (hno : ∀ e ∈ map.entries, hasKeyId keyId e.2.1 = true → e.2.1.verifySignatureHeaders key e.2.2 now ≠ .panic)
    (hfind : (map.entries.find? (selects key keyId now)).map Prod.fst = some name) :
    verifyWithKey map now key keyId = .ok (.ok name) := by
  cases hr : verifyWithKey map now key keyId with
  | ok r => rw [(verifyWithKey_eq_ok hr name).mpr hfind]
  | err e => exact absurd hr (verifyWithKey_ne_err (k := (key, keyId)) e)
  | panic =>
    obtain ⟨e, he, hk, hp⟩ := verifyWithKey_eq_panic.mp hr
    exact absurd hp (hno e he hk)

/-! ### Verifying a message -/

namespace Message
variable {β γ : Type} {m : Message β γ} {keyAndId : List (κ × Option Text)} {now : UInt64}

/-- What is extracted has both headers, so the check before extracting changes nothing but an error. -/
theorem hasMessageSignature_of_ne_err (h : ∀ e, m.extractSignatures ≠ .err e) :
    hasMessageSignatureInner m.message.headers = true := by
  by_contra hc
  rw [extractSignatures_eq, extractSignaturesInner, extractSignatureHeadersWithName, if_pos] at h
  · exact h _ rfl
  · rwa [Bool.not_eq_true', ← Bool.not_eq_true, Bool.and_comm]

theorem verifyMessageSignatures_of_ne_err (h : ∀ e, m.extractSignatures ≠ .err e) :
    m.verifyMessageSignatures keyAndId now =
      m.extractSignatures >>= fun map => verifyMessageSignaturesInner map keyAndId now := by
  rw [verifyMessageSignatures_eq, verifyMessageSignaturesOf, hasMessageSignature_of_ne_err h, extractSignatures_eq]
  rfl

theorem verifyMessageSignatures_of_ok {map : SignatureMap} (h : m.extractSignatures = .ok map) :
    m.verifyMessageSignatures keyAndId now = verifyMessageSignaturesInner map keyAndId now := by
  rw [verifyMessageSignatures_of_ne_err (by simp [h]), h, Outcome.ok_bind]

theorem verifyMessageSignatures_of_panic (h : m.extractSignatures = .panic) :
    m.verifyMessageSignatures keyAndId now = .panic := by
  rw [verifyMessageSignatures_of_ne_err (by simp [h]), h, Outcome.panic_bind]

theorem verifyMessageSignatures_of_err {e : HyperSigError} (h : m.extractSignatures = .err e) :
    ∃ e', m.verifyMessageSignatures keyAndId now = .err e' := by
  rw [verifyMessageSignatures_eq, verifyMessageSignaturesOf]
  rw [extractSignatures_eq] at h
  split
  · exact ⟨_, rfl⟩
  · rw [h]
    exact ⟨_, rfl⟩

theorem verifyMessageSignatures_eq_ok {results : List (Except HyperSigError SignatureName)} :
    m.verifyMessageSignatures keyAndId now = .ok results ↔ ∃ map, m.extractSignatures = .ok map ∧
      List.Forall₂ (fun k r => verifyWithKey map now k.1 k.2 = .ok r) keyAndId results := by
  cases h : m.extractSignatures with
  | ok map =>
    rw [verifyMessageSignatures_of_ok h, verifyMessageSignaturesInner, Outcome.mapM_eq_ok]
    simp
  | err e =>
    obtain ⟨e', he⟩ : ∃ e', m.verifyMessageSignatures keyAndId now = .err e' := verifyMessageSignatures_of_err h
    simp [he]
  | panic => simp [verifyMessageSignatures_of_panic h]

/-- Verifying panics when extracting does, or when some key does on a label it is asked about. -/
theorem verifyMessageSignatures_eq_panic : m.verifyMessageSignatures keyAndId now = .panic ↔
    m.extractSignatures = .panic ∨ ∃ map, m.extractSignatures = .ok map ∧ ∃ k ∈ keyAndId, ∃ e ∈ map.entries,
      hasKeyId k.2 e.2.1 = true ∧ e.2.1.verifySignatureHeaders k.1 e.2.2 now = .panic := by
  cases h : m.extractSignatures with
  | ok map =>
    rw [verifyMessageSignatures_of_ok h, verifyMessageSignaturesInner,
      Outcome.mapM_eq_panic_of_ne_err fun k _ => verifyWithKey_ne_err]
    simp [verifyWithKey_eq_panic]
  | err e =>
    obtain ⟨e', he⟩ : ∃ e', m.verifyMessageSignatures keyAndId now = .err e' := verifyMessageSignatures_of_err h
    simp [he]
  | panic => simp [verifyMessageSignatures_of_panic h]

/-- The single call asks one key, and hands out its result. -/
theorem verifyMessageSignature_eq_panic {key : κ} {keyId : Option Text} :
    m.verifyMessageSignature key keyId now = .panic ↔ m.verifyMessageSignatures [(key, keyId)] now = .panic := by
  rw [verifyMessageSignature_eq, Outcome.bind_eq_panic, or_iff_left]
  rintro ⟨results, h, hp⟩
  obtain ⟨map, -, hall⟩ := verifyMessageSignatures_eq_ok.mp h
  obtain ⟨r, rfl⟩ := List.length_eq_one_iff.mp hall.length_eq.symm
  cases r <;> cases hp

/-- What a successful call of one key has found. -/
theorem verifyMessageSignature_eq_ok {key : κ} {keyId : Option Text} {name : SignatureName} :
    m.verifyMessageSignature key keyId now = .ok name ↔
      ∃ map, m.extractSignatures = .ok map ∧ verifyWithKey map now key keyId = .ok (.ok name) := by
  rw [verifyMessageSignature_eq, Outcome.bind_eq_ok]
  constructor
  · rintro ⟨results, h, hp⟩
    obtain ⟨map, hm, hall⟩ := verifyMessageSignatures_eq_ok.mp h
    obtain ⟨r, rfl⟩ := List.length_eq_one_iff.mp hall.length_eq.symm
    obtain ⟨hr, -⟩ := List.forall₂_cons.mp hall
    cases r <;> cases hp
    exact ⟨map, hm, hr⟩
  · rintro ⟨map, hm, hr⟩
    exact ⟨[.ok name], verifyMessageSignatures_eq_ok.mpr ⟨map, hm, .cons hr .nil⟩, rfl⟩

end Message
end
end HttpSig
