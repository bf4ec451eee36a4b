import HttpSig.Message

/-! Reading the signature headers of a message: which header pairs are accepted, what each label then holds,
and when the reading panics. -/

namespace HttpSig
open Rust Sfv Http

/-! ### A pair of dictionaries -/

/-- The checks on the two dictionaries before any member is converted. -/
structure Paired (input signature : Dictionary) : Prop where
  length_eq : signature.length = input.length
  keys_subset : ∀ k ∈ signature.keys, k ∈ input.keys
  byteSequence : ∀ v ∈ signature.values, isByteSequence v = true
  innerList : ∀ v ∈ input.values, isInnerList v = true

/-- The bytes stored under a label. -/
def signatureBytes (signature : Dictionary) (k : Key) : Bytes :=
  match signature.get? k with
  | some (.item ⟨.byteSequence bs, _⟩) => bs
  | _ => []

section
variable {input signature : Dictionary}

/-- As many labels on both sides, so a label of one is a label of the other. -/
theorem Paired.mem_keys_iff (h : Paired input signature) {k : Key} : k ∈ signature.keys ↔ k ∈ input.keys := by
  have hsub : signature.keys.Subperm input.keys := List.subperm_of_subset signature.keys_nodup h.keys_subset
  have hlen : input.keys.length ≤ signature.keys.length := by
    rw [IndexMap.length_keys, IndexMap.length_keys, h.length_eq]
  exact (hsub.perm_of_length_le hlen).mem_iff

theorem Paired.exists_byteSequence (h : Paired input signature) {k : Key} (hk : k ∈ input.keys) :
    ∃ bs ps, signature.get? k = some (.item ⟨.byteSequence bs, ps⟩) := by
  obtain ⟨v, hv⟩ := IndexMap.mem_keys.mp (h.mem_keys_iff.mpr hk)
  have hb := h.byteSequence v (List.mem_map.mpr ⟨_, IndexMap.get?_eq_some.mp hv, rfl⟩)
  unfold isByteSequence at hb
  split at hb
  · exact ⟨_, _, hv⟩
  · cases hb

namespace HttpSignatureHeaders

/-- What a member of the pair is read as. -/
def ReadsEntry (signature : Dictionary) (e : Key × ListEntry) (r : Text × HttpSignatureHeaders) : Prop :=
  ∃ p, HttpSignatureParams.tryFrom e.2 = .ok p ∧ r = (e.1.text, ⟨e.1.text, signatureBytes signature e.1, p⟩)

/-- A label of the pair always has its bytes: only the conversion of the member can fail. -/
theorem readMember_eq (h : Paired input signature) {e : Key × ListEntry} (he : e ∈ input.entries) :
    readMember signature e.1 e.2 =
      (fun p => (e.1.text, ⟨e.1.text, signatureBytes signature e.1, p⟩)) <$> HttpSignatureParams.tryFrom e.2 := by
  obtain ⟨bs, ps, hget⟩ := h.exists_byteSequence (List.mem_map.mpr ⟨e, he, rfl⟩)
  rw [readMember, signatureBytes, hget]
  cases HttpSignatureParams.tryFrom e.2 <;> rfl

/-- The entries read keep the labels, so no two of them collide. -/
theorem map_fst_of_readsEntry {l : List (Key × ListEntry)} {rs : List (Text × HttpSignatureHeaders)}
    (h : List.Forall₂ (ReadsEntry signature) l rs) : rs.map Prod.fst = l.map fun e => e.1.text := by
  induction h with
  | nil => rfl
  | cons h _ ih =>
    obtain ⟨p, -, rfl⟩ := h
    rw [List.map_cons, List.map_cons, ih]

theorem nodup_labels (input : Dictionary) : (input.entries.map fun e => e.1.text).Nodup := by
  have h := input.nodup.map (f := Key.text) fun _ _ => Key.ext
  rwa [List.map_map] at h

/-- The members of a pair, read in the order of the inputs. -/
theorem mapM_readMember (h : Paired input signature) {rs : List (Text × HttpSignatureHeaders)} :
    (input.entries.mapM fun e => readMember signature e.1 e.2) = .ok rs ↔
      List.Forall₂ (ReadsEntry signature) input.entries rs := by
  have hiff : ∀ (e : Key × ListEntry) (r : Text × HttpSignatureHeaders),
      ((fun p => (e.1.text, ⟨e.1.text, signatureBytes signature e.1, p⟩)) <$> HttpSignatureParams.tryFrom e.2 =
        Outcome.ok r) = ReadsEntry signature e r := by
    intro e r
    rw [Outcome.map_eq_ok, ReadsEntry]
    simp only [eq_comm]
  rw [Outcome.mapM_congr fun e he => readMember_eq h he, Outcome.mapM_eq_ok]
  simp only [hiff]

/-! ### Parsing the two texts -/

/-- The dictionaries of the two texts, when the checks let them through. -/
def Parses (s i : Text) (input signature : Dictionary) : Prop :=
  parseDictionaryField i = some input ∧ parseDictionaryField s = some signature ∧ Paired input signature

theorem tryParse_of_parses {s i : Text} (h : Parses s i input signature) : tryParse s i =
    IndexMap.ofList <$> input.entries.mapM fun e => readMember signature e.1 e.2 := by
  obtain ⟨hi, hs, hp⟩ := h
  have hk : signature.keys.all input.containsKey = true := by
    rw [List.all_eq_true]
    exact fun k hk => IndexMap.containsKey_iff.mpr (hp.keys_subset k hk)
  rw [tryParse, hi, hs, Outcome.okOr_some, Outcome.okOr_some, Outcome.ok_bind, Outcome.ok_bind,
    if_neg (not_not_intro hp.length_eq), hk, List.all_eq_true.mpr hp.byteSequence, List.all_eq_true.mpr hp.innerList]
  rfl

theorem tryParse_of_not_parses {s i : Text} (h : ∀ input signature, ¬ Parses s i input signature) :
    ∃ e, tryParse s i = .err e := by
  unfold tryParse
  cases hi : parseDictionaryField i with
  | none => exact ⟨_, rfl⟩
  | some input =>
    cases hs : parseDictionaryField s with
    | none => exact ⟨_, rfl⟩
    | some signature =>
      rw [Outcome.okOr_some, Outcome.okOr_some, Outcome.ok_bind, Outcome.ok_bind]
      split
      · exact ⟨_, rfl⟩
      · rename_i hlen
        split
        · exact ⟨_, rfl⟩
        · rename_i hk
          split
          · exact ⟨_, rfl⟩
          · rename_i hb
            split
            · exact ⟨_, rfl⟩
            · rename_i hl
              rw [Bool.not_eq_true', Bool.not_eq_false] at hk hb hl
              refine absurd ⟨hi, hs, not_not.mp hlen, ?_, List.all_eq_true.mp hb, List.all_eq_true.mp hl⟩
                (h input signature)
              exact fun k hk' => IndexMap.containsKey_iff.mp (List.all_eq_true.mp hk k hk')

theorem tryParse_eq_ok {s i : Text} {map : HttpSignatureHeadersMap} : tryParse s i = .ok map ↔
    ∃ input signature, Parses s i input signature ∧ List.Forall₂ (ReadsEntry signature) input.entries map.entries := by
  constructor
  · intro h
    by_cases hp : ∃ input signature, Parses s i input signature
    · obtain ⟨input, signature, hp⟩ := hp
      rw [tryParse_of_parses hp, Outcome.map_eq_ok] at h
      obtain ⟨rs, hrs, rfl⟩ := h
      rw [mapM_readMember hp.2.2] at hrs
      have hnd : (rs.map Prod.fst).Nodup := by
        rw [map_fst_of_readsEntry hrs]
        exact nodup_labels input
      exact ⟨input, signature, hp, by rwa [IndexMap.entries_ofList hnd]⟩
    · obtain ⟨e, he⟩ := tryParse_of_not_parses fun input signature h => hp ⟨input, signature, h⟩
      rw [he] at h
      cases h
  · rintro ⟨input, signature, hp, hrs⟩
    rw [tryParse_of_parses hp, (mapM_readMember hp.2.2).mpr hrs, Outcome.map_ok, IndexMap.ofList_entries]

/-- Reading panics when a member's conversion does and every member before it converts. -/
theorem tryParse_eq_panic {s i : Text} : tryParse s i = .panic ↔ ∃ input signature, Parses s i input signature ∧
    ∃ l₁ e l₂, input.entries = l₁ ++ e :: l₂ ∧ (∀ x ∈ l₁, ∃ p, HttpSignatureParams.tryFrom x.2 = .ok p) ∧
      HttpSignatureParams.tryFrom e.2 = .panic := by
  have key : ∀ {input signature : Dictionary}, Parses s i input signature → (tryParse s i = .panic ↔
      ∃ l₁ e l₂, input.entries = l₁ ++ e :: l₂ ∧ (∀ x ∈ l₁, ∃ p, HttpSignatureParams.tryFrom x.2 = .ok p) ∧
        HttpSignatureParams.tryFrom e.2 = .panic) := by
    intro input signature hp
    rw [tryParse_of_parses hp, Outcome.map_eq_panic, Outcome.mapM_eq_panic]
    refine exists_congr fun l₁ => exists_congr fun e => exists_congr fun l₂ => and_congr_right fun hl => ?_
    have hmem : ∀ x ∈ l₁ ++ e :: l₂, x ∈ input.entries := fun x hx => hl ▸ hx
    rw [readMember_eq hp.2.2 (hmem e (by simp)), Outcome.map_eq_panic]
    refine and_congr_left fun _ => forall₂_congr fun x hx => ?_
    rw [readMember_eq hp.2.2 (hmem x (by simp [hx]))]
    simp [Outcome.map_eq_ok]
  constructor
  · intro h
    by_cases hp : ∃ input signature, Parses s i input signature
    · obtain ⟨input, signature, hp⟩ := hp
      exact ⟨input, signature, hp, (key hp).mp h⟩
    · obtain ⟨e, he⟩ := tryParse_of_not_parses fun input signature h => hp ⟨input, signature, h⟩
      rw [he] at h
      cases h
  · rintro ⟨input, signature, hp, h⟩
    exact (key hp).mpr h

end HttpSignatureHeaders
end

/-! ### The header lines of a message -/

/-- The lines of a field as one text, when all of them are visible ASCII. -/
def fieldText (headers : HeaderMap) (name : Text) : Option Text :=
  ((headers.getAll name).mapM HeaderValue.toStr).map (join ", ".toList)

theorem containsKey_eq (headers : HeaderMap) (name : Text) :
    headers.containsKey name = !(headers.getAll name).isEmpty := by
  rw [HeaderMap.containsKey, HeaderMap.getAll, List.isEmpty_map, Bool.eq_iff_iff, Bool.not_eq_true', List.any_eq_true,
    ← Bool.not_eq_true, List.isEmpty_iff, List.filter_eq_nil_iff]
  simp

/-- The signature headers of a message, when reading gets as far as their members. -/
structure SignatureFields (headers : HeaderMap) (input signature : Dictionary) : Prop where
  input_present : headers.containsKey signatureInputHeader = true
  signature_present : headers.containsKey signatureHeader = true
  input_parses : (fieldText headers signatureInputHeader).bind parseDictionaryField = some input
  signature_parses : (fieldText headers signatureHeader).bind parseDictionaryField = some signature
  paired : Paired input signature

theorem SignatureFields.unique {headers : HeaderMap} {input signature input' signature' : Dictionary}
    (h : SignatureFields headers input signature) (h' : SignatureFields headers input' signature') :
    input = input' ∧ signature = signature' :=
  ⟨Option.some.inj (h.input_parses.symm.trans h'.input_parses),
    Option.some.inj (h.signature_parses.symm.trans h'.signature_parses)⟩

theorem mapM_toStr (l : List HeaderValue) :
    l.mapM toStr = Outcome.okOr .failedToStrSignatureHeaders (l.mapM HeaderValue.toStr) := by
  induction l with
  | nil => rfl
  | cons v l ih =>
    rw [List.mapM_cons, List.mapM_cons, ih, toStr]
    cases v.toStr with
    | none => rfl
    | some s => cases l.mapM HeaderValue.toStr <;> rfl

section
variable {β : Type} {msg : RequestOrResponse β}

theorem extractSignatureHeadersWithName_eq (hi : msg.headers.containsKey signatureInputHeader = true)
    (hs : msg.headers.containsKey signatureHeader = true) : extractSignatureHeadersWithName msg = (do
      let i ← Outcome.okOr .failedToStrSignatureHeaders (fieldText msg.headers signatureInputHeader)
      let s ← Outcome.okOr .failedToStrSignatureHeaders (fieldText msg.headers signatureHeader)
      intoHyper (HttpSignatureHeaders.tryParse s i)) := by
  rw [extractSignatureHeadersWithName, hi, hs, mapM_toStr, mapM_toStr, fieldText, fieldText]
  cases (msg.headers.getAll signatureInputHeader).mapM HeaderValue.toStr with
  | none => rfl
  | some i => cases (msg.headers.getAll signatureHeader).mapM HeaderValue.toStr <;> rfl

/-- Reading depends on the two texts only, and is what parsing them gives. -/
theorem extractSignatureHeadersWithName_cases (msg : RequestOrResponse β) :
    (∃ s i, msg.headers.containsKey signatureInputHeader = true ∧ msg.headers.containsKey signatureHeader = true ∧
      fieldText msg.headers signatureInputHeader = some i ∧ fieldText msg.headers signatureHeader = some s ∧
      extractSignatureHeadersWithName msg = intoHyper (HttpSignatureHeaders.tryParse s i)) ∨
    ((∀ input signature, ¬ SignatureFields msg.headers input signature) ∧
      ∃ e, extractSignatureHeadersWithName msg = .err e) := by
  by_cases hc : msg.headers.containsKey signatureInputHeader = true ∧ msg.headers.containsKey signatureHeader = true
  · have heq := extractSignatureHeadersWithName_eq hc.1 hc.2
    cases hi : fieldText msg.headers signatureInputHeader with
    | none =>
      refine Or.inr ⟨fun input signature h => ?_, _, by rw [heq, hi]; rfl⟩
      have := h.input_parses
      rw [hi] at this
      cases this
    | some i =>
      cases hs : fieldText msg.headers signatureHeader with
      | none =>
        refine Or.inr ⟨fun input signature h => ?_, _, by rw [heq, hi, hs]; rfl⟩
        have := h.signature_parses
        rw [hs] at this
        cases this
      | some s => exact Or.inl ⟨s, i, hc.1, hc.2, rfl, rfl, by rw [heq, hi, hs]; rfl⟩
  · have hc' : (!(msg.headers.containsKey signatureInputHeader && msg.headers.containsKey signatureHeader)) = true := by
      rw [Bool.not_eq_true', ← Bool.not_eq_true, Bool.and_eq_true]
      exact hc
    exact Or.inr ⟨fun input signature h => hc ⟨h.input_present, h.signature_present⟩, _, if_pos hc'⟩

theorem signatureFields_iff {headers : HeaderMap} {s i : Text} {input signature : Dictionary}
    (hci : headers.containsKey signatureInputHeader = true) (hcs : headers.containsKey signatureHeader = true)
    (hi : fieldText headers signatureInputHeader = some i) (hs : fieldText headers signatureHeader = some s) :
    SignatureFields headers input signature ↔ HttpSignatureHeaders.Parses s i input signature := by
  constructor
  · rintro ⟨-, -, h₁, h₂, hp⟩
    rw [hi] at h₁
    rw [hs] at h₂
    exact ⟨h₁, h₂, hp⟩
  · rintro ⟨h₁, h₂, hp⟩
    exact ⟨hci, hcs, by rw [hi]; exact h₁, by rw [hs]; exact h₂, hp⟩

/-- What reading gives: one entry for each member of the inputs, in their order. -/
theorem extractSignatureHeadersWithName_eq_ok {map : HttpSignatureHeadersMap} :
    extractSignatureHeadersWithName msg = .ok map ↔ ∃ input signature, SignatureFields msg.headers input signature ∧
      List.Forall₂ (HttpSignatureHeaders.ReadsEntry signature) input.entries map.entries := by
  rcases extractSignatureHeadersWithName_cases msg with ⟨s, i, hci, hcs, hi, hs, h⟩ | ⟨hno, e, h⟩
  · rw [h, intoHyper_eq_ok, HttpSignatureHeaders.tryParse_eq_ok]
    simp only [signatureFields_iff hci hcs hi hs]
  · rw [h]
    simp [hno]

theorem extractSignatureHeadersWithName_eq_panic :
    extractSignatureHeadersWithName msg = .panic ↔ ∃ input signature, SignatureFields msg.headers input signature ∧
      ∃ l₁ e l₂, input.entries = l₁ ++ e :: l₂ ∧ (∀ x ∈ l₁, ∃ p, HttpSignatureParams.tryFrom x.2 = .ok p) ∧
        HttpSignatureParams.tryFrom e.2 = .panic := by
  rcases extractSignatureHeadersWithName_cases msg with ⟨s, i, hci, hcs, hi, hs, h⟩ | ⟨hno, e, h⟩
  · rw [h, intoHyper_eq_panic, HttpSignatureHeaders.tryParse_eq_panic]
    simp only [signatureFields_iff hci hcs hi hs]
  · rw [h]
    simp [hno]

end
end HttpSig
