import HttpSig.Sfv.Combine
import HttpSig.Sfv.RoundTrip
import HttpSig.Theorems.Sources

/-! One more signature in the headers of a message: the dictionaries grow at their ends, and what else is read
of the message stays as it was. -/

namespace HttpSig
open Rust Sfv Http

/-! ### Lines -/

/-- A header line that holds a single member. -/
def Carries (v : HeaderValue) (k : Key) (e : ListEntry) : Prop :=
  ∃ t, v.toStr = some t ∧ parseDictionaryField t = some (IndexMap.ofList [(k, e)])

/-- The headers after one more signature, as signing appends it. -/
def appendPair (headers : HeaderMap) (v w : HeaderValue) : HeaderMap :=
  (headers.append signatureInputHeaderName v).append signatureHeaderName w

theorem getAll_append (headers : HeaderMap) (n : HeaderName) (v : HeaderValue) (name : Text) :
    (headers.append n v).getAll name = headers.getAll name ++ if n.text = toAsciiLowercase name then [v] else [] := by
  rw [HeaderMap.getAll, HeaderMap.append, List.filter_append, List.map_append]
  by_cases h : n.text = toAsciiLowercase name
  · simp [HeaderMap.getAll, h]
  · simp [HeaderMap.getAll, h]

theorem signatureHeader_ne : signatureHeader ≠ signatureInputHeader := by decide

section
variable {headers : HeaderMap} {v w : HeaderValue}

theorem getAll_appendPair_input :
    (appendPair headers v w).getAll signatureInputHeader = headers.getAll signatureInputHeader ++ [v] := by
  have hlow : toAsciiLowercase signatureInputHeader = signatureInputHeader := by decide
  rw [appendPair, getAll_append, getAll_append, signatureInputHeaderName_text, signatureHeaderName_text, hlow, if_pos rfl,
    if_neg signatureHeader_ne, List.append_nil]

theorem getAll_appendPair_signature :
    (appendPair headers v w).getAll signatureHeader = headers.getAll signatureHeader ++ [w] := by
  have hlow : toAsciiLowercase signatureHeader = signatureHeader := by decide
  rw [appendPair, getAll_append, getAll_append, signatureInputHeaderName_text, signatureHeaderName_text, hlow,
    if_neg signatureHeader_ne.symm, if_pos rfl, List.append_nil]

theorem getAll_appendPair_other {name : Text} (hi : toAsciiLowercase name ≠ signatureInputHeader)
    (hs : toAsciiLowercase name ≠ signatureHeader) : (appendPair headers v w).getAll name = headers.getAll name := by
  rw [appendPair, getAll_append, getAll_append, signatureInputHeaderName_text, signatureHeaderName_text,
    if_neg hi.symm, if_neg hs.symm, List.append_nil, List.append_nil]

/-! ### Fields -/

theorem mapM_toStr_append {l : List HeaderValue} {v : HeaderValue} {ss : List Text} {t : Text}
    (hl : l.mapM HeaderValue.toStr = some ss) (hv : v.toStr = some t) :
    (l ++ [v]).mapM HeaderValue.toStr = some (ss ++ [t]) := by
  rw [List.mapM_append, hl]
  simp [hv]

/-- One more line on a field that has some. -/
theorem fieldText_append {name : Text} {v : HeaderValue} {s t : Text} {headers' : HeaderMap}
    (hg : headers'.getAll name = headers.getAll name ++ [v]) (hne : headers.getAll name ≠ [])
    (hs : fieldText headers name = some s) (hv : v.toStr = some t) :
    fieldText headers' name = some (s ++ ',' :: ' ' :: t) := by
  obtain ⟨ss, hss, rfl⟩ := Option.map_eq_some_iff.mp hs
  have hne' : ss ≠ [] := by
    rintro rfl
    cases hl : headers.getAll name with
    | nil => exact hne hl
    | cons x l =>
      rw [hl, List.mapM_cons] at hss
      obtain ⟨a, -, hss⟩ := Option.bind_eq_some_iff.mp hss
      obtain ⟨b, -, hss⟩ := Option.bind_eq_some_iff.mp hss
      cases hss
  rw [fieldText, hg, mapM_toStr_append hss hv, Option.map_some, join_append_singleton hne']
  simp

/-- The first line of a field. -/
theorem fieldText_single {name : Text} {v : HeaderValue} {t : Text} {headers' : HeaderMap}
    (hg : headers'.getAll name = headers.getAll name ++ [v]) (hemp : headers.getAll name = []) (hv : v.toStr = some t) :
    fieldText headers' name = some t := by
  rw [fieldText, hg, hemp]
  simp [hv]

/-- A dictionary with one more member. -/
def snoc (d : Dictionary) (k : Key) (e : ListEntry) : Dictionary := d.extend [(k, e)]

theorem entries_snoc {d : Dictionary} {k : Key} {e : ListEntry} (hk : k ∉ d.keys) :
    (snoc d k e).entries = d.entries ++ [(k, e)] := by
  rw [snoc, IndexMap.extend_cons, IndexMap.extend_nil, IndexMap.entries_insert_of_notMem hk]

theorem get?_snoc_self {d : Dictionary} {k : Key} {e : ListEntry} (hk : k ∉ d.keys) : (snoc d k e).get? k = some e := by
  rw [IndexMap.get?_eq_some, entries_snoc hk]
  simp

theorem get?_snoc_of_ne {d : Dictionary} {k j : Key} {e : ListEntry} (hk : k ∉ d.keys) (hj : j ≠ k) :
    (snoc d k e).get? j = d.get? j := by
  ext a
  rw [IndexMap.get?_eq_some, IndexMap.get?_eq_some, entries_snoc hk]
  simp [hj]

theorem containsKey_of_getAll {headers : HeaderMap} {name : Text} (h : headers.getAll name ≠ []) :
    headers.containsKey name = true := by
  rw [containsKey_eq, Bool.not_eq_true', List.isEmpty_eq_false_iff]
  exact h

theorem getAll_of_containsKey {headers : HeaderMap} {name : Text} (h : headers.containsKey name = true) :
    headers.getAll name ≠ [] := by
  rwa [containsKey_eq, Bool.not_eq_true', List.isEmpty_eq_false_iff] at h

variable {input signature : Dictionary} {k : Key} {l : InnerList} {bytes : Bytes} {ps : Parameters}

theorem Paired.snoc (h : Paired input signature) (hk : k ∉ input.keys) :
    Paired (snoc input k (.innerList l)) (snoc signature k (.item ⟨.byteSequence bytes, ps⟩)) := by
  have hk' : k ∉ signature.keys := fun hm => hk (h.keys_subset k hm)
  have hmem : ∀ {d : Dictionary} {e : ListEntry} {j : Key}, k ∉ d.keys → (j ∈ (HttpSig.snoc d k e).keys ↔ j ∈ d.keys ∨ j = k) := by
    intro d e j hd
    rw [IndexMap.keys, entries_snoc hd, List.map_append, List.mem_append]
    simp [IndexMap.keys]
  refine ⟨?_, fun j hj => ?_, fun e he => ?_, fun e he => ?_⟩
  · rw [IndexMap.length, IndexMap.length, entries_snoc hk, entries_snoc hk', List.length_append, List.length_append]
    exact congrArg (· + 1) h.length_eq
  · rw [hmem hk'] at hj
    rw [hmem hk]
    exact hj.imp_left (h.keys_subset j)
  · rw [IndexMap.values, entries_snoc hk', List.map_append, List.mem_append] at he
    rcases he with he | he
    · exact h.byteSequence e he
    · rw [List.mem_singleton.mp he]
      rfl
  · rw [IndexMap.values, entries_snoc hk, List.map_append, List.mem_append] at he
    rcases he with he | he
    · exact h.innerList e he
    · rw [List.mem_singleton.mp he]
      rfl

theorem paired_empty : Paired (∅ : Dictionary) (∅ : Dictionary) :=
  ⟨rfl, fun _ h => h, fun _ h => absurd h List.not_mem_nil, fun _ h => absurd h List.not_mem_nil⟩

/-- One more pair on headers that hold some. -/
theorem SignatureFields.appendPair (h : SignatureFields headers input signature) (hne : input.entries ≠ [])
    (hk : k ∉ input.keys) (hv : Carries v k (.innerList l)) (hw : Carries w k (.item ⟨.byteSequence bytes, ps⟩)) :
    SignatureFields (appendPair headers v w) (snoc input k (.innerList l))
      (snoc signature k (.item ⟨.byteSequence bytes, ps⟩)) := by
  obtain ⟨t, ht, hpt⟩ := hv
  obtain ⟨u, hu, hpu⟩ := hw
  obtain ⟨s, hs, hps⟩ := Option.bind_eq_some_iff.mp h.input_parses
  obtain ⟨r, hr, hpr⟩ := Option.bind_eq_some_iff.mp h.signature_parses
  have hne' : signature.entries ≠ [] := by
    intro hemp
    have hlen := h.paired.length_eq
    rw [IndexMap.length, hemp, List.length_nil, IndexMap.length, eq_comm, List.length_eq_zero_iff] at hlen
    exact hne hlen
  have hsingle : ∀ {j : Key} {e : ListEntry}, (IndexMap.ofList [(j, e)]).entries ≠ [] := by
    intro j e
    rw [IndexMap.entries_ofList (by simp)]
    simp
  refine ⟨?_, ?_, ?_, ?_, h.paired.snoc hk⟩
  · exact containsKey_of_getAll (by rw [getAll_appendPair_input]; simp)
  · exact containsKey_of_getAll (by rw [getAll_appendPair_signature]; simp)
  · rw [fieldText_append getAll_appendPair_input (getAll_of_containsKey h.input_present) hs ht, Option.bind_some,
      parseDictionaryField_combine hps hpt hne hsingle, IndexMap.extend_entries_ofList]
    rfl
  · rw [fieldText_append getAll_appendPair_signature (getAll_of_containsKey h.signature_present) hr hu, Option.bind_some,
      parseDictionaryField_combine hpr hpu hne' hsingle, IndexMap.extend_entries_ofList]
    rfl

/-- The first pair of a message. -/
theorem signatureFields_single (hi : headers.getAll signatureInputHeader = []) (hs : headers.getAll signatureHeader = [])
    (hv : Carries v k (.innerList l)) (hw : Carries w k (.item ⟨.byteSequence bytes, ps⟩)) :
    SignatureFields (appendPair headers v w) (snoc ∅ k (.innerList l)) (snoc ∅ k (.item ⟨.byteSequence bytes, ps⟩)) := by
  obtain ⟨t, ht, hpt⟩ := hv
  obtain ⟨u, hu, hpu⟩ := hw
  refine ⟨?_, ?_, ?_, ?_, paired_empty.snoc List.not_mem_nil⟩
  · exact containsKey_of_getAll (by rw [getAll_appendPair_input]; simp)
  · exact containsKey_of_getAll (by rw [getAll_appendPair_signature]; simp)
  · rw [fieldText_single getAll_appendPair_input hi ht, Option.bind_some, hpt]
    rfl
  · rw [fieldText_single getAll_appendPair_signature hs hu, Option.bind_some, hpu]
    rfl

/-! ### Signatures -/

theorem signatureBytes_snoc_self (hk : k ∉ signature.keys) :
    signatureBytes (snoc signature k (.item ⟨.byteSequence bytes, ps⟩)) k = bytes := by
  rw [signatureBytes, get?_snoc_self hk]

theorem signatureBytes_snoc_of_ne {e : ListEntry} {j : Key} (hk : k ∉ signature.keys) (hj : j ≠ k) :
    signatureBytes (snoc signature k e) j = signatureBytes signature j := by
  rw [signatureBytes, signatureBytes, get?_snoc_of_ne hk hj]

theorem readable_empty : Readable ∅ := fun _ h => absurd h List.not_mem_nil

theorem Readable.snoc {p : HttpSignatureParams} (hr : Readable input) (hk : k ∉ input.keys)
    (hp : HttpSignatureParams.tryFrom (.innerList l) = .ok p) : Readable (snoc input k (.innerList l)) := by
  intro e he
  rw [entries_snoc hk, List.mem_append] at he
  rcases he with he | he
  · exact hr e he
  · rw [List.mem_singleton.mp he]
    exact ⟨p, hp⟩

/-- The labels that were there are read as before, and the new one is read at the end. -/
theorem filterMap_readEntry_snoc {p : HttpSignatureParams} (hpair : Paired input signature) (hk : k ∉ input.keys)
    (hp : HttpSignatureParams.tryFrom (.innerList l) = .ok p) :
    (snoc input k (.innerList l)).entries.filterMap (readEntry (snoc signature k (.item ⟨.byteSequence bytes, ps⟩))) =
      input.entries.filterMap (readEntry signature) ++ [(k.text, ⟨k.text, bytes, p⟩)] := by
  have hk' : k ∉ signature.keys := fun h => hk (hpair.keys_subset k h)
  have hold : ∀ e ∈ input.entries, readEntry (HttpSig.snoc signature k (.item ⟨.byteSequence bytes, ps⟩)) e =
      readEntry signature e := by
    intro e he
    rw [readEntry, readEntry, signatureBytes_snoc_of_ne hk' fun h => hk (h ▸ List.mem_map.mpr ⟨e, he, rfl⟩)]
  have hnew : readEntry (HttpSig.snoc signature k (.item ⟨.byteSequence bytes, ps⟩)) (k, .innerList l) =
      some (k.text, ⟨k.text, bytes, p⟩) := by
    refine readEntry_eq_some.mpr ⟨p, hp, ?_⟩
    rw [signatureBytes_snoc_self hk']
  rw [entries_snoc hk, List.filterMap_append, List.filterMap_congr hold, List.filterMap_cons, hnew]
  rfl

end

/-! ### What else is read of the message -/

/-- An id that is read from the signature fields of the message itself. -/
def ReadsSignatureField (id : HttpMessageComponentId) : Prop :=
  HttpMessageComponentParams.hasReq id.params = false ∧ ∃ name, id.name = .httpField name ∧
    (toAsciiLowercase name = signatureHeader ∨ toAsciiLowercase name = signatureInputHeader)

/-- Only the first line of `signature-input` counts for `@signature-params`. -/
theorem buildDerivedComponent_first {id : HttpMessageComponentId} (hn : id.name = .derived .signatureParams) (first : Text)
    (rest rest' : List Text) : buildDerivedComponent id (first :: rest) = buildDerivedComponent id (first :: rest') := by
  unfold buildDerivedComponent
  rw [hn]
  rfl

namespace Message
variable {β γ : Type} {m : Message β γ} {v w : HeaderValue} {id : HttpMessageComponentId} {p : HttpSignatureParams}

theorem isRequest_withHeaders (m : Message β γ) (h : HeaderMap) :
    (m.withHeaders h).message.isRequest = m.message.isRequest := by
  cases m <;> rfl

theorem message_headers_withHeaders (m : Message β γ) (h : HeaderMap) : (m.withHeaders h).message.headers = h :=
  headers_withHeaders m h

/-- Names other than the signature fields are not affected by one more pair. -/
theorem sameSource_appendPair {name : HttpMessageComponentName} (hs : name ≠ .derived .signatureParams)
    (hf : ∀ n, name = .httpField n → toAsciiLowercase n ≠ signatureHeader ∧ toAsciiLowercase n ≠ signatureInputHeader) :
    SameSource (m.withHeaders (appendPair m.headers v w)).message m.message name := by
  cases name with
  | httpField n =>
    show HeaderMap.getAll _ n = _
    rw [message_headers_withHeaders, getAll_appendPair_other (hf n rfl).2 (hf n rfl).1]
    rfl
  | derived n =>
    cases m <;> cases n <;> first | exact absurd rfl hs | exact rfl | exact ⟨rfl, rfl⟩

theorem sameRequestSource_refl (r : Option (Request γ)) (name : HttpMessageComponentName) : SameRequestSource r r name := by
  cases r with
  | none => trivial
  | some req =>
    cases name with
    | httpField n => exact rfl
    | derived n => cases n <;> first | exact rfl | exact ⟨rfl, rfl⟩

/-- One more pair changes no component but those read from the signature fields, as long as `@signature-params`
has its first line already. -/
theorem extractCovered_appendPair (hid : ¬ ReadsSignatureField id)
    (hsig : id.name = .derived .signatureParams → HttpMessageComponentParams.hasReq id.params = false →
      m.headers.getAll signatureInputHeader ≠ []) :
    extractCovered (m.withHeaders (appendPair m.headers v w)).message (m.withHeaders (appendPair m.headers v w)).reqForParam id =
      extractCovered m.message m.reqForParam id := by
  have hk : (m.withHeaders (appendPair m.headers v w)).message.isRequest = m.message.isRequest := isRequest_withHeaders ..
  by_cases hn : id.name = .derived .signatureParams ∧ HttpMessageComponentParams.hasReq id.params = false
  · obtain ⟨hn, hr⟩ := hn
    obtain ⟨x, l, hl⟩ := List.exists_cons_of_ne_nil (hsig hn hr)
    have hl : m.message.headers.getAll signatureInputHeader = x :: l := hl
    have hl' : (m.withHeaders (appendPair m.headers v w)).message.headers.getAll signatureInputHeader = x :: (l ++ [v]) := by
      rw [message_headers_withHeaders, getAll_appendPair_input]
      show m.message.headers.getAll _ ++ _ = _
      rw [hl]
      rfl
    unfold extractCovered extractHttpMessageComponent extractDerivedComponent
    rw [hr, hn]
    simp only [Bool.false_eq_true, ite_false, checkDerivedParam_congr hk, checkDerivedKind_congr hk, derivedFieldValues, hl, hl',
      List.map_cons, Outcome.ok_bind, HttpMessageComponent.tryFrom, hn]
    rw [buildDerivedComponent_first hn]
  · refine extractCovered_congr hk ?_
    rw [reqForParam_withHeaders]
    split
    · exact sameRequestSource_refl ..
    · rename_i hr
      rw [Bool.not_eq_true] at hr
      refine sameSource_appendPair (fun h => hn ⟨h, hr⟩) fun n h => ?_
      rw [← not_or]
      exact fun hf => hid ⟨hr, n, h, hf⟩

/-- The message with one more pair of signature lines. -/
def withPair (m : Message β γ) (v w : HeaderValue) : Message β γ := m.withHeaders (appendPair m.headers v w)

theorem signatureBase_withPair (hid : ∀ id ∈ p.coveredComponents, ¬ ReadsSignatureField id)
    (hsig : ∀ id ∈ p.coveredComponents, id.name = .derived .signatureParams →
      HttpMessageComponentParams.hasReq id.params = false → m.headers.getAll signatureInputHeader ≠ []) :
    (m.withPair v w).signatureBase p = m.signatureBase p :=
  buildSignatureBase_congr fun id h => extractCovered_appendPair (hid id h) (hsig id h)

end Message
end HttpSig
