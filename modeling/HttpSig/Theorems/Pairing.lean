import HttpSig.Theorems.Verification

/-! The signatures of a pair of header texts: each label has the bytes that `signature` stores under it and the
parameters that `signature-input` stores under it, wherever the two members stand. -/

namespace HttpSig
open Rust Sfv

namespace HttpSignatureHeaders

/-- The same labels on both sides, byte sequences on one and inner lists that convert on the other. -/
structure Matching (input signature : Dictionary) : Prop where
  labels : ∀ k, k ∈ signature.keys ↔ k ∈ input.keys
  byteSequence : ∀ v ∈ signature.values, isByteSequence v = true
  innerList : ∀ v ∈ input.values, isInnerList v = true
  converts : ∀ v ∈ input.values, ∃ p, HttpSignatureParams.tryFrom v = .ok p

/-- What the map holds for a member of the inputs: what is stored under its label on either side. -/
structure PairedEntry (signature : Dictionary) (e : Key × ListEntry) (r : Text × HttpSignatureHeaders) : Prop where
  label : r.1 = e.1.text
  name : r.2.signatureName = e.1.text
  bytes : ∃ ps, signature.get? e.1 = some (.item ⟨.byteSequence r.2.signature, ps⟩)
  params : HttpSignatureParams.tryFrom e.2 = .ok r.2.signatureParams

section
variable {input signature : Dictionary} {s i : Text} {map : HttpSignatureHeadersMap}

/-- As many keys on one side, all of them on the other: that is the same keys. -/
theorem paired_iff : Paired input signature ↔ (∀ k, k ∈ signature.keys ↔ k ∈ input.keys) ∧
    (∀ v ∈ signature.values, isByteSequence v = true) ∧ ∀ v ∈ input.values, isInnerList v = true := by
  constructor
  · intro h
    exact ⟨fun _ => h.mem_keys_iff, h.byteSequence, h.innerList⟩
  · rintro ⟨hlabels, hbytes, hlists⟩
    have hperm : signature.keys.Perm input.keys :=
      (List.perm_ext_iff_of_nodup signature.keys_nodup input.keys_nodup).mpr hlabels
    refine ⟨?_, fun k hk => (hlabels k).mp hk, hbytes, hlists⟩
    rw [← IndexMap.length_keys, ← IndexMap.length_keys]
    exact hperm.length_eq

theorem pairedEntry_iff (h : Paired input signature) {e : Key × ListEntry} (he : e ∈ input.entries)
    {r : Text × HttpSignatureHeaders} : ReadsEntry signature e r ↔ PairedEntry signature e r := by
  obtain ⟨bs, ps, hget⟩ := h.exists_byteSequence (List.mem_map.mpr ⟨e, he, rfl⟩)
  have hbytes : signatureBytes signature e.1 = bs := by rw [signatureBytes, hget]
  rw [ReadsEntry, hbytes]
  constructor
  · rintro ⟨p, hp, rfl⟩
    exact ⟨rfl, rfl, ⟨ps, hget⟩, hp⟩
  · rintro ⟨hlabel, hname, ⟨ps', hget'⟩, hp⟩
    obtain ⟨label, name, bytes, p⟩ := r
    dsimp only at hlabel hname hget' hp
    rw [hget] at hget'
    cases hget'
    exact ⟨p, hp, by rw [hlabel, hname]⟩

theorem exists_tryParse_iff : (∃ map, tryParse s i = .ok map) ↔ ∃ input signature, parseDictionaryField i = some input ∧
    parseDictionaryField s = some signature ∧ Matching input signature := by
  simp only [tryParse_eq_ok, Parses]
  constructor
  · rintro ⟨map, input, signature, ⟨hi, hs, hp⟩, hread⟩
    obtain ⟨hlabels, hbytes, hlists⟩ := paired_iff.mp hp
    refine ⟨input, signature, hi, hs, hlabels, hbytes, hlists, fun v hv => ?_⟩
    obtain ⟨e, he, rfl⟩ := List.mem_map.mp hv
    obtain ⟨r, -, p, hconv, -⟩ := Outcome.exists_of_mem_right hread.flip he
    exact ⟨p, hconv⟩
  · rintro ⟨input, signature, hi, hs, hlabels, hbytes, hlists, hconv⟩
    have hp := paired_iff.mpr ⟨hlabels, hbytes, hlists⟩
    have hall : ∀ e ∈ input.entries, ∃ r, readMember signature e.1 e.2 = .ok r := by
      intro e he
      obtain ⟨p, hconv⟩ := hconv e.2 (List.mem_map.mpr ⟨e, he, rfl⟩)
      exact ⟨_, by rw [readMember_eq hp he, hconv, Outcome.map_ok]⟩
    obtain ⟨rs, hrs⟩ := Outcome.exists_mapM_eq_ok hall
    have hok : tryParse s i = .ok (IndexMap.ofList rs) := by
      rw [tryParse_of_parses ⟨hi, hs, hp⟩, hrs, Outcome.map_ok]
    obtain ⟨input', signature', hparses, hread⟩ := tryParse_eq_ok.mp hok
    exact ⟨_, input', signature', hparses, hread⟩

theorem pairedEntries_of_tryParse (h : tryParse s i = .ok map) : ∃ input signature, parseDictionaryField i = some input ∧
    parseDictionaryField s = some signature ∧ List.Forall₂ (PairedEntry signature) input.entries map.entries := by
  obtain ⟨input, signature, ⟨hi, hs, hp⟩, hread⟩ := tryParse_eq_ok.mp h
  refine ⟨input, signature, hi, hs, ?_⟩
  rw [List.forall₂_iff_zip] at hread ⊢
  refine ⟨hread.1, fun hmem => ?_⟩
  exact (pairedEntry_iff hp (List.of_mem_zip hmem).1).mp (hread.2 hmem)

/-- Every check on the bytes looks at all the members of `signature` or at the one of a given label. -/
theorem tryParse_perm {s' : Text} {signature' : Dictionary} (hs : parseDictionaryField s = some signature)
    (hs' : parseDictionaryField s' = some signature') (hperm : signature.entries.Perm signature'.entries) :
    tryParse s' i = tryParse s i := by
  have hlength : signature'.length = signature.length := hperm.length_eq.symm
  have hkeys : signature'.keys.all = signature.keys.all := funext fun f => ((hperm.map Prod.fst).all_eq).symm
  have hvalues : signature'.values.all = signature.values.all := funext fun f => ((hperm.map Prod.snd).all_eq).symm
  have hread : readMember signature' = readMember signature := by
    funext k v
    rw [readMember, readMember, IndexMap.get?_of_perm hperm]
  rw [tryParse, tryParse, hs, hs']
  simp only [Outcome.okOr_some, Outcome.ok_bind, hlength, hkeys, hvalues, hread]

end

/-- Parsing succeeds exactly on two dictionaries with the same labels and the right kinds of members. It gives the
labels in the order of the inputs, each with its own bytes and parameters; the order of the bytes does not matter, and
behind the checks no label is without bytes. -/
theorem tryParse_pairs (s i : Text) :
    ((∃ map, tryParse s i = .ok map) ↔ ∃ input signature, parseDictionaryField i = some input ∧
      parseDictionaryField s = some signature ∧ Matching input signature) ∧
    (∀ map, tryParse s i = .ok map → ∃ input signature, parseDictionaryField i = some input ∧
      parseDictionaryField s = some signature ∧ List.Forall₂ (PairedEntry signature) input.entries map.entries) ∧
    (∀ s' signature signature', parseDictionaryField s = some signature → parseDictionaryField s' = some signature' →
      signature.entries.Perm signature'.entries → tryParse s' i = tryParse s i) ∧
    ∀ input signature, Parses s i input signature → ∀ k ∈ input.keys,
      ∃ bytes ps, signature.get? k = some (.item ⟨.byteSequence bytes, ps⟩) :=
  ⟨exists_tryParse_iff, fun _ => pairedEntries_of_tryParse, fun _ _ _ => tryParse_perm,
    fun _ _ h _ hk => h.2.2.exists_byteSequence hk⟩

/-- Bytes in the other order. -/
theorem swappedBytes_parses :
    tryParse "b=:AQ==:, a=:AA==:".toList "a=(\"@method\");keyid=\"k\", b=()".toList =
      tryParse "a=:AA==:, b=:AQ==:".toList "a=(\"@method\");keyid=\"k\", b=()".toList := by
  obtain ⟨-, -, hperm, -⟩ := tryParse_pairs "a=:AA==:, b=:AQ==:".toList "a=(\"@method\");keyid=\"k\", b=()".toList
  have hparse : parseDictionaryField "a=:AA==:, b=:AQ==:".toList =
        some ((parseDictionaryField "a=:AA==:, b=:AQ==:".toList).getD ∅) ∧
      parseDictionaryField "b=:AQ==:, a=:AA==:".toList =
        some ((parseDictionaryField "b=:AQ==:, a=:AA==:".toList).getD ∅) ∧
      ((parseDictionaryField "a=:AA==:, b=:AQ==:".toList).getD ∅).entries.Perm
        ((parseDictionaryField "b=:AQ==:, a=:AA==:".toList).getD ∅).entries := by
    decide
  exact hperm _ _ _ hparse.1 hparse.2.1 hparse.2.2

end HttpSignatureHeaders
end HttpSig
