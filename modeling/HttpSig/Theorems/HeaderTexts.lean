import Mathlib.Data.Set.List
import HttpSig.Sfv.Reprint
import HttpSig.Theorems.Pairing
import HttpSig.Theorems.ReadBack
import HttpSig.Theorems.Retention

/-! Header pairs as texts and back. The values of several pairs are joined into one text each, in which the strings of
one pair could run on into another; counting the backslashes of the whole text shows that none does in a text that
reads back. -/

namespace HttpSig
open Rust Sfv

namespace HttpSignatureHeaders

/-- The `signature` field that carries several header pairs. -/
def signatureText (hs : List HttpSignatureHeaders) : Text := join [',', ' '] (hs.map signatureHeaderValue)

/-- The `signature-input` field that carries several header pairs. -/
def signatureInputText (hs : List HttpSignatureHeaders) : Text := join [',', ' '] (hs.map signatureInputHeaderValue)

/-- The two texts of the pairs read as the same pairs, in the same order. -/
def RoundTrips (hs : List HttpSignatureHeaders) : Prop :=
  ∃ map, tryParse (signatureText hs) (signatureInputText hs) = .ok map ∧ map.entries = hs.map named

/-! ### From pairs to members -/

/-- A header pair whose values are printed as dictionary members are. -/
structure PrintedPair where
  headers : HttpSignatureHeaders
  key : Key
  member : InnerList
  name : headers.signatureName = key.text
  reads : HttpSignatureParams.tryFrom (.innerList member) = .ok headers.signatureParams
  text : headers.signatureParams.toText = serializeInnerList member

namespace PrintedPair

def input (x : PrintedPair) : ListEntry := .innerList x.member

def bytes (x : PrintedPair) : ListEntry := .item ⟨.byteSequence x.headers.signature, ∅⟩

theorem input_text (x : PrintedPair) : x.headers.signatureInputHeaderValue = serializeMember x.key x.input := by
  rw [signatureInputHeaderValue, x.name, x.text]
  rfl

theorem bytes_text (x : PrintedPair) : x.headers.signatureHeaderValue = serializeMember x.key x.bytes := by
  rw [bytes, serializeMember_item, if_neg (by simp), serializeItem, signatureHeaderValue, x.name]
  simp [serializeBareItem, serializeParameters]

end PrintedPair

theorem exists_printedPairs {hs : List HttpSignatureHeaders}
    (hu : ∀ h ∈ hs, hasUniqueElements h.signatureParams.coveredComponents = true)
    (hk : ∀ h ∈ hs, isKey h.signatureName = true) (hp : ∀ h ∈ hs, h.signatureParams.Unaltered) :
    ∃ xs : List PrintedPair, xs.map PrintedPair.headers = hs := by
  rw [← Set.mem_range, Set.range_list_map]
  intro h hh
  obtain ⟨l, hl, ht⟩ := HttpSignatureParams.exists_member (hu h hh) (hp h hh)
  exact ⟨⟨h, ⟨h.signatureName, hk h hh⟩, l, rfl, hl, ht⟩, rfl⟩

section
variable {xs : List PrintedPair}

/-- What printed pairs are under their keys, as a dictionary. -/
def dictionaryOf (f : PrintedPair → ListEntry) (hnd : (xs.map PrintedPair.key).Nodup) : Dictionary where
  entries := xs.map fun x => (x.key, f x)
  nodup := by
    rw [List.map_map]
    exact hnd

theorem parse_dictionaryOf {f : PrintedPair → ListEntry} {print : HttpSignatureHeaders → Text}
    (hprint : ∀ x : PrintedPair, print x.headers = serializeMember x.key (f x)) (hnd : (xs.map PrintedPair.key).Nodup) :
    parseDictionaryField (join [',', ' '] ((xs.map PrintedPair.headers).map print)) = some (dictionaryOf f hnd) := by
  have htexts : (xs.map PrintedPair.headers).map print =
      (dictionaryOf f hnd).entries.map fun m => serializeMember m.1 m.2 := by
    rw [dictionaryOf, List.map_map, List.map_map]
    exact List.map_congr_left fun x _ => hprint x
  rw [htexts, parseDictionaryField_join_members]

theorem paired_dictionaryOf (hnd : (xs.map PrintedPair.key).Nodup) :
    Paired (dictionaryOf PrintedPair.input hnd) (dictionaryOf PrintedPair.bytes hnd) := by
  have hvalues : ∀ {f : PrintedPair → ListEntry} {v : ListEntry}, v ∈ (dictionaryOf f hnd).values → ∃ x, v = f x := by
    intro f v hv
    obtain ⟨e, he, rfl⟩ := List.mem_map.mp hv
    obtain ⟨x, -, rfl⟩ := List.mem_map.mp he
    exact ⟨x, rfl⟩
  refine paired_iff.mpr ⟨fun k => ?_, fun v hv => ?_, fun v hv => ?_⟩
  · rw [IndexMap.keys, IndexMap.keys, dictionaryOf, dictionaryOf, List.map_map, List.map_map]
    rfl
  · obtain ⟨x, rfl⟩ := hvalues hv
    rfl
  · obtain ⟨x, rfl⟩ := hvalues hv
    rfl

theorem signatureBytes_dictionaryOf (hnd : (xs.map PrintedPair.key).Nodup) {x : PrintedPair} (hx : x ∈ xs) :
    signatureBytes (dictionaryOf PrintedPair.bytes hnd) x.key = x.headers.signature := by
  have hget : (dictionaryOf PrintedPair.bytes hnd).get? x.key = some x.bytes :=
    IndexMap.get?_eq_some.mpr (List.mem_map.mpr ⟨x, hx, rfl⟩)
  rw [signatureBytes, hget]
  rfl

theorem RoundTrips.of_printedPairs (hnd : (xs.map PrintedPair.key).Nodup) : RoundTrips (xs.map PrintedPair.headers) := by
  have hread : List.Forall₂ (ReadsEntry (dictionaryOf PrintedPair.bytes hnd)) (dictionaryOf PrintedPair.input hnd).entries
      ((xs.map PrintedPair.headers).map named) := by
    have hentries : (dictionaryOf PrintedPair.input hnd).entries = xs.map fun x => (x.key, x.input) := rfl
    rw [hentries, List.map_map, List.forall₂_map_left_iff, List.forall₂_map_right_iff, List.forall₂_same]
    intro x hx
    refine ⟨_, x.reads, ?_⟩
    rw [signatureBytes_dictionaryOf hnd hx, ← x.name]
    rfl
  have hlabels : (((xs.map PrintedPair.headers).map named).map Prod.fst).Nodup := by
    rw [map_fst_of_readsEntry hread]
    exact nodup_labels _
  exact ⟨⟨_, hlabels⟩, tryParse_eq_ok.mpr ⟨_, _, ⟨parse_dictionaryOf PrintedPair.input_text hnd,
    parse_dictionaryOf PrintedPair.bytes_text hnd, paired_dictionaryOf hnd⟩, hread⟩, rfl⟩

end

/-- Pairs under different keys whose parameters are printed as they are. -/
theorem RoundTrips.of_unaltered {hs : List HttpSignatureHeaders}
    (hu : ∀ h ∈ hs, hasUniqueElements h.signatureParams.coveredComponents = true)
    (hnd : (hs.map signatureName).Nodup) (hk : ∀ h ∈ hs, isKey h.signatureName = true)
    (hp : ∀ h ∈ hs, h.signatureParams.Unaltered) : RoundTrips hs := by
  obtain ⟨xs, rfl⟩ := exists_printedPairs hu hk hp
  refine .of_printedPairs (List.Nodup.of_map Key.text ?_)
  rw [List.map_map] at hnd ⊢
  rwa [List.map_congr_left fun x _ => x.name.symm]

/-! ### From texts to pairs -/

section
variable {hs : List HttpSignatureHeaders} {s i : Text} {map : HttpSignatureHeadersMap}

theorem named_of_tryParse (h : tryParse s i = .ok map) : ∀ r ∈ map.entries, r = named r.2 ∧
    isKey r.2.signatureName = true ∧ ∃ l, HttpSignatureParams.tryFrom (.innerList l) = .ok r.2.signatureParams := by
  obtain ⟨input, signature, -, hread⟩ := tryParse_eq_ok.mp h
  intro r hr
  obtain ⟨⟨k, e⟩, -, p, hp, rfl⟩ := Outcome.exists_of_mem_right hread hr
  cases e with
  | item i => cases hp
  | innerList l => exact ⟨rfl, k.valid, l, hp⟩

/-- What was read is under its own names. -/
theorem entries_of_tryParse (h : tryParse s i = .ok map) : map.entries = map.values.map named := by
  rw [IndexMap.values, List.map_map]
  exact ((List.map_congr_left fun r hr => (named_of_tryParse h r hr).1.symm).trans (List.map_id _)).symm

theorem nodup_of_tryParse (h : tryParse s i = .ok map) : (map.values.map signatureName).Nodup := by
  have hnames : map.values.map signatureName = map.keys := by
    rw [IndexMap.keys, entries_of_tryParse h, List.map_map]
    rfl
  exact hnames ▸ map.keys_nodup

theorem isKey_of_tryParse (h : tryParse s i = .ok map) : ∀ x ∈ map.values, isKey x.signatureName = true := by
  intro x hx
  obtain ⟨r, hr, rfl⟩ := List.mem_map.mp hx
  exact (named_of_tryParse h r hr).2.1

theorem exists_member_of_tryParse (h : tryParse s i = .ok map) : ∀ x ∈ map.values,
    ∃ l, HttpSignatureParams.tryFrom (.innerList l) = .ok x.signatureParams := by
  intro x hx
  obtain ⟨r, hr, rfl⟩ := List.mem_map.mp hx
  exact (named_of_tryParse h r hr).2.2

/-- The strings of all the pairs. -/
def allStrings (hs : List HttpSignatureHeaders) : List Text := hs.flatMap fun h => h.signatureParams.allStrings

/-- Without a backslash in the names, the text has those of the strings and no other. -/
theorem count_signatureInputText (hk : ∀ h ∈ hs, '\\' ∉ h.signatureName) :
    (signatureInputText hs).count '\\' = countAll '\\' (allStrings hs) := by
  have hvalue : ∀ h ∈ hs, h.signatureInputHeaderValue.count '\\' = countAll '\\' h.signatureParams.allStrings := by
    intro h hh
    rw [signatureInputHeaderValue, List.count_append, List.count_eq_zero.mpr (hk h hh),
      List.count_cons_of_ne (by decide), h.signatureParams.count_toText, Nat.zero_add]
  unfold signatureInputText allStrings
  induction hs with
  | nil => rfl
  | cons h hs ih =>
    rw [List.forall_mem_cons] at hk hvalue
    cases hs with
    | nil => simp [hvalue.1]
    | cons h' hs =>
      have hcons := ih hk.2 hvalue.2
      rw [List.map_cons] at hcons
      rw [List.map_cons, List.map_cons, join_cons_cons, List.count_append, List.count_append, hcons, hvalue.1,
        List.flatMap_cons, countAll_append]
      simp

theorem escapes_allStrings {signature : Dictionary} {l : List (Key × ListEntry)}
    (h : List.Forall₂ (ReadsEntry signature) l (hs.map named)) : escapesAll (allStrings hs) ≤ membersEscapes l := by
  rw [List.forall₂_map_right_iff] at h
  induction h with
  | nil => exact Nat.le_refl 0
  | @cons e h l hs hr _ ih =>
    obtain ⟨p, hp, heq⟩ := hr
    obtain rfl : h.signatureParams = p := congrArg (fun r => r.2.signatureParams) heq
    obtain ⟨k, e⟩ := e
    cases e with
    | item i => cases hp
    | innerList m =>
      have hle := HttpSignatureParams.escapes_of_tryFrom hp
      have hsum : membersEscapes ((k, .innerList m) :: l) = m.escapes + membersEscapes l := by
        simp [membersEscapes, ListEntry.escapes]
      have hstrings : allStrings (h :: hs) = h.signatureParams.allStrings ++ allStrings hs := rfl
      rw [hsum, hstrings, escapesAll_append]
      omega

/-- Nothing in texts that read back as they are had to be escaped. -/
theorem isClean_of_roundTrip (h : tryParse (signatureText map.values) (signatureInputText map.values) = .ok map) :
    ∀ s ∈ allStrings map.values, isClean s = true := by
  obtain ⟨input, signature, ⟨hi, -, -⟩, hread⟩ := tryParse_eq_ok.mp h
  rw [entries_of_tryParse h] at hread
  refine isClean_of_escapesAll_le (Nat.le_trans (escapes_allStrings hread) ?_)
  have hnames : ∀ x ∈ map.values, '\\' ∉ x.signatureName := by
    intro x hx hm
    have := (⟨x.signatureName, isKey_of_tryParse h x hx⟩ : Key).isKeyChar_of_mem _ hm
    revert this
    decide
  rw [← count_signatureInputText hnames]
  exact escapes_of_parseDictionaryField hi

/-! ### Texts that read back -/

/-- The ids of a member are read from texts. -/
theorem exists_val_of_tryFrom {l : InnerList} {p : HttpSignatureParams}
    (h : HttpSignatureParams.tryFrom (.innerList l) = .ok p) {id : HttpMessageComponentId}
    (hid : id ∈ p.coveredComponents) : ∃ val, HttpMessageComponentId.tryFrom val = .ok id := by
  obtain ⟨ids, hids, -, -, rfl⟩ := HttpSignatureParams.tryFrom_innerList_eq_ok.mp h
  obtain ⟨item, -, hitem⟩ := Outcome.exists_of_mem_right hids hid
  exact ⟨_, (HttpMessageComponentId.tryFrom_serializeItem item).trans hitem⟩

theorem unaltered_of_tryParse (h : tryParse s i = .ok map) (hclean : ∀ s ∈ allStrings map.values, isClean s = true)
    {x : HttpSignatureHeaders} (hx : x ∈ map.values)
    (hids : ∀ id ∈ x.signatureParams.coveredComponents, ∃ val, HttpMessageComponentId.tryFrom val = .ok id) :
    x.signatureParams.Unaltered := by
  obtain ⟨l, hl⟩ := exists_member_of_tryParse h x hx
  exact HttpSignatureParams.unaltered_of_isClean hl (fun s hs => hclean s (List.mem_flatMap.mpr ⟨x, hx, hs⟩)) hids

theorem roundTrips_iff_unaltered (hu : ∀ h ∈ hs, hasUniqueElements h.signatureParams.coveredComponents = true)
    (hids : ∀ h ∈ hs, ∀ id ∈ h.signatureParams.coveredComponents, ∃ val, HttpMessageComponentId.tryFrom val = .ok id) :
    RoundTrips hs ↔ (hs.map signatureName).Nodup ∧
      ∀ h ∈ hs, isKey h.signatureName = true ∧ h.signatureParams.Unaltered := by
  constructor
  · rintro ⟨map, hok, hentries⟩
    obtain rfl : map.values = hs := by
      rw [IndexMap.values, hentries, List.map_map]
      exact List.map_id _
    exact ⟨nodup_of_tryParse hok, fun x hx =>
      ⟨isKey_of_tryParse hok x hx, unaltered_of_tryParse hok (isClean_of_roundTrip hok) hx (hids x hx)⟩⟩
  · rintro ⟨hnd, h⟩
    exact .of_unaltered hu hnd (fun x hx => (h x hx).1) fun x hx => (h x hx).2

/-- What was read from any texts is printed and read once more exactly when its strings have no escape. -/
theorem reprinted_iff_isClean (h : tryParse s i = .ok map) :
    tryParse (signatureText map.values) (signatureInputText map.values) = .ok map ↔
      ∀ s ∈ allStrings map.values, isClean s = true := by
  refine ⟨isClean_of_roundTrip, fun hclean => ?_⟩
  have hmember := exists_member_of_tryParse h
  have hunique : ∀ x ∈ map.values, hasUniqueElements x.signatureParams.coveredComponents = true := by
    intro x hx
    obtain ⟨l, hl⟩ := hmember x hx
    obtain ⟨ids, -, hu, -, hp⟩ := HttpSignatureParams.tryFrom_innerList_eq_ok.mp hl
    exact hp ▸ hu
  have hunaltered : ∀ x ∈ map.values, x.signatureParams.Unaltered := by
    intro x hx
    obtain ⟨l, hl⟩ := hmember x hx
    exact unaltered_of_tryParse h hclean hx fun id => exists_val_of_tryFrom hl
  obtain ⟨map', hok, hentries⟩ := RoundTrips.of_unaltered hunique (nodup_of_tryParse h) (isKey_of_tryParse h) hunaltered
  obtain rfl : map' = map := IndexMap.ext (hentries.trans (entries_of_tryParse h).symm)
  exact hok

end

/-- Header pairs over built parameters read back from their texts exactly when their names are keys, each of its own,
and their parameters are printed as they are. What two texts were read as can be printed and read again exactly when
none of its strings has a quote or a backslash. -/
theorem texts_roundTrip (hs : List HttpSignatureHeaders) :
    ((∀ h ∈ hs, h.signatureParams.Built ∧
        ∀ id ∈ h.signatureParams.coveredComponents, ∃ val, HttpMessageComponentId.tryFrom val = .ok id) →
      (RoundTrips hs ↔ (hs.map signatureName).Nodup ∧
        ∀ h ∈ hs, isKey h.signatureName = true ∧ h.signatureParams.Unaltered)) ∧
    ∀ s i map, tryParse s i = .ok map →
      (tryParse (signatureText map.values) (signatureInputText map.values) = .ok map ↔
        ∀ s ∈ allStrings map.values, isClean s = true) :=
  ⟨fun h => roundTrips_iff_unaltered (fun x hx => (h x hx).1.hasUniqueElements) fun x hx => (h x hx).2,
    fun _ _ _ => reprinted_iff_isClean⟩

/-- Two pairs over the same parameters. -/
def twoPairs : List HttpSignatureHeaders :=
  [⟨"first".toList, [1, 2], Message.coveredParams⟩, ⟨"second".toList, [], Message.coveredParams⟩]

theorem twoPairs_roundTrip : RoundTrips twoPairs := by
  have hparams : ∀ h ∈ twoPairs, h.signatureParams = Message.coveredParams := by simp [twoPairs]
  refine ((texts_roundTrip twoPairs).1 fun h hh => ?_).mpr ⟨by decide, fun h hh => ⟨?_, ?_⟩⟩
  · rw [hparams h hh]
    exact ⟨Message.coveredParams_built, fun id hid => (Message.coveredParams_unaltered.ids id hid).1⟩
  · revert h
    decide
  · rw [hparams h hh]
    exact Message.coveredParams_unaltered

end HttpSignatureHeaders
end HttpSig
