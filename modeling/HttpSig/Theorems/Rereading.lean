import HttpSig.Theorems.Canonical

/-! Parameters that read back from what is printed for them: those whose strings need no escape and whose
times fit an integer of a structured field. -/

namespace HttpSig
open Rust Sfv

/-! ### Entries of a member -/

section
variable {α : Type}

/-- The fields that have a value, in their order. -/
def presentFields (l : List (Key × Option α)) : List (Key × α) := l.filterMap fun f => f.2.map fun a => (f.1, a)

theorem map_fst_presentFields : ∀ l : List (Key × Option α), ((presentFields l).map Prod.fst).Sublist (l.map Prod.fst)
  | [] => List.Sublist.refl _
  | (k, none) :: l => (map_fst_presentFields l).cons k
  | (k, some _) :: l => (map_fst_presentFields l).cons_cons k

theorem mem_presentFields {l : List (Key × Option α)} {e : Key × α} : e ∈ presentFields l ↔ (e.1, some e.2) ∈ l := by
  rw [presentFields, List.mem_filterMap]
  constructor
  · rintro ⟨⟨k, o⟩, hf, he⟩
    obtain ⟨a, rfl, rfl⟩ := Option.map_eq_some_iff.mp he
    exact hf
  · exact fun h => ⟨_, h, rfl⟩

theorem entryValue_presentFields {k : Key} {o : Option α} : ∀ {l : List (Key × Option α)}, (l.map Prod.fst).Nodup →
    (k, o) ∈ l → entryValue (presentFields l) k.text = o
  | (j, none) :: l, hnd, h => by
    obtain ⟨hj, hnd⟩ := List.nodup_cons.mp hnd
    rcases List.mem_cons.mp h with h | h
    · cases h
      rw [entryValue_eq_none]
      intro e he hk
      exact hj ((map_fst_presentFields l).subset (List.mem_map.mpr ⟨e, he, Key.ext hk⟩))
    · have ih := entryValue_presentFields hnd h
      exact ih
  | (j, some a) :: l, hnd, h => by
    obtain ⟨hj, hnd⟩ := List.nodup_cons.mp hnd
    rcases List.mem_cons.mp h with h | h
    · cases h
      exact entryValue_cons_self (k, a) _
    · have hne : j.text ≠ k.text := fun hk => hj (List.mem_map.mpr ⟨_, h, Key.ext hk.symm⟩)
      exact (entryValue_cons_ne (e := (j, a)) hne).trans (entryValue_presentFields hnd h)

end

/-! ### Items -/

namespace HttpMessageComponentId

/-- The value a parameter is printed with: a flag loses the one it was read with. -/
def printedValue (k : Key) (v : BareItem) : BareItem :=
  if k.text = "name".toList || k.text = "key".toList then v else .boolean true

/-- The item that is printed for an id read from this one. -/
def printedItem (i : Item) : Item := ⟨i.bareItem, i.params.mapValues printedValue⟩

theorem tryFrom_printedValue {k : Key} {v : BareItem} {p : HttpMessageComponentParam}
    (h : HttpMessageComponentParam.tryFrom k.text v = .ok p) :
    HttpMessageComponentParam.tryFrom k.text (printedValue k v) = .ok p := by
  obtain ⟨hk, hv⟩ := HttpMessageComponentParam.tryFrom_eq_ok.mp h
  refine HttpMessageComponentParam.tryFrom_eq_ok.mpr ⟨hk, fun t ht => ?_⟩
  have hkey : (k.text = "name".toList || k.text = "key".toList) = true := by
    rw [← hk]
    cases p <;> first | rfl | cases ht
  rw [printedValue, if_pos hkey]
  exact hv t ht

theorem readItem_printedItem {i : Item} {id : HttpMessageComponentId} (h : readItem i = .ok id) :
    readItem (printedItem i) = .ok id := by
  obtain ⟨hname, hparams, hvalid⟩ := readItem_eq_ok.mp h
  refine readItem_eq_ok.mpr ⟨hname, ?_, hvalid⟩
  rw [HttpMessageComponentParams.tryFrom_eq_ok] at hparams ⊢
  exact List.forall₂_map_left_iff.mpr (hparams.imp fun _ _ h => tryFrom_printedValue h)

theorem canonicalParam_printedValue {k : Key} {v : BareItem} {p : HttpMessageComponentParam}
    (h : HttpMessageComponentParam.tryFrom k.text v = .ok p) (hp : ∀ t ∈ p.value, isClean t = true) :
    canonicalParam (k, printedValue k v) = true := by
  obtain ⟨hk, hv⟩ := HttpMessageComponentParam.tryFrom_eq_ok.mp h
  unfold printedValue
  split
  · rename_i hkey
    cases hval : p.value with
    | none =>
      rw [← hk] at hkey
      cases p <;> first | exact absurd hkey (by decide) | cases hval
    | some t =>
      obtain ⟨s, rfl, rfl⟩ := hv t hval
      show (_ && isClean s.text) = true
      rw [hkey, hp _ hval]
      rfl
  · rfl

/-- An id whose strings need no escape is read from an item that serializes as the id is printed. -/
theorem exists_canonicalItem {val : Text} {id : HttpMessageComponentId} (h : tryFrom val = .ok id)
    (hn : isClean id.name.inner = true) (hp : ∀ p ∈ id.params.items, ∀ t ∈ p.value, isClean t = true) :
    ∃ i, readItem (asRead i) = .ok id ∧ canonicalItem i = true := by
  rw [tryFrom_eq] at h
  obtain ⟨i, -, hi⟩ := Outcome.bind_eq_ok.mp h
  obtain ⟨hname, hparams, -⟩ := readItem_eq_ok.mp hi
  obtain ⟨-, s, hs, hinner⟩ := HttpMessageComponentName.tryFrom_eq_ok.mp hname
  have hs' : (printedItem i).bareItem = .string s := hs
  refine ⟨printedItem i, by rw [asRead_string hs', readItem_printedItem hi], ?_⟩
  rw [canonicalItem, hs']
  show (isClean s.text && _) = true
  rw [← hinner, hn, Bool.true_and, List.all_eq_true]
  intro e he
  obtain ⟨e', he', rfl⟩ := List.mem_map.mp he
  obtain ⟨p, hmem, hread⟩ := Outcome.exists_of_mem_right (HttpMessageComponentParams.tryFrom_eq_ok.mp hparams).flip he'
  exact canonicalParam_printedValue hread (hp p hmem)

end HttpMessageComponentId

/-! ### Signature parameters -/

namespace HttpSignatureParams

/-- The largest integer of a structured field. -/
def maxTime : UInt64 := 999999999999999

/-- A string that is printed as it is serialized. -/
def Unescaped (s : Text) : Prop := s.all isPrintable = true ∧ isClean s = true

/-- Parameters that a header carries as they are: times of at most fifteen digits, strings without escapes,
and ids that were read from text. -/
structure Unaltered (p : HttpSignatureParams) : Prop where
  created : ∀ n ∈ p.created, n ≤ maxTime
  expires : ∀ n ∈ p.expires, n ≤ maxTime
  nonce : ∀ s ∈ p.nonce, Unescaped s
  alg : ∀ s ∈ p.alg, Unescaped s
  keyid : ∀ s ∈ p.keyid, Unescaped s
  tag : ∀ s ∈ p.tag, Unescaped s
  ids : ∀ id ∈ p.coveredComponents, (∃ val, HttpMessageComponentId.tryFrom val = .ok id) ∧
    isClean id.name.inner = true ∧ ∀ q ∈ id.params.items, ∀ s ∈ q.value, isClean s = true

def timeItem (n : UInt64) : Option BareItem := (Integer.ofInt? n.toNat).map .integer

def textItem (s : Text) : Option BareItem :=
  if h : s.all isPrintable = true then some (.string ⟨s, h⟩) else none

/-- The six parameters under their keys. -/
def fields (p : HttpSignatureParams) : List (Key × Option BareItem) :=
  [(createdKey, p.created.bind timeItem), (expiresKey, p.expires.bind timeItem), (nonceKey, p.nonce.bind textItem),
    (algKey, p.alg.bind textItem), (keyidKey, p.keyid.bind textItem), (tagKey, p.tag.bind textItem)]

theorem nodup_fields (p : HttpSignatureParams) : (p.fields.map Prod.fst).Nodup := by
  refine List.Nodup.of_map Key.text ?_
  rw [List.map_map]
  exact paramKeys_nodup

theorem timeItem_of_le {n : UInt64} (h : n ≤ maxTime) :
    ∃ hb, timeItem n = some (.integer ⟨n.toNat, hb⟩) := by
  have hn : n.toNat ≤ 999999999999999 := UInt64.le_iff_toNat_le.mp h
  have hb : -maxInteger ≤ (n.toNat : Int) ∧ (n.toNat : Int) ≤ maxInteger := by
    simp only [maxInteger]
    omega
  exact ⟨hb, by rw [timeItem, Integer.ofInt?, dif_pos hb]; rfl⟩

theorem textItem_of_unescaped {s : Text} (h : Unescaped s) : textItem s = some (.string ⟨s, h.1⟩) := dif_pos h.1

theorem bind_timeItem {o : Option UInt64} (h : ∀ n ∈ o, n ≤ maxTime) : (o.bind timeItem).bind asU64 = o := by
  cases o with
  | none => rfl
  | some n =>
    obtain ⟨hb, hn⟩ := timeItem_of_le (h n rfl)
    rw [Option.bind_some, hn, Option.bind_some, asU64, BareItem.asInteger, Option.map_some, Int.toNat_natCast,
      UInt64.ofNat_toNat]

theorem bind_textItem {o : Option Text} (h : ∀ s ∈ o, Unescaped s) : (o.bind textItem).bind asText = o := by
  cases o with
  | none => rfl
  | some s =>
    rw [Option.bind_some, textItem_of_unescaped (h s rfl)]
    rfl

/-- The parameters are what their own entries give. -/
theorem ofEntries_presentFields {p : HttpSignatureParams} (h : p.Unaltered) :
    ofEntries p.coveredComponents (presentFields p.fields) = p := by
  have hval : ∀ {k : Key} {o : Option BareItem}, (k, o) ∈ p.fields → entryValue (presentFields p.fields) k.text = o :=
    entryValue_presentFields p.nodup_fields
  have hc : entryValue (presentFields p.fields) "created".toList = p.created.bind timeItem :=
    hval (k := createdKey) (by simp [fields])
  have he : entryValue (presentFields p.fields) "expires".toList = p.expires.bind timeItem :=
    hval (k := expiresKey) (by simp [fields])
  have hn : entryValue (presentFields p.fields) "nonce".toList = p.nonce.bind textItem :=
    hval (k := nonceKey) (by simp [fields])
  have ha : entryValue (presentFields p.fields) "alg".toList = p.alg.bind textItem :=
    hval (k := algKey) (by simp [fields])
  have hk : entryValue (presentFields p.fields) "keyid".toList = p.keyid.bind textItem :=
    hval (k := keyidKey) (by simp [fields])
  have ht : entryValue (presentFields p.fields) "tag".toList = p.tag.bind textItem :=
    hval (k := tagKey) (by simp [fields])
  rw [ofEntries, hc, he, hn, ha, hk, ht, bind_timeItem h.created, bind_timeItem h.expires, bind_textItem h.nonce,
    bind_textItem h.alg, bind_textItem h.keyid, bind_textItem h.tag]

/-- An entry that is a time or a string, under a key of its kind, and printed as it is serialized. -/
theorem timeEntry_canonical {k : Key} {o : Option UInt64} {v : BareItem} (hk : isTimeKey k.text = true)
    (h : ∀ n ∈ o, n ≤ maxTime) (hv : o.bind timeItem = some v) :
    canonicalValue (k, v) = true ∧ isNegative (k, v) = false := by
  obtain ⟨n, hn, hv⟩ := Option.bind_eq_some_iff.mp hv
  obtain ⟨hb, hn⟩ := timeItem_of_le (h n hn)
  cases hv.symm.trans hn
  refine ⟨hk, ?_⟩
  have hn : decide ((n.toNat : Int) < 0) = false := decide_eq_false (by omega)
  show (_ && decide ((n.toNat : Int) < 0)) = false
  rw [hn, Bool.and_false]

theorem textEntry_canonical {k : Key} {o : Option Text} {v : BareItem} (hk : isTimeKey k.text = false)
    (h : ∀ s ∈ o, Unescaped s) (hv : o.bind textItem = some v) :
    canonicalValue (k, v) = true ∧ isNegative (k, v) = false := by
  obtain ⟨s, hs, hv⟩ := Option.bind_eq_some_iff.mp hv
  cases hv.symm.trans (textItem_of_unescaped (h s hs))
  refine ⟨?_, by rw [isNegative, Bool.and_false]⟩
  show (!isTimeKey k.text && isClean s) = true
  rw [hk, (h s hs).2]
  rfl

theorem presentFields_canonical {p : HttpSignatureParams} (h : p.Unaltered) {e : Key × BareItem}
    (he : e ∈ presentFields p.fields) : canonicalValue e = true ∧ isNegative e = false := by
  obtain ⟨k, v⟩ := e
  have hf := mem_presentFields.mp he
  simp only [fields, List.mem_cons, Prod.mk.injEq, List.not_mem_nil, or_false] at hf
  rcases hf with ⟨rfl, hv⟩ | ⟨rfl, hv⟩ | ⟨rfl, hv⟩ | ⟨rfl, hv⟩ | ⟨rfl, hv⟩ | ⟨rfl, hv⟩
  · exact timeEntry_canonical (by decide) h.created hv.symm
  · exact timeEntry_canonical (by decide) h.expires hv.symm
  · exact textEntry_canonical (by decide) h.nonce hv.symm
  · exact textEntry_canonical (by decide) h.alg hv.symm
  · exact textEntry_canonical (by decide) h.keyid hv.symm
  · exact textEntry_canonical (by decide) h.tag hv.symm

theorem exists_items {ids : List HttpMessageComponentId}
    (h : ∀ id ∈ ids, ∃ i, HttpMessageComponentId.readItem (HttpMessageComponentId.asRead i) = .ok id ∧ canonicalItem i = true) :
    ∃ items, ReadsIds items ids ∧ ∀ i ∈ items, canonicalItem i = true := by
  induction ids with
  | nil => exact ⟨[], .nil, fun _ hi => absurd hi List.not_mem_nil⟩
  | cons id ids ih =>
    obtain ⟨⟨i, hi, hc⟩, hids⟩ := List.forall_mem_cons.mp h
    obtain ⟨items, hitems, hcs⟩ := ih hids
    exact ⟨i :: items, .cons hi hitems, List.forall_mem_cons.mpr ⟨hc, hcs⟩⟩

/-- The parameters convert from the member that is printed for them. -/
theorem exists_member {p : HttpSignatureParams} (hu : hasUniqueElements p.coveredComponents = true) (h : p.Unaltered) :
    ∃ l, tryFrom (.innerList l) = .ok p ∧ p.toText = serializeInnerList l := by
  obtain ⟨items, hitems, hcan⟩ := exists_items fun id hid =>
    have ⟨⟨_, hval⟩, hn, hp⟩ := h.ids id hid
    HttpMessageComponentId.exists_canonicalItem hval hn hp
  let l : InnerList := ⟨items, ⟨presentFields p.fields, p.nodup_fields.sublist (map_fst_presentFields _)⟩⟩
  have hneg : l.params.entries.any isNegative = false := by
    rw [List.any_eq_false]
    exact fun e he => Bool.not_eq_true _ ▸ (presentFields_canonical h he).2
  have hread : tryFrom (.innerList l) = .ok p :=
    tryFrom_innerList_eq_ok.mpr ⟨_, hitems, hu, hneg, (ofEntries_presentFields h).symm⟩
  refine ⟨l, hread, (toText_eq_serializeInnerList hread).mpr ⟨hcan, ?_, fun e he => (presentFields_canonical h he).1⟩⟩
  have := (map_fst_presentFields p.fields).map Key.text
  rwa [List.map_map, List.map_map] at this

/-! ### Parameters that read back -/

/-- What is printed for the parameters reads as the parameters. -/
def ReadsBack (p : HttpSignatureParams) : Prop := tryFromText p.toText = .ok p

theorem readsBack_iff {p : HttpSignatureParams} : p.ReadsBack ↔
    ∃ l, parseListField p.toText = some [.innerList l] ∧ tryFrom (.innerList l) = .ok p := by
  rw [ReadsBack, tryFromText]
  cases parseListField p.toText with
  | none => simp
  | some list =>
    simp only [Outcome.okOr_some, Outcome.ok_bind, Option.some.injEq]
    split
    · simp
    · rename_i hno
      simp only [reduceCtorEq, false_iff, not_exists, not_and]
      rintro l rfl
      exact absurd rfl (hno l)

theorem Unaltered.readsBack {p : HttpSignatureParams} (h : p.Unaltered) (hu : hasUniqueElements p.coveredComponents = true) :
    p.ReadsBack := by
  obtain ⟨l, hl, ht⟩ := exists_member hu h
  refine readsBack_iff.mpr ⟨l, ?_, hl⟩
  rw [ht]
  exact parseListField_entry (.innerList l)

/-- Building never loses the uniqueness of the ids. -/
theorem Built.hasUniqueElements {p : HttpSignatureParams} (h : Built p) :
    HttpSig.hasUniqueElements p.coveredComponents = true := by
  induction h with
  | tryNew h =>
    unfold HttpSignatureParams.tryNew at h
    split at h
    · cases h
    · rename_i hu
      cases h
      rw [Bool.not_eq_true', Bool.not_eq_false] at hu
      exact hu
  | set c _ h ih =>
    cases c with
    | setExpiresWithDuration d =>
      unfold HttpSignatureParams.set setExpiresWithDuration at h
      dsimp only at h
      split at h
      · cases h
      · split at h
        · cases h
        · cases h
          exact ih
    | _ =>
      cases h
      exact ih

/-! ### Printable text -/

theorem isPrintable_of_mem_quoted {s : Text} (hs : ∀ c ∈ s, isPrintable c = true) :
    ∀ c ∈ quoted s, isPrintable c = true := by
  intro c hc
  simp only [quoted, List.cons_append, List.mem_cons, List.mem_append, List.not_mem_nil, or_false] at hc
  rcases hc with rfl | hc | rfl
  · decide
  · exact hs c hc
  · decide

theorem isPrintable_of_mem_valueText {k t : Text} {v : BareItem} (h : valueText k v = some t) :
    ∀ c ∈ t, isPrintable c = true := by
  unfold valueText at h
  split at h
  · obtain ⟨n, -, rfl⟩ := Option.map_eq_some_iff.mp h
    exact fun c hc => isPrintable_of_isPlain (isPlain_of_isDigit (isDigit_of_mem_natText hc))
  · obtain ⟨s, hs, rfl⟩ := Option.map_eq_some_iff.mp h
    obtain ⟨s, -, rfl⟩ := Option.map_eq_some_iff.mp hs
    exact isPrintable_of_mem_quoted (List.all_eq_true.mp s.valid)

theorem isPrintable_of_mem_printedText {l : List (Key × BareItem)} {c : Char} (h : c ∈ printedText l paramKeys) :
    isPrintable c = true := by
  obtain ⟨k, hk, h⟩ := List.mem_flatMap.mp h
  cases hv : (entryValue l k).bind (valueText k) with
  | none =>
    rw [hv] at h
    cases h
  | some t =>
    obtain ⟨v, -, ht⟩ := Option.bind_eq_some_iff.mp hv
    rw [hv, paramText, List.cons_append, List.mem_cons, List.mem_append, List.mem_cons] at h
    rcases h with rfl | h | rfl | h
    · decide
    · exact isPrintable_of_isPlain (isPlain_of_isTokenChar (isTokenChar_of_isKeyChar (isKeyChar_of_mem_paramKeys k hk c h)))
    · decide
    · exact isPrintable_of_mem_valueText ht c h

theorem isPrintable_of_mem_id {i : Item} {id : HttpMessageComponentId}
    (h : HttpMessageComponentId.readItem i = .ok id) : ∀ c ∈ id.toText, isPrintable c = true := by
  obtain ⟨hname, hparams, -⟩ := HttpMessageComponentId.readItem_eq_ok.mp h
  obtain ⟨-, s, -, hinner⟩ := HttpMessageComponentName.tryFrom_eq_ok.mp hname
  intro c hc
  rw [HttpMessageComponentId.toText_eq, hinner, List.cons_append, List.mem_cons, List.mem_append, List.mem_cons,
    List.mem_flatMap] at hc
  rcases hc with rfl | hc | rfl | ⟨p, hp, hc⟩
  · decide
  · exact List.all_eq_true.mp s.valid c hc
  · decide
  · obtain ⟨e, -, he⟩ := Outcome.exists_of_mem_right (HttpMessageComponentParams.tryFrom_eq_ok.mp hparams) hp
    rw [p.toText_eq, List.mem_cons, List.mem_append] at hc
    rcases hc with rfl | hc | hc
    · decide
    · exact isPrintable_of_isPlain (isPlain_of_isTokenChar (isTokenChar_of_isKeyChar (p.isKeyChar_of_mem_keyText c hc)))
    · cases hv : p.value with
      | none =>
        rw [hv] at hc
        cases hc
      | some t =>
        obtain ⟨s, -, rfl⟩ := (HttpMessageComponentParam.tryFrom_eq_ok.mp he).2 t hv
        rw [hv] at hc
        rcases List.mem_cons.mp hc with rfl | hc
        · decide
        · exact isPrintable_of_mem_quoted (List.all_eq_true.mp s.valid) c hc

/-- Parameters that were read from a member print as visible ASCII. -/
theorem isPrintable_of_mem_toText {l : InnerList} {p : HttpSignatureParams} (h : tryFrom (.innerList l) = .ok p) :
    ∀ c ∈ p.toText, isPrintable c = true := by
  obtain ⟨ids, hids, -, -, rfl⟩ := tryFrom_innerList_eq_ok.mp h
  intro c hc
  rw [toText_ofEntries, List.cons_append, List.mem_cons, List.mem_append, List.mem_cons] at hc
  rcases hc with rfl | hc | rfl | hc
  · decide
  · refine forall_mem_join (p := fun c => isPrintable c = true) (List.all_eq_true.mp (by decide)) ?_ c hc
    intro s hs
    obtain ⟨id, hid, rfl⟩ := List.mem_map.mp hs
    obtain ⟨i, -, hi⟩ := Outcome.exists_of_mem_right hids hid
    exact isPrintable_of_mem_id hi
  · decide
  · exact isPrintable_of_mem_printedText hc

end HttpSignatureParams
end HttpSig
