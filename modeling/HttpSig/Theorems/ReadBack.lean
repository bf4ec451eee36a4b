import Mathlib.Algebra.Order.BigOperators.Group.List
import Mathlib.Data.List.ReduceOption
import HttpSig.Sfv.Escapes
import HttpSig.Theorems.Completeness
import HttpSig.Theorems.Unambiguous

/-! Which built parameters read back as they are. A printed text has one backslash for each one in the strings, while
parsing takes two for a backslash and one for a quote: so nothing that reads back has any of the two. -/

namespace HttpSig
open Rust Sfv

/-! ### Sums over strings -/

/-- A character summed over texts. -/
def countAll (c : Char) (l : List Text) : Nat := (l.map fun s => s.count c).sum

/-- The escapes summed over texts. -/
def escapesAll (l : List Text) : Nat := (l.map escapes).sum

@[simp] theorem countAll_nil (c : Char) : countAll c [] = 0 := rfl
@[simp] theorem countAll_cons (c : Char) (s : Text) (l : List Text) : countAll c (s :: l) = s.count c + countAll c l := by
  simp [countAll]
@[simp] theorem countAll_append (c : Char) (l l' : List Text) : countAll c (l ++ l') = countAll c l + countAll c l' := by
  simp [countAll]
@[simp] theorem escapesAll_nil : escapesAll [] = 0 := rfl
@[simp] theorem escapesAll_cons (s : Text) (l : List Text) : escapesAll (s :: l) = escapes s + escapesAll l := by
  simp [escapesAll]
@[simp] theorem escapesAll_append (l l' : List Text) : escapesAll (l ++ l') = escapesAll l + escapesAll l' := by
  simp [escapesAll]

theorem escapesAll_eq (l : List Text) : escapesAll l = countAll '"' l + 2 * countAll '\\' l := by
  induction l with
  | nil => rfl
  | cons s l ih =>
    have hs : escapes s = s.count '"' + 2 * s.count '\\' := rfl
    rw [escapesAll_cons, countAll_cons, countAll_cons]
    omega

theorem isClean_of_counts {s : Text} (hq : s.count '"' = 0) (hb : s.count '\\' = 0) : isClean s = true := by
  rw [List.count_eq_zero] at hq hb
  rw [isClean, List.all_eq_true]
  intro c hc
  rw [Bool.and_eq_true, bne_iff_ne, bne_iff_ne]
  exact ⟨fun h => hq (h ▸ hc), fun h => hb (h ▸ hc)⟩

/-- Texts with no more escapes than backslashes have neither backslashes nor quotes. -/
theorem isClean_of_escapesAll_le {l : List Text} (h : escapesAll l ≤ countAll '\\' l) : ∀ s ∈ l, isClean s = true := by
  rw [escapesAll_eq] at h
  have hq : countAll '"' l = 0 := by omega
  have hb : countAll '\\' l = 0 := by omega
  rw [countAll, List.sum_eq_zero_iff_forall_eq_nat] at hq hb
  intro s hs
  exact isClean_of_counts (hq _ (List.mem_map_of_mem hs)) (hb _ (List.mem_map_of_mem hs))

theorem escapes_of_isPlain {s : Text} (h : ∀ c ∈ s, isPlain c = true) : escapes s = 0 := by
  have hq : s.count '"' = 0 := List.count_eq_zero.mpr fun hm => (isPlain_iff.mp (h _ hm)).2.2.1 rfl
  have hb : s.count '\\' = 0 := List.count_eq_zero.mpr fun hm => (isPlain_iff.mp (h _ hm)).2.2.2 rfl
  rw [escapes, hq, hb]

/-! ### Ids -/

/-- The strings of an id: its name and the values of its parameters. -/
def HttpMessageComponentId.strings (id : HttpMessageComponentId) : List Text :=
  id.name.inner :: id.params.items.filterMap HttpMessageComponentParam.value

/-- A character that no id has between its strings. -/
structure Foreign (c : Char) : Prop where
  key : isKeyChar c = false
  quote : c ≠ '"'
  semicolon : c ≠ ';'
  equals : c ≠ '='

section
variable {c : Char}

theorem Foreign.count_keyText (h : Foreign c) (p : HttpMessageComponentParam) : p.keyText.count c = 0 := by
  rw [List.count_eq_zero]
  intro hm
  have := p.isKeyChar_of_mem_keyText _ hm
  rw [h.key] at this
  cases this

theorem Foreign.count_valueTail (h : Foreign c) (o : Option Text) :
    (HttpMessageComponentParam.valueTail o).count c = countAll c o.toList := by
  cases o with
  | none => rfl
  | some v => simp [HttpMessageComponentParam.valueTail, h.equals.symm, h.quote.symm]

theorem Foreign.count_params (h : Foreign c) (l : List HttpMessageComponentParam) :
    (l.flatMap fun p => ';' :: p.toText).count c = countAll c (l.filterMap HttpMessageComponentParam.value) := by
  induction l with
  | nil => rfl
  | cons p l ih =>
    rw [List.flatMap_cons, List.count_append, ih, List.filterMap_cons, p.toText_eq, List.count_cons_of_ne h.semicolon.symm,
      List.count_append, h.count_keyText, h.count_valueTail]
    cases p.value with
    | none => simp
    | some v => simp

/-- A printed id has as many of them as its strings. -/
theorem Foreign.count_id (h : Foreign c) (id : HttpMessageComponentId) : id.toText.count c = countAll c id.strings := by
  rw [id.toText_eq, HttpMessageComponentId.strings, countAll_cons, ← h.count_params]
  simp [h.quote.symm]

end

theorem foreign_backslash : Foreign '\\' := ⟨by decide, by decide, by decide, by decide⟩

theorem count_join (l : List Text) : (join [' '] l).count '\\' = countAll '\\' l := by
  induction l with
  | nil => rfl
  | cons s l ih =>
    cases l with
    | nil => simp
    | cons t l =>
      rw [join_cons_cons, List.count_append, List.count_append, ih, countAll_cons]
      simp

theorem count_ids (ids : List HttpMessageComponentId) : (join [' '] (ids.map HttpMessageComponentId.toText)).count '\\' =
    countAll '\\' (ids.flatMap HttpMessageComponentId.strings) := by
  rw [count_join]
  induction ids with
  | nil => rfl
  | cons id ids ih =>
    rw [List.map_cons, countAll_cons, ih, foreign_backslash.count_id, List.flatMap_cons, countAll_append]

/-- An id has no more escapes than the item it is read from. -/
theorem escapes_readItem {i : Item} {id : HttpMessageComponentId} (h : HttpMessageComponentId.readItem i = .ok id) :
    escapesAll id.strings ≤ i.escapes := by
  obtain ⟨hname, hparams, -⟩ := HttpMessageComponentId.readItem_eq_ok.mp h
  obtain ⟨-, s, hs, hinner⟩ := HttpMessageComponentName.tryFrom_eq_ok.mp hname
  have hvalues : ∀ {l : List (Key × BareItem)} {ps : List HttpMessageComponentParam},
      List.Forall₂ (fun e p => HttpMessageComponentParam.tryFrom e.1.text e.2 = .ok p) l ps →
      escapesAll (ps.filterMap HttpMessageComponentParam.value) ≤ entriesEscapes l := by
    intro l ps hall
    induction hall with
    | nil => exact Nat.le_refl 0
    | @cons e p l ps hp _ ih =>
      have hentries : entriesEscapes (e :: l) = e.2.escapes + entriesEscapes l := by simp [entriesEscapes]
      obtain ⟨-, hvalue⟩ := HttpMessageComponentParam.tryFrom_eq_ok.mp hp
      rw [List.filterMap_cons, hentries]
      cases hv : p.value with
      | none => exact Nat.le_add_left_of_le ih
      | some v =>
        obtain ⟨s, hs, hsv⟩ := hvalue v hv
        have hcost : e.2.escapes = escapes v := by rw [hs, ← hsv]; rfl
        rw [escapesAll_cons, hcost]
        omega
  have hcost : i.bareItem.escapes = escapes id.name.inner := by
    rw [hs, hinner]
    rfl
  have hrest := hvalues (HttpMessageComponentParams.tryFrom_eq_ok.mp hparams)
  rw [HttpMessageComponentId.strings, escapesAll_cons, Item.escapes, hcost]
  omega

theorem escapes_id {i : Item} {id : HttpMessageComponentId}
    (h : HttpMessageComponentId.readItem (HttpMessageComponentId.asRead i) = .ok id) : escapesAll id.strings ≤ i.escapes := by
  by_cases hq : '"' ∈ serializeItem i
  · rw [HttpMessageComponentId.asRead, if_pos hq] at h
    exact escapes_readItem h
  · rw [HttpMessageComponentId.asRead, if_neg hq] at h
    have hplain : escapes (serializeItem i) = 0 := escapes_of_isPlain fun c hc => isPlain_of_mem_serializeItem hq hc
    have hquoted : (HttpMessageComponentId.quotedItem i).escapes = escapes (serializeItem i) := rfl
    have hle := escapes_readItem h
    rw [hquoted, hplain] at hle
    omega

theorem escapes_ids {items : List Item} {ids : List HttpMessageComponentId} (h : HttpSignatureParams.ReadsIds items ids) :
    escapesAll (ids.flatMap HttpMessageComponentId.strings) ≤ (items.map Item.escapes).sum := by
  induction h with
  | nil => exact Nat.le_refl 0
  | cons hid _ ih =>
    have := escapes_id hid
    rw [List.flatMap_cons, escapesAll_append, List.map_cons, List.sum_cons]
    omega

/-! ### Parameters -/

namespace HttpSignatureParams

/-- Every string of the parameters, those of the ids first. -/
def allStrings (p : HttpSignatureParams) : List Text :=
  p.coveredComponents.flatMap HttpMessageComponentId.strings ++ p.strings

theorem count_paramText {k : Text} (hk : '\\' ∉ k) (o : Option Text) :
    (paramText k (o.map quoted)).count '\\' = countAll '\\' o.toList := by
  have hkey : k.count '\\' = 0 := List.count_eq_zero.mpr hk
  cases o with
  | none => rfl
  | some s => simp [paramText, quoted, hkey]

theorem count_timeText {k : Text} (hk : '\\' ∉ k) (o : Option UInt64) :
    (paramText k (o.map fun n => natText n.toNat)).count '\\' = 0 := by
  have hkey : k.count '\\' = 0 := List.count_eq_zero.mpr hk
  cases o with
  | none => rfl
  | some n =>
    have hdigits : (natText n.toNat).count '\\' = 0 := by
      rw [List.count_eq_zero]
      intro hm
      have := isDigit_of_mem_natText hm
      revert this
      decide
    simp [paramText, hkey, hdigits]

theorem strings_eq (p : HttpSignatureParams) :
    p.strings = p.nonce.toList ++ (p.alg.toList ++ (p.keyid.toList ++ p.tag.toList)) := by
  have hcons : ∀ (o : Option Text) (l : List (Option Text)), (o :: l).reduceOption = o.toList ++ l.reduceOption := by
    intro o l
    cases o <;> rfl
  rw [strings, hcons, hcons, hcons, hcons]
  simp

/-- What is printed has the backslashes of its strings and no other. -/
theorem count_toText (p : HttpSignatureParams) : p.toText.count '\\' = countAll '\\' p.allStrings := by
  have hkey : ∀ k ∈ paramKeys, '\\' ∉ k := by
    intro k hk hm
    have := isKeyChar_of_mem_paramKeys k hk _ hm
    revert this
    decide
  have h₁ : "created".toList ∈ paramKeys := by simp [paramKeys]
  have h₂ : "expires".toList ∈ paramKeys := by simp [paramKeys]
  have h₃ : "nonce".toList ∈ paramKeys := by simp [paramKeys]
  have h₄ : "alg".toList ∈ paramKeys := by simp [paramKeys]
  have h₅ : "keyid".toList ∈ paramKeys := by simp [paramKeys]
  have h₆ : "tag".toList ∈ paramKeys := by simp [paramKeys]
  rw [toText_eq, List.cons_append, List.count_cons_of_ne (by decide), List.count_append, List.count_cons_of_ne (by decide),
    List.count_append, List.count_append, List.count_append, List.count_append, List.count_append, count_ids,
    count_timeText (hkey _ h₁), count_timeText (hkey _ h₂), count_paramText (hkey _ h₃), count_paramText (hkey _ h₄),
    count_paramText (hkey _ h₅), count_paramText (hkey _ h₆), allStrings, strings_eq, countAll_append, countAll_append,
    countAll_append, countAll_append]
  omega

theorem escapes_asText (b : BareItem) : escapesAll (asText b).toList = b.escapes := by
  cases b <;> rfl

/-- The strings under different keys have no more escapes than all the entries. -/
theorem escapes_entryValues {ks : List Text} (hks : ks.Nodup) (l : List (Key × BareItem)) :
    escapesAll (ks.flatMap fun k => ((entryValue l k).bind asText).toList) ≤ entriesEscapes l := by
  induction l with
  | nil =>
    have hnone : (ks.flatMap fun k => ((entryValue [] k).bind asText).toList) = [] :=
      List.flatMap_eq_nil_iff.mpr fun k _ => rfl
    rw [hnone]
    exact Nat.zero_le _
  | cons e l ih =>
    have hentries : entriesEscapes (e :: l) = e.2.escapes + entriesEscapes l := by simp [entriesEscapes]
    have hrest : ∀ {js : List Text}, e.1.text ∉ js → (js.flatMap fun k => ((entryValue (e :: l) k).bind asText).toList) =
        js.flatMap fun k => ((entryValue l k).bind asText).toList := by
      intro js hjs
      refine List.flatMap_congr fun k hk => ?_
      rw [entryValue_cons_ne fun h => hjs (h ▸ hk)]
    by_cases hk : e.1.text ∈ ks
    · obtain ⟨l₁, l₂, rfl⟩ := List.append_of_mem hk
      obtain ⟨-, hnd, hdis⟩ := List.nodup_append.mp hks
      have h₁ : e.1.text ∉ l₁ := fun h => hdis _ h _ (List.mem_cons_self ..) rfl
      have h₂ : e.1.text ∉ l₂ := (List.nodup_cons.mp hnd).1
      rw [List.flatMap_append, List.flatMap_cons, escapesAll_append, escapesAll_append] at ih ⊢
      rw [hrest h₁, hrest h₂, entryValue_cons_self, Option.bind_some, escapes_asText, hentries]
      omega
    · rw [hrest hk, hentries]
      exact Nat.le_add_left_of_le ih

/-- Parameters have no more escapes than the member they are read from. -/
theorem escapes_of_tryFrom {l : InnerList} {p : HttpSignatureParams} (h : tryFrom (.innerList l) = .ok p) :
    escapesAll p.allStrings ≤ l.escapes := by
  obtain ⟨ids, hids, -, -, rfl⟩ := tryFrom_innerList_eq_ok.mp h
  have hkeys : ["nonce".toList, "alg".toList, "keyid".toList, "tag".toList].Nodup := by decide
  have hstrings : (ofEntries ids l.params.entries).strings = ["nonce".toList, "alg".toList, "keyid".toList, "tag".toList].flatMap
      fun k => ((entryValue l.params.entries k).bind asText).toList := by
    rw [strings_eq]
    simp only [ofEntries, List.flatMap_cons, List.flatMap_nil, List.append_nil]
  have hids := escapes_ids hids
  have hentries := escapes_entryValues hkeys l.params.entries
  rw [allStrings, escapesAll_append, hstrings, InnerList.escapes]
  exact Nat.add_le_add hids hentries

/-! ### Parameters that read back -/

theorem asU64_le {b : BareItem} {n : UInt64} (h : asU64 b = some n) : n ≤ maxTime := by
  obtain ⟨i, -, rfl⟩ := Option.map_eq_some_iff.mp h
  have hbound : i.val ≤ 999999999999999 := i.bound.2
  have hmax : maxTime.toNat = 999999999999999 := rfl
  rw [UInt64.le_iff_toNat_le, UInt64.toNat_ofNat', hmax]
  omega

/-- What a member with clean strings converts to is printed without an escape. -/
theorem unaltered_of_isClean {l : InnerList} {p : HttpSignatureParams} (hread : tryFrom (.innerList l) = .ok p)
    (hclean : ∀ s ∈ p.allStrings, isClean s = true)
    (hids : ∀ id ∈ p.coveredComponents, ∃ val, HttpMessageComponentId.tryFrom val = .ok id) : p.Unaltered := by
  have hstring : ∀ {o : Option Text}, (∀ s ∈ o, s ∈ p.strings) → (∃ t : Option SfString, o = t.map SfString.text) →
      ∀ s ∈ o, Unescaped s := by
    rintro o hmem ⟨t, rfl⟩ s hs
    obtain ⟨t', -, rfl⟩ := Option.map_eq_some_iff.mp hs
    exact ⟨t'.valid, hclean _ (List.mem_append_right _ (hmem _ hs))⟩
  have hmem : ∀ {o : Option Text}, o ∈ [p.nonce, p.alg, p.keyid, p.tag] → ∀ s ∈ o, s ∈ p.strings := by
    rintro o ho s rfl
    exact List.reduceOption_mem_iff.mpr ho
  obtain ⟨nonce, alg, keyid, tag, hnonce, halg, hkeyid, htag⟩ := exists_strings hread
  obtain ⟨ids, -, -, -, hp⟩ := tryFrom_innerList_eq_ok.mp hread
  have htime : ∀ {o : Option UInt64} {k : Text}, o = (entryValue l.params.entries k).bind asU64 → ∀ n ∈ o, n ≤ maxTime := by
    rintro o k rfl n hn
    obtain ⟨b, -, hb⟩ := Option.bind_eq_some_iff.mp hn
    exact asU64_le hb
  exact {
    created := htime (congrArg HttpSignatureParams.created hp)
    expires := htime (congrArg HttpSignatureParams.expires hp)
    nonce := hstring (hmem (by simp)) ⟨nonce, hnonce⟩
    alg := hstring (hmem (by simp)) ⟨alg, halg⟩
    keyid := hstring (hmem (by simp)) ⟨keyid, hkeyid⟩
    tag := hstring (hmem (by simp)) ⟨tag, htag⟩
    ids := by
      intro id hid
      have hall : ∀ s ∈ id.strings, isClean s = true := fun s hs =>
        hclean s (List.mem_append_left _ (List.mem_flatMap.mpr ⟨id, hid, hs⟩))
      refine ⟨hids id hid, hall _ (List.mem_cons_self ..), fun q hq s hs => hall s ?_⟩
      exact List.mem_cons_of_mem _ (List.mem_filterMap.mpr ⟨q, hq, hs⟩) }

theorem ReadsBack.unaltered {p : HttpSignatureParams} (h : p.ReadsBack)
    (hids : ∀ id ∈ p.coveredComponents, ∃ val, HttpMessageComponentId.tryFrom val = .ok id) : p.Unaltered := by
  obtain ⟨l, hparse, hread⟩ := readsBack_iff.mp h
  refine unaltered_of_isClean hread (isClean_of_escapesAll_le (Nat.le_trans (escapes_of_tryFrom hread) ?_)) hids
  rw [← count_toText]
  exact escapes_of_parseListField hparse

/-- Built parameters over ids that were read from text read back as they are exactly when no time is too large, and
no string has a quote, a backslash or a character that is not printable. -/
theorem readsBack_iff_unaltered {p : HttpSignatureParams} (hp : p.Built)
    (hids : ∀ id ∈ p.coveredComponents, ∃ val, HttpMessageComponentId.tryFrom val = .ok id) :
    tryFromText p.toText = .ok p ↔ p.Unaltered :=
  ⟨fun h => ReadsBack.unaltered h hids, fun h => h.readsBack hp.hasUniqueElements⟩

theorem coveredParams_readsBack : tryFromText Message.coveredParams.toText = .ok Message.coveredParams :=
  (readsBack_iff_unaltered Message.coveredParams_built fun id hid => (Message.coveredParams_unaltered.ids id hid).1).mpr
    Message.coveredParams_unaltered

/-! ### A string that reads as two -/

/-- Parameters with a nonce that closes its own quotes. -/
def splitParams : HttpSignatureParams := { HttpSignatureParams.ofComponents [] with
  created := some 1
  nonce := some "a\";alg=\"b".toList }

theorem splitParams_built : splitParams.Built :=
  have h : HttpSignatureParams.Built { HttpSignatureParams.ofComponents [] with created := some 1 } :=
    @HttpSignatureParams.Built.tryNew [] 1 _ rfl
  @HttpSignatureParams.Built.set true _ _ (.setNonce "a\";alg=\"b".toList) h rfl

/-- A nonce with quotes reads back as a nonce and an algorithm. -/
theorem splitParams_altered : splitParams.Built ∧ splitParams.coveredComponents = [] ∧
    tryFromText splitParams.toText = .ok { HttpSignatureParams.ofComponents [] with
      created := some 1
      nonce := some "a".toList
      alg := some "b".toList } :=
  ⟨splitParams_built, rfl, by decide⟩

end HttpSignatureParams
end HttpSig
