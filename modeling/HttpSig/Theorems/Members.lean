import HttpSig.SignatureParams
import HttpSig.Theorems.Ids

/-! Reading a `signature-input` member: which members convert to signature parameters, which ones make the
conversion panic, and what the parameters are. -/

namespace HttpSig
open Rust Sfv

/-- The value under a key, by the key's text. -/
def entryValue {α : Type} (l : List (Key × α)) (k : Text) : Option α := (l.find? fun e => e.1.text = k).map Prod.snd

section
variable {α : Type}

theorem entryValue_eq_none {l : List (Key × α)} {k : Text} : entryValue l k = none ↔ ∀ e ∈ l, e.1.text ≠ k := by
  simp [entryValue, List.find?_eq_none]

theorem entryValue_cons_self (e : Key × α) (l : List (Key × α)) : entryValue (e :: l) e.1.text = some e.2 := by
  simp [entryValue]

theorem entryValue_cons_ne {e : Key × α} {l : List (Key × α)} {k : Text} (h : e.1.text ≠ k) :
    entryValue (e :: l) k = entryValue l k := by
  simp [entryValue, h]

theorem mem_of_entryValue {l : List (Key × α)} {k : Text} {a : α} (h : entryValue l k = some a) :
    ∃ e ∈ l, e.1.text = k ∧ e.2 = a := by
  obtain ⟨e, he, rfl⟩ := Option.map_eq_some_iff.mp h
  exact ⟨e, List.mem_of_find?_eq_some he, by simpa using List.find?_some he, rfl⟩

theorem entryValue_append_singleton {l : List (Key × α)} {e : Key × α} (h : ((l ++ [e]).map Prod.fst).Nodup) (k : Text) :
    entryValue (l ++ [e]) k = if e.1.text = k then some e.2 else entryValue l k := by
  split
  · rename_i hk
    have hl : entryValue l k = none := by
      rw [entryValue_eq_none]
      intro f hf hfk
      rw [List.map_append, List.nodup_append] at h
      exact h.2.2 f.1 (List.mem_map.mpr ⟨f, hf, rfl⟩) e.1 (by simp) (Key.ext (hfk.trans hk.symm))
    simp only [entryValue, List.find?_append, Option.map_eq_none_iff] at hl ⊢
    simp [hl, hk]
  · rename_i hk
    simp [entryValue, List.find?_append, hk]

end

namespace HttpSignatureParams

/-! ### The six keys -/

def createdKey : Key := ⟨"created".toList, by decide⟩
def expiresKey : Key := ⟨"expires".toList, by decide⟩
def nonceKey : Key := ⟨"nonce".toList, by decide⟩
def algKey : Key := ⟨"alg".toList, by decide⟩
def keyidKey : Key := ⟨"keyid".toList, by decide⟩
def tagKey : Key := ⟨"tag".toList, by decide⟩

/-! ### Signature parameters of a list of entries -/

/-- An integer where an unsigned one is read: a creation or an expiry time before the epoch. -/
def isNegative (e : Key × BareItem) : Bool :=
  (e.1.text = "created".toList || e.1.text = "expires".toList) && match e.2 with
    | .integer i => i.val < 0
    | _ => false

def asU64 (b : BareItem) : Option UInt64 := b.asInteger.map fun i => UInt64.ofNat i.val.toNat

def asText (b : BareItem) : Option Text := b.asString.map SfString.text

/-- The parameters that a list of entries gives, each from the value under its own key. -/
def ofEntries (ids : List HttpMessageComponentId) (l : List (Key × BareItem)) : HttpSignatureParams where
  created := (entryValue l "created".toList).bind asU64
  expires := (entryValue l "expires".toList).bind asU64
  nonce := (entryValue l "nonce".toList).bind asText
  alg := (entryValue l "alg".toList).bind asText
  keyid := (entryValue l "keyid".toList).bind asText
  tag := (entryValue l "tag".toList).bind asText
  coveredComponents := ids

theorem toU64_eq {e : Key × BareItem} (hk : e.1.text = "created".toList ∨ e.1.text = "expires".toList) :
    toU64 e.2 = if isNegative e = true then .panic else .ok (asU64 e.2) := by
  have hk : (decide (e.1.text = "created".toList) || decide (e.1.text = "expires".toList)) = true := by
    rw [Bool.or_eq_true, decide_eq_true_eq, decide_eq_true_eq]
    exact hk
  rw [isNegative, hk, Bool.true_and]
  clear hk
  obtain ⟨k, b⟩ := e
  cases b with
  | integer i =>
    by_cases h : i.val < 0
    · simp [toU64, BareItem.asInteger, h, Int.not_le.mpr h]
    · simp [toU64, BareItem.asInteger, asU64, h, Int.not_lt.mp h]
  | _ => rfl

/-- What one entry does: it sets the parameter it names, or panics when it is negative. -/
theorem readParam_eq (p : HttpSignatureParams) (e : Key × BareItem) : p.readParam e.1.text e.2 =
    if isNegative e = true then .panic else .ok
      { created := if e.1.text = "created".toList then asU64 e.2 else p.created
        expires := if e.1.text = "expires".toList then asU64 e.2 else p.expires
        nonce := if e.1.text = "nonce".toList then asText e.2 else p.nonce
        alg := if e.1.text = "alg".toList then asText e.2 else p.alg
        keyid := if e.1.text = "keyid".toList then asText e.2 else p.keyid
        tag := if e.1.text = "tag".toList then asText e.2 else p.tag
        coveredComponents := p.coveredComponents } := by
  unfold readParam
  split
  · rename_i hk
    rw [toU64_eq (Or.inl hk), hk]
    split <;> rfl
  · rename_i h₁
    split
    · rename_i hk
      rw [toU64_eq (Or.inr hk), hk]
      split <;> rfl
    · rename_i h₂
      have hneg : isNegative e = false := by
        rw [isNegative, decide_eq_false h₁, decide_eq_false h₂]
        rfl
      rw [hneg, if_neg Bool.false_ne_true]
      iterate 3
        split
        · rename_i hk
          rw [hk]
          rfl
      split <;> rfl

theorem foldlM_readParam {ids : List HttpMessageComponentId} {l : List (Key × BareItem)}
    (hnd : (l.map Prod.fst).Nodup) : l.foldlM (fun p e => p.readParam e.1.text e.2) (ofComponents ids) =
      if l.any isNegative = true then .panic else .ok (ofEntries ids l) := by
  induction l using List.reverseRecOn with
  | nil => rfl
  | append_singleton l e ih =>
    have hl : (l.map Prod.fst).Nodup := by
      rw [List.map_append] at hnd
      exact hnd.of_append_left
    rw [List.foldlM_append, ih hl, List.any_append]
    cases hneg : l.any isNegative
    · rw [if_neg Bool.false_ne_true, Outcome.ok_bind, List.foldlM_cons, readParam_eq, Bool.false_or, List.any_cons, List.any_nil, Bool.or_false]
      split
      · rfl
      · show Outcome.ok _ = Outcome.ok _
        simp only [ofEntries, entryValue_append_singleton hnd]
        congr 2 <;> (split <;> rfl)
    · rfl

/-! ### Members -/

/-- The ids of a member, read in order. -/
def ReadsIds (items : List Item) (ids : List HttpMessageComponentId) : Prop :=
  List.Forall₂ (fun i id => HttpMessageComponentId.readItem (HttpMessageComponentId.asRead i) = .ok id) items ids

theorem mapM_tryFrom_eq_ok {items : List Item} {ids : List HttpMessageComponentId} :
    (items.mapM fun v => HttpMessageComponentId.tryFrom (serializeItem v)) = .ok ids ↔ ReadsIds items ids := by
  simp only [HttpMessageComponentId.tryFrom_serializeItem, Outcome.mapM_eq_ok, ReadsIds]

/-- What happens to the ids of a member once they are read. -/
theorem tryFrom_innerList_eq (l : InnerList) : tryFrom (.innerList l) =
    (l.items.mapM fun v => HttpMessageComponentId.tryFrom (serializeItem v)) >>= fun ids =>
      if hasUniqueElements ids = true then
        if l.params.entries.any isNegative = true then .panic else .ok (ofEntries ids l.params.entries)
      else .err (.invalidSignatureParams "duplicate covered component ids".toList) := by
  rw [tryFrom]
  congr 1
  funext ids
  rw [foldlM_readParam l.params.nodup]
  cases hasUniqueElements ids <;> rfl

/-- What a member must be to convert, and what it converts to. -/
theorem tryFrom_innerList_eq_ok {l : InnerList} {p : HttpSignatureParams} : tryFrom (.innerList l) = .ok p ↔
    ∃ ids, ReadsIds l.items ids ∧ hasUniqueElements ids = true ∧ l.params.entries.any isNegative = false ∧
      p = ofEntries ids l.params.entries := by
  rw [tryFrom_innerList_eq, Outcome.bind_eq_ok]
  refine exists_congr fun ids => ?_
  rw [mapM_tryFrom_eq_ok]
  refine and_congr_right fun _ => ?_
  cases hasUniqueElements ids
  · simp
  · cases l.params.entries.any isNegative <;> simp [eq_comm]

/-- A member panics by its first id that is not read, or else by a negative time. -/
theorem tryFrom_innerList_eq_panic {l : InnerList} : tryFrom (.innerList l) = .panic ↔
    (∃ l₁ i l₂, l.items = l₁ ++ i :: l₂ ∧
      (∀ j ∈ l₁, ∃ id, HttpMessageComponentId.readItem (HttpMessageComponentId.asRead j) = .ok id) ∧
      HttpMessageComponentId.readItem (HttpMessageComponentId.asRead i) = .panic) ∨
    ∃ ids, ReadsIds l.items ids ∧ hasUniqueElements ids = true ∧ l.params.entries.any isNegative = true := by
  rw [tryFrom_innerList_eq, Outcome.bind_eq_panic]
  refine or_congr ?_ ?_
  · simp only [HttpMessageComponentId.tryFrom_serializeItem, Outcome.mapM_eq_panic]
  · refine exists_congr fun ids => ?_
    rw [mapM_tryFrom_eq_ok]
    refine and_congr_right fun _ => ?_
    cases hasUniqueElements ids
    · simp
    · cases l.params.entries.any isNegative <;> simp

end HttpSignatureParams
end HttpSig
