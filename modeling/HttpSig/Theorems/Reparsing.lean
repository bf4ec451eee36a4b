import HttpSig.Theorems.Duplicates
import HttpSig.Theorems.Panics

/-! A covered item is serialized and read again as text, where its name and its parameters could be converted
as they are. The two ways agree on strings; any other item without a quote in its text turns into the header
field that its text spells. -/

namespace HttpSig
open Rust Sfv

/-! ### Items in the words of their ids -/

/-- What is kept of a parameter: its key, with the string under `name` and `key`. -/
def keptParameter (e : Key × BareItem) : Text × Option Text :=
  (e.1.text, if e.1.text = "name".toList ∨ e.1.text = "key".toList then e.2.asString.map SfString.text else none)

theorem keptParameter_of_tryFrom {e : Key × BareItem} {p : HttpMessageComponentParam}
    (h : HttpMessageComponentParam.tryFrom e.1.text e.2 = .ok p) : keptParameter e = (p.keyText, p.value) := by
  obtain ⟨hk, hv⟩ := HttpMessageComponentParam.tryFrom_eq_ok.mp h
  rw [keptParameter, ← hk]
  cases p with
  | sf | bs | tr | req => rfl
  | key val | name val =>
    obtain ⟨s, hs, rfl⟩ := hv val rfl
    rw [hs]
    rfl

/-- The name an item is read under: the string it is, or all of its text. -/
def nameText (i : Item) : Text :=
  match i.bareItem with
  | .string s => s.text
  | _ => serializeItem i

/-- The parameters kept of an item: of anything but a string they went into the name. -/
def keptParameters (i : Item) : List (Text × Option Text) :=
  match i.bareItem with
  | .string _ => i.params.entries.map keptParameter
  | _ => []

/-- Items that read as equal ids. -/
def SameId (i j : Item) : Prop := nameText i = nameText j ∧ (keptParameters i).Perm (keptParameters j)

namespace HttpMessageComponentId

theorem kept_of_readItem {i : Item} {id : HttpMessageComponentId} (h : readItem (asRead i) = .ok id) :
    id.name.WellFormed ∧ id.name.inner = nameText i ∧
      (id.params.items.map fun p => (p.keyText, p.value)) = keptParameters i := by
  have other : (∀ s, i.bareItem ≠ .string s) → nameText i = serializeItem i → keptParameters i = [] →
      id.name.WellFormed ∧ id.name.inner = nameText i ∧
        (id.params.items.map fun p => (p.keyText, p.value)) = keptParameters i := by
    intro hs hname hkept
    have hq : '"' ∉ serializeItem i := by
      intro hq
      obtain ⟨s, hb⟩ := exists_string_of_readItem hq h
      exact hs s hb
    have hdate : ∀ n, i.bareItem ≠ .date n := fun n hb => readItem_date_ne_ok hb id h
    rw [asRead, if_neg hq] at h
    obtain ⟨hn, hps, -⟩ := readItem_eq_ok.mp h
    obtain ⟨hwf, s, hs, hinner⟩ := HttpMessageComponentName.tryFrom_eq_ok.mp hn
    cases hs
    have hnone : ∅ = id.params := Outcome.ok.inj hps
    exact ⟨hwf, hinner.trans hname.symm, by rw [hkept, ← hnone]; rfl⟩
  cases hb : i.bareItem with
  | string s =>
    rw [asRead_string hb] at h
    obtain ⟨hn, hps, -⟩ := readItem_eq_ok.mp h
    obtain ⟨hwf, s', hs, hinner⟩ := HttpMessageComponentName.tryFrom_eq_ok.mp hn
    rw [hb] at hs
    cases hs
    refine ⟨hwf, by rw [hinner, nameText, hb], ?_⟩
    rw [keptParameters, hb, ← List.forall₂_eq_eq_eq, List.forall₂_map_left_iff, List.forall₂_map_right_iff]
    exact ((HttpMessageComponentParams.tryFrom_eq_ok.mp hps).imp fun _ _ h => (keptParameter_of_tryFrom h)).flip.imp
      fun _ _ h => h.symm
  | _ =>
    refine other ?_ (by rw [nameText, hb]) (by rw [keptParameters, hb])
    intro s hs
    rw [hb] at hs
    cases hs

/-- Two ids are equal when their items say the same. -/
theorem beq_iff_sameId {i j : Item} {a b : HttpMessageComponentId} (ha : readItem (asRead i) = .ok a)
    (hb : readItem (asRead j) = .ok b) : a.beq b = true ↔ SameId i j := by
  obtain ⟨hwa, hna, hpa⟩ := kept_of_readItem ha
  obtain ⟨hwb, hnb, hpb⟩ := kept_of_readItem hb
  have hinj : Function.Injective fun p : HttpMessageComponentParam => (p.keyText, p.value) := by
    intro p q hpq
    obtain ⟨hk, hv⟩ := Prod.mk.inj hpq
    exact HttpMessageComponentParam.eq_of_keyText_of_value hk hv
  rw [beq_iff, SameId, ← hna, ← hnb, ← hpa, ← hpb, List.map_perm_map_iff hinj]
  refine and_congr_left fun _ => ⟨congrArg _, HttpMessageComponentName.inner_inj hwa hwb⟩

end HttpMessageComponentId

namespace HttpSignatureParams

theorem pairwise_of_readsIds {items : List Item} {ids : List HttpMessageComponentId} (h : ReadsIds items ids) :
    (ids.Pairwise fun a b => a.beq b = false) ↔ items.Pairwise fun i j => ¬SameId i j := by
  induction h with
  | nil => exact iff_of_true .nil .nil
  | @cons i id items ids hi h ih =>
    rw [List.pairwise_cons, List.pairwise_cons, ih]
    refine and_congr_left fun _ => ⟨fun hid j hj hs => ?_, fun hit b hb => ?_⟩
    · obtain ⟨b, hb, hjb⟩ := Outcome.exists_of_mem_right h.flip hj
      have := hid b hb
      rw [(HttpMessageComponentId.beq_iff_sameId hi hjb).mpr hs] at this
      cases this
    · obtain ⟨j, hj, hjb⟩ := Outcome.exists_of_mem_right h hb
      rw [← Bool.not_eq_true, HttpMessageComponentId.beq_iff_sameId hi hjb]
      exact hit j hj

/-! ### The two ways -/

/-- The id of a string, converted as it is. -/
def ConvertsTo (i : Item) (id : HttpMessageComponentId) : Prop :=
  (∃ s, i.bareItem = .string s) ∧ HttpMessageComponentName.tryFrom i.bareItem = .ok id.name ∧
    HttpMessageComponentParams.tryFrom i.params = .ok id.params

/-- Whatever the list converts to covers the ids that its items convert to. -/
def ConvertsItems (l : InnerList) : Prop :=
  ∀ p, tryFrom (.innerList l) = .ok p → List.Forall₂ ConvertsTo l.items p.coveredComponents

/-- A list that fails whatever the types of its items: one of them does not read, two of them are the same id,
or a time lies before the epoch. -/
def Flawed (l : InnerList) : Prop :=
  (∃ i ∈ l.items, HttpMessageComponentId.isReadable i = false) ∨ (¬l.items.Pairwise fun i j => ¬SameId i j) ∨
    l.params.entries.any isNegative = true

theorem flawed_iff {l : InnerList} : Flawed l ↔ ∀ p, tryFrom (.innerList l) ≠ .ok p := by
  rw [← not_iff_not, ← not_exists, not_not, ← accepted_iff, Accepted, Flawed]
  simp only [readsTexts_iff, not_or, not_exists, not_and, not_not, Bool.not_eq_false, Bool.not_eq_true,
    hasUniqueElements_iff]
  constructor
  · rintro ⟨hread, hpair, hneg⟩
    have hids : ∃ ids, ReadsIds l.items ids := by
      obtain ⟨ids, hids⟩ := Outcome.exists_mapM_eq_ok fun i hi => HttpMessageComponentId.isReadable_iff.mp (hread i hi)
      exact ⟨ids, mapM_tryFrom_eq_ok.mp hids⟩
    obtain ⟨ids, hids⟩ := hids
    exact ⟨ids, hids, (pairwise_of_readsIds hids).mpr hpair, hneg⟩
  · rintro ⟨ids, hids, hpair, hneg⟩
    refine ⟨fun i hi => ?_, (pairwise_of_readsIds hids).mp hpair, hneg⟩
    obtain ⟨id, -, h⟩ := Outcome.exists_of_mem_right hids.flip hi
    rw [← HttpMessageComponentId.tryFrom_serializeItem] at h
    exact HttpMessageComponentId.isReadable_iff.mpr ⟨id, h⟩

/-- The text in between makes no difference exactly when every item is a string, or the list fails anyway. -/
theorem convertsItems_iff {l : InnerList} :
    ConvertsItems l ↔ (∀ i ∈ l.items, ∃ s, i.bareItem = .string s) ∨ Flawed l := by
  constructor
  · intro h
    by_cases hf : Flawed l
    · exact Or.inr hf
    · rw [flawed_iff, not_forall] at hf
      obtain ⟨p, hp⟩ := hf
      refine Or.inl fun i hi => ?_
      obtain ⟨id, -, hid⟩ := Outcome.exists_of_mem_right (h p (not_not.mp hp)).flip hi
      exact hid.1
  · rintro (hs | hf) p hp
    · obtain ⟨ids, hids, -, -, rfl⟩ := tryFrom_innerList_eq_ok.mp hp
      refine ((List.forall₂_and_left l.items _).mpr ⟨hs, hids⟩).imp fun i id ⟨⟨s, hb⟩, h⟩ => ?_
      rw [HttpMessageComponentId.asRead_string hb] at h
      obtain ⟨hn, hps, -⟩ := HttpMessageComponentId.readItem_eq_ok.mp h
      exact ⟨⟨s, hb⟩, hn, hps⟩
    · exact absurd hp (flawed_iff.mp hf p)

/-! ### A token for a name -/

def dateToken : Item := ⟨.token ⟨"date".toList, by decide⟩, ∅⟩

/-- The token is no name by itself, and with quotes around its text it is the field of a string. -/
theorem dateToken_converts : tryFrom (.innerList ⟨[dateToken], ∅⟩) = .ok (ofComponents [fieldId "date"]) ∧
    HttpMessageComponentName.tryFrom dateToken.bareItem =
      .err (.invalidComponentName "Invalid http message component name: ".toList) ∧
    ¬ConvertsItems ⟨[dateToken], ∅⟩ := by
  have htoken : tryFrom (.innerList ⟨[dateToken], ∅⟩) = .ok (ofComponents [fieldId "date"]) := by decide
  refine ⟨htoken, rfl, fun h => ?_⟩
  obtain ⟨⟨s, hs⟩, -, -⟩ := (List.forall₂_cons.mp (h _ htoken)).1
  cases hs

end HttpSignatureParams
end HttpSig
