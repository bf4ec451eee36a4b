import HttpSig.Theorems.EqualIds
import HttpSig.Theorems.Idempotence

/-! Which lines a field does not take under its parameters. `sf` wants structured lines and the first `key` wants
dictionaries. What a `key` leaves are printed members; `sf` takes them all, but of them only the bare keys are
dictionaries for another `key`. -/

namespace HttpSig
open Rust Sfv

/-! ### Printed members -/

/-- A printed member is a dictionary when it is a bare key with parameters. -/
theorem parseDictionaryField_entry (e : ListEntry) :
    parseDictionaryField (serializeListEntry e) = (bareMember e).map fun m => IndexMap.ofList [m] := by
  have hread : listMember.Reads (serializeListEntry e) [e] := by
    have h := listMember_undoes.reads_join (List.cons_ne_nil e [])
    rwa [List.map_singleton, join_singleton] at h
  rw [parseDictionaryField_eq, hread.dropSp_eq, dictionaryMember_of_list hread, List.mapM_cons]
  cases bareMember e <;> rfl

/-! ### Further keys -/

/-- The keys that the parameters select, in their order. -/
def selectedKeys (ps : List HttpMessageComponentParam) : List Text :=
  ps.filterMap fun
    | .key val => some val
    | _ => none

/-- A member that the keys behind its own do not take: one that is no bare key, and the first of them itself when another
one follows. -/
def RefusesMember : List Text → ListEntry → Prop
  | [], _ => False
  | key :: keys, e => ∀ m ∈ bareMember e, m.1.text = key ∧ keys ≠ []

/-- The value true is no bare key, so every key refuses it. -/
theorem refusesMember_of_bareMember {e : ListEntry} {m : Key × ListEntry} (h : bareMember e = some m) (keys : List Text) :
    RefusesMember keys m.2 ↔ keys ≠ [] := by
  obtain ⟨k, ps, -, rfl⟩ := bareMember_eq_some h
  cases keys with
  | nil => simp [RefusesMember]
  | cons key keys => simp [RefusesMember, bareMember]

/-- The members that are bare keys, read as dictionaries: what a key picks out of them is refused by the keys behind it
exactly when one of the members is refused by all. -/
theorem exists_refusesMember_cons {key : Text} {keys : List Text} {es : List ListEntry} {ds : List Dictionary}
    (h : List.Forall₂ (fun e d => ∃ m, bareMember e = some m ∧ d = IndexMap.ofList [m]) es ds) :
    (∃ e ∈ ds.filterMap (dictionaryGet · key), RefusesMember keys e) ↔ ∃ e ∈ es, RefusesMember (key :: keys) e := by
  simp only [List.mem_filterMap]
  constructor
  · rintro ⟨e', ⟨d, hmem, hget⟩, href⟩
    obtain ⟨e, he, m, hm, rfl⟩ := Outcome.exists_of_mem_right h hmem
    rw [dictionaryGet_single] at hget
    split at hget
    · rename_i hkey
      cases hget
      refine ⟨e, he, fun m' hm' => ?_⟩
      cases hm.symm.trans hm'
      exact ⟨hkey, (refusesMember_of_bareMember hm _).mp href⟩
    · cases hget
  · rintro ⟨e, he, href⟩
    obtain ⟨d, hmem, m, hm, rfl⟩ := Outcome.exists_of_mem_right h.flip he
    obtain ⟨hkey, hne⟩ := href m hm
    exact ⟨m.2, ⟨_, hmem, by rw [dictionaryGet_single, if_pos hkey]⟩, (refusesMember_of_bareMember hm _).mpr hne⟩

/-- Printed members under parameters that a field takes. -/
theorem foldlM_entries : ∀ {ps : List HttpMessageComponentParam}, (∀ q ∈ ps, q.isUnsupported = false) →
    ∀ es : List ListEntry, (ps.foldlM handleParam (es.map serializeListEntry)).ok? = none ↔
      ∃ e ∈ es, RefusesMember (selectedKeys ps) e
  | [], _, es => by simp [selectedKeys, RefusesMember, Outcome.ok?]
  | q :: ps, hs, es => by
    obtain ⟨hq, hps⟩ := List.forall_mem_cons.mp hs
    have ih := foldlM_entries hps
    rw [List.foldlM_cons, Outcome.ok?_bind]
    cases q with
    | req => exact ih es
    | sf =>
      rw [handleParam, handleParamsSf, Outcome.ok?_mapM, mapM_reserialize_entries, Option.bind_some]
      exact ih es
    | key key =>
      rw [handleParam, handleParamsKeyInto_ok?]
      have hkeys : selectedKeys (.key key :: ps) = key :: selectedKeys ps := rfl
      cases hd : (es.map serializeListEntry).mapM parseDictionaryField with
      | none =>
        obtain ⟨v, hv, hnone⟩ := mapM_eq_none.mp hd
        obtain ⟨e, he, rfl⟩ := List.mem_map.mp hv
        rw [parseDictionaryField_entry, Option.map_eq_none_iff] at hnone
        refine iff_of_true rfl ⟨e, he, ?_⟩
        rw [hkeys, RefusesMember, hnone]
        simp
      | some ds =>
        rw [mapM_eq_some, List.forall₂_map_left_iff] at hd
        have hd : List.Forall₂ (fun e d => ∃ m, bareMember e = some m ∧ d = IndexMap.ofList [m]) es ds := by
          refine hd.imp fun e d h => ?_
          rw [parseDictionaryField_entry] at h
          obtain ⟨m, hm, rfl⟩ := Option.map_eq_some_iff.mp h
          exact ⟨m, hm, rfl⟩
        rw [Option.map_some, Option.bind_some, filterMap_memberText, ih, hkeys, exists_refusesMember_cons hd]
    | bs | tr | name val => cases hq

/-! ### Lines -/

/-- `sf` stands before every `key`. -/
def sfFirst : List HttpMessageComponentParam → Bool
  | [] => false
  | .sf :: _ => true
  | .key _ :: _ => false
  | _ :: ps => sfFirst ps

/-- A line that is no dictionary, or whose member under the first key is refused by the others. -/
def RefusesLine (key : Text) (keys : List Text) (v : Text) : Prop :=
  ∀ d, parseDictionaryField v = some d → ∃ e, dictionaryGet d key = some e ∧ RefusesMember keys e

/-- What `sf` and `key` do not take: in front of every key `sf` wants structured lines, and the keys refuse a line by
themselves. -/
def RefusesLines (ps : List HttpMessageComponentParam) (vs : List Text) : Prop :=
  (sfFirst ps = true ∧ ∃ v ∈ vs, ¬IsStructured v) ∨
  ∃ key keys, selectedKeys ps = key :: keys ∧ ∃ v ∈ vs, RefusesLine key keys v

/-- The lines of a field are rejected by a parameter that no field takes, or they are refused. -/
def RejectsLines (ps : List HttpMessageComponentParam) (vs : List Text) : Prop :=
  (∃ q ∈ ps, q.isUnsupported = true) ∨ RefusesLines ps vs

theorem refusesLine_congr {v w : Text} (h : parseDictionaryField w = parseDictionaryField v) (key : Text) (keys : List Text) :
    RefusesLine key keys w ↔ RefusesLine key keys v := by
  rw [RefusesLine, RefusesLine, h]

theorem isStructured_of_reserialize {v t : Text} (h : (reserialize v).ok? = some t) : IsStructured t := by
  by_contra hno
  have hnone := reserialize_eq_none.mpr hno
  rw [reserialize_idempotent (Outcome.ok?_eq_some.mp h)] at hnone
  cases hnone

/-- With `sf` in front it is the printed lines that the other parameters are asked about, and these are structured. -/
theorem refusesLines_sf {ps : List HttpMessageComponentParam} {vs ws : List Text}
    (h : List.Forall₂ (fun v w => (reserialize v).ok? = some w) vs ws) :
    RefusesLines (.sf :: ps) vs ↔ RefusesLines ps ws := by
  have hvs : ¬∃ v ∈ vs, ¬IsStructured v := by
    rintro ⟨v, hv, hno⟩
    obtain ⟨w, -, hw⟩ := Outcome.exists_of_mem_right h.flip hv
    have hw : (reserialize v).ok? = some w := hw
    rw [reserialize_eq_none.mpr hno] at hw
    cases hw
  have hws : ¬∃ w ∈ ws, ¬IsStructured w := by
    rintro ⟨w, hw, hno⟩
    obtain ⟨v, -, hv⟩ := Outcome.exists_of_mem_right h hw
    exact hno (isStructured_of_reserialize hv)
  have hline : ∀ key keys, (∃ v ∈ vs, RefusesLine key keys v) ↔ ∃ w ∈ ws, RefusesLine key keys w := by
    intro key keys
    constructor
    · rintro ⟨v, hv, href⟩
      obtain ⟨w, hw, hvw⟩ := Outcome.exists_of_mem_right h.flip hv
      exact ⟨w, hw, (refusesLine_congr (parseDictionaryField_reserialize hvw) key keys).mpr href⟩
    · rintro ⟨w, hw, href⟩
      obtain ⟨v, hv, hvw⟩ := Outcome.exists_of_mem_right h hw
      exact ⟨v, hv, (refusesLine_congr (parseDictionaryField_reserialize hvw) key keys).mp href⟩
  have hkeys : selectedKeys (.sf :: ps) = selectedKeys ps := rfl
  simp only [RefusesLines, hvs, hws, and_false, false_or, hkeys, hline]

/-- With a key in front it is the members under it that the other keys are asked about. -/
theorem refusesLines_key {ps : List HttpMessageComponentParam} {key : Text} {vs : List Text} {ds : List Dictionary}
    (h : List.Forall₂ (fun v d => parseDictionaryField v = some d) vs ds) :
    RefusesLines (.key key :: ps) vs ↔ ∃ e ∈ ds.filterMap (dictionaryGet · key), RefusesMember (selectedKeys ps) e := by
  have hkeys : selectedKeys (.key key :: ps) = key :: selectedKeys ps := rfl
  have hfirst : sfFirst (.key key :: ps) = false := rfl
  simp only [RefusesLines, hfirst, Bool.false_eq_true, false_and, false_or, hkeys, List.cons.injEq, List.mem_filterMap]
  constructor
  · rintro ⟨_, _, ⟨rfl, rfl⟩, v, hv, href⟩
    obtain ⟨d, hd, hvd⟩ := Outcome.exists_of_mem_right h.flip hv
    obtain ⟨e, he, href⟩ := href d hvd
    exact ⟨e, ⟨d, hd, he⟩, href⟩
  · rintro ⟨e, ⟨d, hd, he⟩, href⟩
    obtain ⟨v, hv, hvd⟩ := Outcome.exists_of_mem_right h hd
    refine ⟨key, _, ⟨rfl, rfl⟩, v, hv, fun d' hd' => ⟨e, ?_, href⟩⟩
    cases hvd.symm.trans hd'
    exact he

/-- Lines under parameters that a field takes. -/
theorem foldlM_lines : ∀ {ps : List HttpMessageComponentParam}, (∀ q ∈ ps, q.isUnsupported = false) →
    ∀ vs : List Text, (ps.foldlM handleParam vs).ok? = none ↔ RefusesLines ps vs
  | [], _, vs => by simp [RefusesLines, sfFirst, selectedKeys, Outcome.ok?]
  | q :: ps, hs, vs => by
    obtain ⟨hq, hps⟩ := List.forall_mem_cons.mp hs
    rw [List.foldlM_cons, Outcome.ok?_bind]
    cases q with
    | req => exact foldlM_lines hps vs
    | sf =>
      rw [handleParam, handleParamsSf, Outcome.ok?_mapM]
      cases hws : vs.mapM fun v => (reserialize v).ok? with
      | none =>
        obtain ⟨v, hv, hno⟩ := mapM_eq_none.mp hws
        exact iff_of_true rfl (Or.inl ⟨rfl, v, hv, reserialize_eq_none.mp hno⟩)
      | some ws =>
        rw [Option.bind_some, foldlM_lines hps, refusesLines_sf (mapM_eq_some.mp hws)]
    | key key =>
      rw [handleParam, handleParamsKeyInto_ok?]
      cases hds : vs.mapM parseDictionaryField with
      | none =>
        obtain ⟨v, hv, hno⟩ := mapM_eq_none.mp hds
        refine iff_of_true rfl (Or.inr ⟨key, _, rfl, v, hv, fun d hd => ?_⟩)
        rw [hno] at hd
        cases hd
      | some ds =>
        rw [Option.map_some, Option.bind_some, filterMap_memberText, foldlM_entries hps, refusesLines_key (mapM_eq_some.mp hds)]
    | bs | tr | name val => cases hq

/-- Reading the lines fails exactly when the parameters reject them. -/
theorem foldlM_handleParam_eq_none {ps : List HttpMessageComponentParam} {vs : List Text} :
    (ps.foldlM handleParam vs).ok? = none ↔ RejectsLines ps vs := by
  by_cases hun : ∃ q ∈ ps, q.isUnsupported = true
  · obtain ⟨q, hq, hu⟩ := hun
    exact iff_of_true (foldlM_unsupported hq hu vs) (Or.inl ⟨q, hq, hu⟩)
  · rw [RejectsLines, or_iff_right hun]
    refine foldlM_lines (fun q hq => ?_) vs
    rw [← Bool.not_eq_true]
    exact fun hu => hun ⟨q, hq, hu⟩

/-- Without lines there is nothing to refuse. -/
theorem not_refusesLines_nil (ps : List HttpMessageComponentParam) : ¬RefusesLines ps [] := by
  simp [RefusesLines]

end HttpSig
