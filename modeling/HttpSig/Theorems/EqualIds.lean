import HttpSig.Sfv.Reprint
import HttpSig.Theorems.Joining
import HttpSig.Theorems.Verbatim

/-! Components of equal ids. Equality ignores the order of the parameters and a field is read in that order; `sf` and
`key` come to the same in both orders, but for a blank line: `sf` has nothing to print of it, and `key` drops it. -/

namespace HttpSig
open Rust Sfv

/-! ### Printed lines -/

/-- A line keeps its dictionary when it is printed again. -/
theorem parseDictionaryField_reserialize {v t : Text} (h : (reserialize v).ok? = some t) :
    parseDictionaryField t = parseDictionaryField v := by
  have hs : IsStructured v := by
    by_contra hs
    rw [reserialize_eq_none.mpr hs] at h
    cases h
  cases hl : listMember.members (dropSp v) with
  | some l =>
    have hread := MemberParser.reads_of_members hs.1 hl
    rw [reserialize_list hread] at h
    cases h
    have hprint : listMember.Reads (join ", ".toList (l.map serializeListEntry)) l :=
      listMember_undoes.reads_join hread.ne_nil
    rw [parseDictionaryField_eq, parseDictionaryField_eq, hprint.dropSp_eq, dictionaryMember_of_list hprint,
      dictionaryMember_of_list hread]
  | none =>
    obtain ⟨ms, hms⟩ := Option.ne_none_iff_exists'.mp (hs.reads.resolve_left fun h => h hl)
    have hread := MemberParser.reads_of_members hs.1 hms
    rw [reserialize_dictionary (by rw [parseListField_eq, hl]) hread] at h
    cases h
    have hprint : dictionaryMember.Reads (join ", ".toList ((IndexMap.ofList ms).entries.map fun m => serializeMember m.1 m.2))
        (IndexMap.ofList ms).entries := dictionaryMember_undoes.reads_join (IndexMap.entries_ofList_ne_nil hread.ne_nil)
    rw [parseDictionaryField_eq, parseDictionaryField_eq, hprint.dropSp_eq, hprint.members, hms, Option.map_some,
      Option.map_some, IndexMap.ofList_entries]

theorem mapM_parseDictionaryField_reserialize : ∀ {vs ws : List Text}, (vs.mapM fun v => (reserialize v).ok?) = some ws →
    ws.mapM parseDictionaryField = vs.mapM parseDictionaryField
  | [], ws, h => by
    cases h
    rfl
  | v :: vs, ws, h => by
    rw [List.mapM_cons] at h
    obtain ⟨t, ht, h⟩ := Option.bind_eq_some_iff.mp h
    obtain ⟨ts, hts, h⟩ := Option.bind_eq_some_iff.mp h
    cases h
    rw [List.mapM_cons, List.mapM_cons, parseDictionaryField_reserialize ht, mapM_parseDictionaryField_reserialize hts]

/-- A printed entry is printed again as it is. -/
theorem reserialize_entry (e : ListEntry) : (reserialize (serializeListEntry e)).ok? = some (serializeListEntry e) := by
  rw [reserialize, parseListField_entry]
  dsimp only
  rw [serializeList_singleton]
  rfl

theorem mapM_reserialize_entries (es : List ListEntry) :
    ((es.map serializeListEntry).mapM fun v => (reserialize v).ok?) = some (es.map serializeListEntry) := by
  rw [mapM_eq_some, List.forall₂_same]
  intro v hv
  obtain ⟨e, -, rfl⟩ := List.mem_map.mp hv
  exact reserialize_entry e

/-- What a key selects of some dictionaries, as entries. -/
theorem filterMap_memberText (key : Text) (ds : List Dictionary) :
    ds.filterMap (memberText key) = (ds.filterMap (dictionaryGet · key)).map serializeListEntry := by
  rw [List.map_filterMap]
  rfl

/-! ### The two orders -/

section
variable {ps : HttpMessageComponentParams} {key : Text}

/-- `sf` first: every line must be structured, and then it is as if there were no `sf`. -/
theorem fieldValue_sf_key (h : ps.readings = [.sf, .key key]) (vs : List Text) : fieldValue ps vs =
    (vs.mapM fun v => (reserialize v).ok?).bind fun _ =>
      (vs.mapM parseDictionaryField).map fun ds => join ", ".toList (ds.filterMap (memberText key)) := by
  have hfold : [HttpMessageComponentParam.sf, .key key].foldlM handleParam vs =
      handleParamsSf vs >>= fun ws => handleParamsKeyInto ws key := by
    rw [List.foldlM_cons]
    congr 1
    funext ws
    exact bind_pure _
  rw [fieldValue, h, hfold, Outcome.ok?_bind, handleParamsSf, Outcome.ok?_mapM, Option.map_bind]
  cases hs : vs.mapM fun v => (reserialize v).ok? with
  | none => rfl
  | some ws =>
    rw [Option.bind_some, Option.bind_some, Function.comp_apply, handleParamsKeyInto_ok?,
      mapM_parseDictionaryField_reserialize hs, Option.map_map]
    rfl

/-- `key` first: what it leaves is printed alike under `sf`. -/
theorem fieldValue_key_sf (h : ps.readings = [.key key, .sf]) (vs : List Text) : fieldValue ps vs =
    (vs.mapM parseDictionaryField).map fun ds => join ", ".toList (ds.filterMap (memberText key)) := by
  have hfold : [HttpMessageComponentParam.key key, .sf].foldlM handleParam vs =
      handleParamsKeyInto vs key >>= fun ws => handleParamsSf ws := by
    rw [List.foldlM_cons]
    congr 1
    funext ws
    exact bind_pure _
  rw [fieldValue, h, hfold, Outcome.ok?_bind, handleParamsKeyInto_ok?, Option.bind_map, Option.map_bind]
  cases vs.mapM parseDictionaryField with
  | none => rfl
  | some ds =>
    rw [Option.bind_some, Option.map_some, Function.comp_apply, Function.comp_apply, handleParamsSf, Outcome.ok?_mapM,
      filterMap_memberText, mapM_reserialize_entries]
    rfl

/-- Lines that are all dictionaries, some of them blank. -/
def SomeBlank (vs : List Text) : Prop := (∀ v ∈ vs, parseDictionaryField v ≠ none) ∧ ∃ v ∈ vs, dropSp v = []

/-- The two orders differ only over a blank line. -/
theorem fieldValue_orders {qs : HttpMessageComponentParams} (h : ps.readings = [.sf, .key key])
    (h' : qs.readings = [.key key, .sf]) (vs : List Text) : fieldValue ps vs = fieldValue qs vs ↔ ¬SomeBlank vs := by
  rw [fieldValue_sf_key h, fieldValue_key_sf h']
  cases hs : vs.mapM fun v => (reserialize v).ok? with
  | some ws =>
    refine iff_of_true rfl ?_
    rintro ⟨-, v, hv, hblank⟩
    have hnone : (vs.mapM fun v => (reserialize v).ok?) = none :=
      mapM_eq_none.mpr ⟨v, hv, reserialize_eq_none.mpr fun h => h.1 hblank⟩
    rw [hnone] at hs
    cases hs
  | none =>
    obtain ⟨v, hv, hstruct⟩ := mapM_eq_none.mp hs
    rw [reserialize_eq_none] at hstruct
    cases hd : vs.mapM parseDictionaryField with
    | none =>
      obtain ⟨u, hu, hdict⟩ := mapM_eq_none.mp hd
      exact iff_of_true rfl fun h => h.1 u hu hdict
    | some ds =>
      have hall : ∀ u ∈ vs, parseDictionaryField u ≠ none := by
        intro u hu hdict
        rw [mapM_eq_none.mpr ⟨u, hu, hdict⟩] at hd
        cases hd
      have hblank : dropSp v = [] := by
        by_contra hne
        exact hstruct ⟨hne, Or.inr (hall v hv)⟩
      exact iff_of_false (Option.some_ne_none _).symm fun h => h ⟨hall, v, hv, hblank⟩

end

/-! ### Parameters in any order -/

/-- The parameters under which no field has a value. -/
def HttpMessageComponentParam.isUnsupported : HttpMessageComponentParam → Bool
  | .bs | .tr | .name _ => true
  | _ => false

theorem foldlM_unsupported : ∀ {l : List HttpMessageComponentParam} {p : HttpMessageComponentParam}, p ∈ l →
    p.isUnsupported = true → ∀ vs, (l.foldlM handleParam vs).ok? = none
  | q :: l, p, hp, hun, vs => by
    rw [List.foldlM_cons, Outcome.ok?_bind]
    rcases List.mem_cons.mp hp with rfl | hp
    · cases p with
      | bs | tr | name val => rfl
      | sf | key val | req => cases hun
    · cases (handleParam vs q).ok? with
      | none => rfl
      | some ws => exact foldlM_unsupported hp hun ws

theorem sf_or_key {p : HttpMessageComponentParam} (hreq : p ≠ .req) (hun : p.isUnsupported = false) :
    p = .sf ∨ ∃ key, p = .key key := by
  cases p with
  | sf => exact Or.inl rfl
  | key val => exact Or.inr ⟨val, rfl⟩
  | req => exact absurd rfl hreq
  | bs | tr | name val => cases hun

/-- `sf` and one `key` in one order and in the other. -/
def Swapped (l m : List HttpMessageComponentParam) : Prop :=
  ∃ key, (l = [.sf, .key key] ∧ m = [.key key, .sf]) ∨ (l = [.key key, .sf] ∧ m = [.sf, .key key])

/-- Arrangements of at most `sf` and one `key` are the same, or the two orders of both. -/
theorem eq_or_swapped {l m : List HttpMessageComponentParam} (hperm : l.Perm m)
    (hnd : (l.map HttpMessageComponentParam.keyText).Nodup) (hl : ∀ p ∈ l, p = .sf ∨ ∃ key, p = .key key) :
    l = m ∨ Swapped l m := by
  have hlen : l.length ≤ 2 := by
    have hsub : l.map HttpMessageComponentParam.keyText ⊆ ["sf".toList, "key".toList] := by
      intro k hk
      obtain ⟨p, hp, rfl⟩ := List.mem_map.mp hk
      rcases hl p hp with rfl | ⟨key, rfl⟩
      · exact List.mem_cons_self ..
      · exact List.mem_cons_of_mem _ (List.mem_cons_self ..)
    simpa using (List.subperm_of_subset hnd hsub).length_le
  match l with
  | [] => exact Or.inl hperm.nil_eq
  | [p] => exact Or.inl (List.singleton_perm.mp hperm)
  | p :: q :: r :: l => simp at hlen
  | [p, q] =>
    have hpq : p ≠ q := by
      rintro rfl
      simp at hnd
    match m, hperm.length_eq with
    | [x, y], _ =>
      have hx : x = p ∨ x = q := by simpa using hperm.mem_iff.mpr (List.mem_cons_self ..)
      have hy : y = p ∨ y = q := by simpa using hperm.mem_iff.mpr (List.mem_cons_of_mem _ (List.mem_cons_self ..))
      have hxy : x ≠ y := by
        rintro rfl
        have := hperm.nodup_iff.mp (by simpa using hpq)
        simp at this
      rcases hx with rfl | rfl
      · obtain rfl : y = q := hy.resolve_left hxy.symm
        exact Or.inl rfl
      · obtain rfl : y = p := hy.resolve_right hxy.symm
        refine Or.inr ?_
        rcases hl y (List.mem_cons_self ..) with rfl | ⟨key, rfl⟩
        · rcases hl x (List.mem_cons_of_mem _ (List.mem_cons_self ..)) with rfl | ⟨key, rfl⟩
          · exact absurd rfl hpq
          · exact ⟨key, Or.inl ⟨rfl, rfl⟩⟩
        · rcases hl x (List.mem_cons_of_mem _ (List.mem_cons_self ..)) with rfl | ⟨key', rfl⟩
          · exact ⟨key, Or.inr ⟨rfl, rfl⟩⟩
          · simp [HttpMessageComponentParam.keyText] at hnd

/-- The values of a field under two arrangements of its parameters. -/
theorem fieldValue_perm_iff {ps qs : HttpMessageComponentParams} (hperm : ps.items.Perm qs.items)
    (hd : HttpMessageComponentParams.DistinctKeys ps) (vs : List Text) :
    fieldValue ps vs = fieldValue qs vs ↔ ¬(Swapped ps.readings qs.readings ∧ SomeBlank vs) := by
  have hreadings : ps.readings.Perm qs.readings := hperm.filter _
  by_cases hun : ∃ p ∈ ps.readings, p.isUnsupported = true
  · obtain ⟨p, hp, hun⟩ := hun
    rw [fieldValue, fieldValue, foldlM_unsupported hp hun, foldlM_unsupported (hreadings.mem_iff.mp hp) hun]
    refine iff_of_true rfl ?_
    rintro ⟨⟨key, ⟨h, -⟩ | ⟨h, -⟩⟩, -⟩
    · rw [h] at hp
      rcases List.mem_pair.mp hp with rfl | rfl <;> cases hun
    · rw [h] at hp
      rcases List.mem_pair.mp hp with rfl | rfl <;> cases hun
  · have hsupported : ∀ p ∈ ps.readings, p = .sf ∨ ∃ key, p = .key key := by
      intro p hp
      refine sf_or_key (by simpa using (List.mem_filter.mp hp).2) ?_
      rw [← Bool.not_eq_true]
      exact fun h => hun ⟨p, hp, h⟩
    have hnd : (ps.readings.map HttpMessageComponentParam.keyText).Nodup := hd.sublist (List.filter_sublist.map _)
    rcases eq_or_swapped hreadings hnd hsupported with heq | hswap
    · rw [fieldValue, fieldValue, heq]
      refine iff_of_true rfl ?_
      rintro ⟨⟨key, ⟨h, h'⟩ | ⟨h, h'⟩⟩, -⟩
      · rw [h'] at h
        cases h
      · rw [h'] at h
        cases h
    · rw [and_iff_right hswap]
      obtain ⟨key, ⟨h, h'⟩ | ⟨h, h'⟩⟩ := hswap
      · exact fieldValue_orders h h' vs
      · rw [eq_comm]
        exact fieldValue_orders h' h vs

/-! ### Derived components -/

theorem queryParamName_eq_some {ps : HttpMessageComponentParams} (hd : HttpMessageComponentParams.DistinctKeys ps) {v : Text} :
    queryParamName ps = some v ↔ .name v ∈ ps.items := by
  refine ⟨mem_of_queryParamName, fun h => ?_⟩
  cases hq : queryParamName ps with
  | none =>
    have := List.findSome?_eq_none_iff.mp hq _ h
    cases this
  | some w =>
    have := List.inj_on_of_nodup_map hd (mem_of_queryParamName hq) h rfl
    cases this
    rfl

theorem queryParamName_perm {ps qs : HttpMessageComponentParams} (hperm : ps.items.Perm qs.items)
    (hd : HttpMessageComponentParams.DistinctKeys ps) : queryParamName ps = queryParamName qs := by
  have hd' : HttpMessageComponentParams.DistinctKeys qs := (hperm.map _).nodup_iff.mp hd
  ext v
  rw [queryParamName_eq_some hd, queryParamName_eq_some hd', hperm.mem_iff]

theorem buildDerivedComponent_of_beq {a b : HttpMessageComponentId} (h : a.beq b = true)
    (hd : HttpMessageComponentParams.DistinctKeys a.params) (vs : List Text) :
    HttpMessageComponent.value <$> buildDerivedComponent a vs = HttpMessageComponent.value <$> buildDerivedComponent b vs := by
  obtain ⟨hname, hperm⟩ := HttpMessageComponentId.beq_iff.mp h
  have hvalue : ∀ n first, derivedValue n a.params first vs = derivedValue n b.params first vs := by
    intro n first
    cases n with
    | queryParam => rw [derivedValue, derivedValue, queryParamName_perm hperm hd]
    | _ => rfl
  unfold buildDerivedComponent
  rw [← hname, hperm.all_eq]
  cases a.name with
  | httpField n => rfl
  | derived n =>
    cases vs with
    | nil => rfl
    | cons first rest =>
      dsimp only
      split
      · rfl
      · rw [hvalue]
        cases derivedValue n b.params first (first :: rest) <;> rfl

/-! ### Components -/

theorem value_buildHttpFieldComponent (id : HttpMessageComponentId) (vs : List Text) :
    (HttpMessageComponent.value <$> buildHttpFieldComponent id vs).ok? =
      (fieldValue id.params vs).map HttpMessageComponentValue.string := by
  rw [buildHttpFieldComponent, foldlM_readings, fieldValue, HttpMessageComponentParams.readings]
  cases (id.params.items.filter (· ≠ .req)).foldlM handleParam vs <;> rfl

/-- A field under `sf` and `key` in two orders, with a blank line among its dictionaries. -/
structure OrderMatters (a b : HttpMessageComponentId) (vs : List Text) : Prop where
  field : a.name.isDerived = false
  swapped : Swapped a.params.readings b.params.readings
  someBlank : SomeBlank vs

/-- Equal ids without two parameters of one key have the same value, or fail both, unless the order matters. -/
theorem HttpMessageComponent.tryFrom_of_beq {a b : HttpMessageComponentId} (h : a.beq b = true)
    (hd : HttpMessageComponentParams.DistinctKeys a.params) (vs : List Text) :
    SameOutcome (value <$> tryFrom a vs) (value <$> tryFrom b vs) ↔ ¬OrderMatters a b vs := by
  have hpanic : ∀ id, value <$> tryFrom id vs ≠ .panic := fun id hp => tryFrom_ne_panic id vs (Outcome.map_eq_panic.mp hp)
  obtain ⟨hname, hperm⟩ := HttpMessageComponentId.beq_iff.mp h
  rw [sameOutcome_iff (hpanic a) (hpanic b)]
  cases hn : a.name with
  | httpField n =>
    have ha : tryFrom a vs = buildHttpFieldComponent a vs := by rw [tryFrom, hn]
    have hb : tryFrom b vs = buildHttpFieldComponent b vs := by rw [tryFrom, ← hname, hn]
    have hinj : Function.Injective (Option.map HttpMessageComponentValue.string) :=
      Option.map_injective fun _ _ => HttpMessageComponentValue.string.inj
    rw [ha, hb, value_buildHttpFieldComponent, value_buildHttpFieldComponent, hinj.eq_iff, fieldValue_perm_iff hperm hd]
    refine not_congr ⟨fun h => ⟨by rw [hn]; rfl, h.1, h.2⟩, fun h => ⟨h.swapped, h.someBlank⟩⟩
  | derived n =>
    have ha : tryFrom a vs = buildDerivedComponent a vs := by rw [tryFrom, hn]
    have hb : tryFrom b vs = buildDerivedComponent b vs := by rw [tryFrom, ← hname, hn]
    rw [ha, hb, buildDerivedComponent_of_beq h hd]
    refine iff_of_true rfl fun h => ?_
    have hfield := h.field
    rw [hn] at hfield
    cases hfield

/-! ### Orders that matter -/

def exampleWith (params : List HttpMessageComponentParam) : HttpMessageComponentId :=
  ⟨.httpField "example-dict".toList, .ofList params⟩

def queryParamWith (params : List HttpMessageComponentParam) : HttpMessageComponentId :=
  ⟨.derived .queryParam, .ofList params⟩

theorem sfKey_agree : SameOutcome
    (HttpMessageComponent.value <$> HttpMessageComponent.tryFrom (exampleWith [.sf, .key "a".toList]) ["a=1".toList])
    (HttpMessageComponent.value <$> HttpMessageComponent.tryFrom (exampleWith [.key "a".toList, .sf]) ["a=1".toList]) := by
  have hd : HttpMessageComponentParams.DistinctKeys (exampleWith [.sf, .key "a".toList]).params := by decide
  refine (HttpMessageComponent.tryFrom_of_beq (by decide) hd _).mpr fun h => ?_
  obtain ⟨v, hv, hblank⟩ := h.someBlank.2
  obtain rfl := List.mem_singleton.mp hv
  cases hblank

/-- Equal ids with different outcomes: `sf` and `key` over a blank line, two keys, and two names. -/
theorem orders_differ :
    (exampleWith [.sf, .key "a".toList]).beq (exampleWith [.key "a".toList, .sf]) = true ∧
    HttpMessageComponent.tryFrom (exampleWith [.sf, .key "a".toList]) [[]] = .err (.invalidComponentParam
      "Failed to parse structured field value: Failed to serialize structured field value for sf".toList) ∧
    HttpMessageComponent.tryFrom (exampleWith [.key "a".toList, .sf]) [[]] =
      .ok ⟨exampleWith [.key "a".toList, .sf], .string []⟩ ∧
    (exampleWith [.key "a".toList, .key "b".toList]).beq (exampleWith [.key "b".toList, .key "a".toList]) = true ∧
    HttpMessageComponent.tryFrom (exampleWith [.key "a".toList, .key "b".toList]) ["a=b".toList] =
      .ok ⟨exampleWith [.key "a".toList, .key "b".toList], .string "?1".toList⟩ ∧
    HttpMessageComponent.tryFrom (exampleWith [.key "b".toList, .key "a".toList]) ["a=b".toList] =
      .ok ⟨exampleWith [.key "b".toList, .key "a".toList], .string []⟩ ∧
    (queryParamWith [.name "a".toList, .name "b".toList]).beq (queryParamWith [.name "b".toList, .name "a".toList]) = true ∧
    HttpMessageComponent.tryFrom (queryParamWith [.name "a".toList, .name "b".toList]) ["a=1".toList, "b=2".toList] =
      .ok ⟨queryParamWith [.name "a".toList, .name "b".toList], .string "1".toList⟩ ∧
    HttpMessageComponent.tryFrom (queryParamWith [.name "b".toList, .name "a".toList]) ["a=1".toList, "b=2".toList] =
      .ok ⟨queryParamWith [.name "b".toList, .name "a".toList], .string "2".toList⟩ := by
  decide

end HttpSig
