import HttpSig.Theorems.Verbatim

/-! Which ids a text can be read as. The syntax of a field name is not checked: any printable string that does
not start like a derived name is one. Its parameters are checked against the name. -/

namespace HttpSig
open Rust Sfv
namespace HttpMessageComponentId

/-- Whether a parameter goes with a name: `req` always does, `name` with query parameters only, and any other
with fields only. -/
def fits : HttpMessageComponentName → HttpMessageComponentParam → Bool
  | .derived d, p => p = .req || (p.isName && d = .queryParam)
  | .httpField _, p => !p.isName

theorem valid_iff_fits {id : HttpMessageComponentId} : id.Valid ↔ ∀ p ∈ id.params.items, fits id.name p = true := by
  simp only [Valid, List.any_eq_true, forall_exists_index, and_imp, ← forall₂_and]
  refine forall₂_congr fun p _ => ?_
  cases id.name with
  | httpField n => cases p <;> simp [fits, HttpMessageComponentParam.isName, HttpMessageComponentName.isDerived]
  | derived d =>
    cases p <;> simp [fits, HttpMessageComponentParam.isName, HttpMessageComponentParam.isFieldOnly,
      HttpMessageComponentName.isDerived]

/-- Names, parameters and values that a text can spell. -/
structure Grammatical (id : HttpMessageComponentId) : Prop where
  field : ∀ n, id.name = .httpField n → n.all isPrintable = true ∧ startsWith n '@' = false
  params : ∀ p ∈ id.params.items, fits id.name p = true
  values : ∀ p ∈ id.params.items, ∀ v ∈ p.value, v.all isPrintable = true
  keys : HttpMessageComponentParams.DistinctKeys id.params

/-- Every id that is read is grammatical. -/
theorem grammatical_of_readItem {i : Item} {id : HttpMessageComponentId} (h : readItem i = .ok id) : Grammatical id := by
  obtain ⟨hname, hps, hvalid⟩ := readItem_eq_ok.mp h
  obtain ⟨hwf, s, -, hinner⟩ := HttpMessageComponentName.tryFrom_eq_ok.mp hname
  have hps := HttpMessageComponentParams.tryFrom_eq_ok.mp hps
  refine ⟨fun n hn => ?_, valid_iff_fits.mp hvalid, fun p hp v hv => ?_, HttpMessageComponentParams.nodup_keyText hps⟩
  · rw [hn] at hwf hinner
    exact ⟨(show n = s.text from hinner) ▸ s.valid, hwf⟩
  · obtain ⟨e, -, he⟩ := Outcome.exists_of_mem_right hps hp
    obtain ⟨s, -, rfl⟩ := (HttpMessageComponentParam.tryFrom_eq_ok.mp he).2 v hv
    exact s.valid

/-! ### An item for every grammatical id -/

theorem isPrintable_asStr (d : DerivedComponentName) : d.asStr.all isPrintable = true := by
  cases d <;> decide

theorem exists_entry {p : HttpMessageComponentParam} (hv : ∀ v ∈ p.value, v.all isPrintable = true) :
    ∃ e : Key × BareItem, HttpMessageComponentParam.tryFrom e.1.text e.2 = .ok p := by
  cases p with
  | sf => exact ⟨(⟨"sf".toList, by decide⟩, .boolean true), rfl⟩
  | key val => exact ⟨(⟨"key".toList, by decide⟩, .string ⟨val, hv val rfl⟩), rfl⟩
  | bs => exact ⟨(⟨"bs".toList, by decide⟩, .boolean true), rfl⟩
  | tr => exact ⟨(⟨"tr".toList, by decide⟩, .boolean true), rfl⟩
  | req => exact ⟨(⟨"req".toList, by decide⟩, .boolean true), rfl⟩
  | name val => exact ⟨(⟨"name".toList, by decide⟩, .string ⟨val, hv val rfl⟩), rfl⟩

theorem exists_parameters {ps : HttpMessageComponentParams} (hv : ∀ p ∈ ps.items, ∀ v ∈ p.value, v.all isPrintable = true)
    (hk : HttpMessageComponentParams.DistinctKeys ps) : ∃ l, HttpMessageComponentParams.tryFrom l = .ok ps := by
  have hentries : ∀ {items : List HttpMessageComponentParam}, (∀ p ∈ items, ∀ v ∈ p.value, v.all isPrintable = true) →
      ∃ l : List (Key × BareItem), List.Forall₂ (fun e p => HttpMessageComponentParam.tryFrom e.1.text e.2 = .ok p) l items := by
    intro items h
    induction items with
    | nil => exact ⟨[], .nil⟩
    | cons p items ih =>
      rw [List.forall_mem_cons] at h
      obtain ⟨e, he⟩ := exists_entry h.1
      obtain ⟨l, hl⟩ := ih h.2
      exact ⟨e :: l, .cons he hl⟩
  obtain ⟨l, hl⟩ := hentries hv
  have hkeys : (l.map fun e => e.1.text) = ps.items.map HttpMessageComponentParam.keyText := by
    rw [← List.forall₂_eq_eq_eq, List.forall₂_map_left_iff, List.forall₂_map_right_iff]
    exact hl.imp fun _ _ h => (HttpMessageComponentParam.tryFrom_eq_ok.mp h).1.symm
  have hnodup : (l.map Prod.fst).Nodup := by
    refine List.Nodup.of_map Key.text ?_
    rw [List.map_map]
    exact hkeys ▸ hk
  exact ⟨⟨l, hnodup⟩, HttpMessageComponentParams.tryFrom_eq_ok.mpr hl⟩

/-- The ids that texts are read as are the grammatical ones. -/
theorem exists_text_iff {id : HttpMessageComponentId} : (∃ s, tryFrom s = .ok id) ↔ Grammatical id := by
  constructor
  · rintro ⟨s, h⟩
    rw [tryFrom_eq] at h
    obtain ⟨i, -, hi⟩ := Outcome.bind_eq_ok.mp h
    exact grammatical_of_readItem hi
  · intro h
    have hname : ∃ s : SfString, id.name.inner = s.text ∧ id.name.WellFormed := by
      cases hn : id.name with
      | httpField n => exact ⟨⟨n, (h.field n hn).1⟩, rfl, (h.field n hn).2⟩
      | derived d => exact ⟨⟨d.asStr, isPrintable_asStr d⟩, rfl, trivial⟩
    obtain ⟨s, hs, hwf⟩ := hname
    obtain ⟨l, hl⟩ := exists_parameters h.values h.keys
    refine ⟨serializeItem ⟨.string s, l⟩, ?_⟩
    rw [tryFrom_serializeItem, asRead_string rfl, readItem_eq_ok]
    exact ⟨HttpMessageComponentName.tryFrom_eq_ok.mpr ⟨hwf, s, rfl, hs⟩, hl, valid_iff_fits.mpr h.params⟩

/-- Capitals, spaces, an empty name and a semicolon in quotes are all read as they are. -/
theorem unchecked_names : tryFrom "Content-Type".toList = .ok ⟨.httpField "Content-Type".toList, ∅⟩ ∧
    tryFrom "two words".toList = .ok ⟨.httpField "two words".toList, ∅⟩ ∧
    tryFrom "\"\"".toList = .ok ⟨.httpField [], ∅⟩ ∧
    tryFrom "\"a;b\"".toList = .ok ⟨.httpField "a;b".toList, ∅⟩ := by
  decide

end HttpMessageComponentId
end HttpSig
