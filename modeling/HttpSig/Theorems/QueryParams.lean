import HttpSig.Theorems.Presence
import HttpSig.Url.Urlencoded

/-! Query parameters as components. A parameter is selected by its name and taken with its value as the query has them;
nothing is decoded, so a query in percent-encoded form gives what decoding would and others need not. -/

namespace HttpSig
open Rust Http Url

def paramId (name : Text) : HttpMessageComponentId := ⟨.derived .queryParam, .ofList [.name name]⟩

section
variable {β : Type}

def queryOf (req : Request β) : Text := req.uri.query.getD []

def extractParam (req : Request β) (name : Text) : HyperSigResult HttpMessageComponent :=
  extractHttpMessageComponent (.request req) (paramId name)

/-! ### With decoding -/

/-- The value of a query parameter by RFC 9421: that of the only parameter whose name has this percent-encoded form. -/
def decodedParam (q name : Text) : Option Text :=
  match (parse q).filter fun p => encode p.1 = name with
  | [p] => some (encode p.2)
  | _ => none

/-- The parts of a query whose name, once decoded, has this percent-encoded form. -/
def partsOf (q name : Text) : List Text := (parts q).filter fun part => encode (decode (splitPart part).1) = name

theorem decodedParam_eq_some {q name value : Text} : decodedParam q name = some value ↔
    ∃ part, partsOf q name = [part] ∧ encode (decode (splitPart part).2) = value := by
  have hfilter : (parse q).filter (fun p => encode p.1 = name) =
      (partsOf q name).map fun part => (decode (splitPart part).1, decode (splitPart part).2) := by
    rw [parse, List.filter_map]
    rfl
  rw [decodedParam, hfilter]
  rcases partsOf q name with _ | ⟨part, _ | ⟨part', l⟩⟩
  · simp
  · simp
  · simp

/-! ### As it is written -/

/-- A parameter of the query is written with this name and an equals sign. -/
def IsWritten (q name : Text) : Prop := ∃ part ∈ parts q, ∃ value, splitOnce '=' part = some (name, value)

/-- The values that are written for a name. -/
def writtenValues (q name : Text) : List Text := queryParamValues name (parts q)

theorem mem_writtenValues {q name value : Text} :
    value ∈ writtenValues q name ↔ ∃ part ∈ parts q, splitOnce '=' part = some (name, value) := by
  simp only [writtenValues, queryParamValues, List.mem_map, List.mem_filter, List.mem_filterMap, decide_eq_true_eq,
    Prod.exists, exists_eq_right]

/-- A value that is written for a name comes from a part whose raw name it is. -/
theorem writtenValues_sublist (q name : Text) :
    (writtenValues q name).Sublist (((parts q).filter fun part => (splitPart part).1 = name).map fun part => (splitPart part).2) := by
  rw [writtenValues, queryParamValues]
  induction parts q with
  | nil => exact List.Sublist.refl _
  | cons part l ih =>
    cases hsplit : splitOnce '=' part with
    | none =>
      rw [List.filterMap_cons_none hsplit]
      by_cases hname : (splitPart part).1 = name
      · rw [List.filter_cons_of_pos (by simpa using hname)]
        exact ih.cons _
      · rw [List.filter_cons_of_neg (by simpa using hname)]
        exact ih
    | some e =>
      have hpart : splitPart part = e := by rw [splitPart, hsplit, Option.getD_some]
      rw [List.filterMap_cons_some hsplit]
      by_cases hname : e.1 = name
      · rw [List.filter_cons_of_pos (by simpa using hname), List.filter_cons_of_pos (by simpa [hpart] using hname),
          List.map_cons, List.map_cons, hpart]
        exact ih.cons_cons _
      · rw [List.filter_cons_of_neg (by simpa using hname), List.filter_cons_of_neg (by simpa [hpart] using hname)]
        exact ih

/-- A name that a part has once decoded is in percent-encoded form. -/
theorem encode_decode_of_mem_partsOf {q name part : Text} (h : part ∈ partsOf q name) : encode (decode name) = name := by
  have henc : encode (decode (splitPart part).1) = name := by simpa using (List.mem_filter.mp h).2
  rw [← henc, decode_encode]

/-- With one part of the name there is no other value than the one that is written. -/
theorem writtenValues_of_one {q name part : Text} (hw : IsWritten q name) (hone : partsOf q name = [part]) :
    writtenValues q name = [(splitPart part).2] := by
  obtain ⟨written, hmem, value, hsplit⟩ := hw
  have hvalue : value ∈ writtenValues q name := mem_writtenValues.mpr ⟨written, hmem, hsplit⟩
  -- the one part has a name that is in percent-encoded form, so what is written with it is of that name too
  have hname : encode (decode name) = name := encode_decode_of_mem_partsOf (hone ▸ List.mem_singleton_self part)
  have hsub : ((parts q).filter fun p => (splitPart p).1 = name).Sublist [part] := by
    rw [← hone]
    refine List.monotone_filter_right _ fun p hp => ?_
    rw [decide_eq_true_eq] at hp ⊢
    rw [hp, hname]
  have hvalues := (writtenValues_sublist q name).trans (hsub.map fun p => (splitPart p).2)
  exact (hvalues.eq_of_length_le (List.length_pos_of_mem hvalue))

/-- A parameter of the query is its name alone, and the name is written with no value. -/
def IsBare (q name : Text) : Prop := name ∈ parts q ∧ '=' ∉ name ∧ ¬ IsWritten q name

/-- The value of a bare parameter by decoding is empty exactly when it is the only one of its name. -/
theorem decodedParam_of_bare {q name : Text} (hbare : IsBare q name) :
    decodedParam q name = some [] ↔ partsOf q name = [name] := by
  obtain ⟨hmem, hno, -⟩ := hbare
  have hsplit : splitPart name = (name, []) := by rw [splitPart, splitOnce_eq_none.mpr hno, Option.getD_none]
  rw [decodedParam_eq_some]
  constructor
  · rintro ⟨part, hone, -⟩
    have hname := encode_decode_of_mem_partsOf (hone ▸ List.mem_singleton_self part)
    have hpart : name ∈ partsOf q name := List.mem_filter.mpr ⟨hmem, by simp [hsplit, hname]⟩
    rw [hone, List.mem_singleton] at hpart
    rw [hone, hpart]
  · intro hone
    refine ⟨name, hone, ?_⟩
    rw [hsplit]
    rfl

/-! ### Extraction -/

theorem extractParam_eq (req : Request β) (name : Text) :
    extractParam req name = intoHyper (buildDerivedComponent (paramId name) (parts (queryOf req))) := rfl

theorem extractParam_of_mem_parts {req : Request β} {part : Text} (hmem : part ∈ parts (queryOf req)) (name : Text) :
    extractParam req name = .ok ⟨paramId name, .string (join ", ".toList (writtenValues (queryOf req) name))⟩ := by
  obtain ⟨first, rest, hparts⟩ := List.exists_cons_of_ne_nil (List.ne_nil_of_mem hmem)
  rw [extractParam_eq, writtenValues, hparts]
  rfl

theorem extractParam_of_bare {req : Request β} {name : Text} (hbare : IsBare (queryOf req) name) :
    extractParam req name = .ok ⟨paramId name, .string []⟩ := by
  have hnone : writtenValues (queryOf req) name = [] := by
    rw [List.eq_nil_iff_forall_not_mem]
    intro value hvalue
    obtain ⟨part, hpart, hsplit⟩ := mem_writtenValues.mp hvalue
    exact hbare.2.2 ⟨part, hpart, value, hsplit⟩
  rw [extractParam_of_mem_parts hbare.1, hnone]
  rfl

theorem extractParam_of_no_parts {req : Request β} (h : parts (queryOf req) = []) (name : Text) :
    extractParam req name = .err (.httpSigError (.invalidComponent "derived component requires field values".toList)) := by
  rw [extractParam_eq, h]
  rfl

/-- A parameter that is written with a name is extracted, with all values written for the name, raw and in their order.
That is the value by decoding exactly when the name is that of one parameter only and its value is in percent-encoded
form. A parameter that is a name alone has the empty value, as by decoding exactly when it is the only one of its name. A
query without parameters gives nothing, and queries in percent-encoded form give what their parameters do. -/
theorem extractParam_written (req : Request β) (name : Text) :
    (IsWritten (queryOf req) name → ∃ value, value = join ", ".toList (writtenValues (queryOf req) name) ∧
      extractParam req name = .ok ⟨paramId name, .string value⟩ ∧
      (decodedParam (queryOf req) name = some value ↔ ∃ part, partsOf (queryOf req) name = [part] ∧
        encode (decode (splitPart part).2) = (splitPart part).2)) ∧
    (IsBare (queryOf req) name → extractParam req name = .ok ⟨paramId name, .string []⟩ ∧
      (decodedParam (queryOf req) name = some [] ↔ partsOf (queryOf req) name = [name])) ∧
    (parts (queryOf req) = [] → ∃ e, extractParam req name = .err e) ∧
    ∀ req' : Request β, IsEncoded (queryOf req) → IsEncoded (queryOf req') → parse (queryOf req') = parse (queryOf req) →
      extractParam req' name = extractParam req name := by
  refine ⟨?_, fun hbare => ⟨extractParam_of_bare hbare, decodedParam_of_bare hbare⟩,
    fun h => ⟨_, extractParam_of_no_parts h name⟩, ?_⟩
  · intro hw
    obtain ⟨part, hmem, -⟩ := id hw
    refine ⟨_, rfl, extractParam_of_mem_parts hmem name, ?_⟩
    rw [decodedParam_eq_some]
    refine exists_congr fun part => and_congr_right fun hone => ?_
    rw [writtenValues_of_one hw hone, join_singleton]
  · intro req' hq hq' hparse
    rw [extractParam_eq, extractParam_eq, parts_eq_of_isEncoded hq, parts_eq_of_isEncoded hq', hparse]

end

/-! ### Some queries -/

def withQuery (q : UriText) : Request Unit := { getRequest [] with uri := { sampleUri with rawQuery := some q } }

def sampleQuery : UriText :=
  ⟨"var=this%20is%20a%20big%0Amultiline%20value&bar=with+plus+whitespace&fa%C3%A7ade%22%3A%20=something&ok".toList, by decide⟩

def paddedQuery : UriText := ⟨"&bar=with%20plus".toList, by decide⟩
def encodedQuery : UriText := ⟨"bar=with%20plus".toList, by decide⟩
def plusQuery : UriText := ⟨"bar=with+plus".toList, by decide⟩
def twiceQuery : UriText := ⟨"bar=1&bar=2".toList, by decide⟩
def blankQuery : UriText := ⟨"&&".toList, by decide⟩

theorem sampleQuery_extracted :
    extractParam (withQuery sampleQuery) "fa%C3%A7ade%22%3A%20".toList =
      .ok ⟨paramId "fa%C3%A7ade%22%3A%20".toList, .string "something".toList⟩ ∧
    decodedParam sampleQuery.text "fa%C3%A7ade%22%3A%20".toList = some "something".toList ∧
    (extractParam (withQuery sampleQuery) "ok".toList = .ok ⟨paramId "ok".toList, .string []⟩ ∧
      decodedParam sampleQuery.text "ok".toList = some []) ∧
    (∃ e, extractParam (withQuery blankQuery) "bar".toList = .err e) ∧
    extractParam (withQuery paddedQuery) "bar".toList = extractParam (withQuery encodedQuery) "bar".toList := by
  have hwritten : IsWritten sampleQuery.text "fa%C3%A7ade%22%3A%20".toList :=
    ⟨"fa%C3%A7ade%22%3A%20=something".toList, by decide, "something".toList, by decide⟩
  obtain ⟨value, hvalue, hextract, hdecoded⟩ := (extractParam_written (withQuery sampleQuery) _).1 hwritten
  have hsomething : value = "something".toList := hvalue.trans (by decide)
  rw [hsomething] at hextract hdecoded
  have hbare : IsBare sampleQuery.text "ok".toList := by
    refine ⟨by decide, by decide, ?_⟩
    rintro ⟨part, hpart, value, hsplit⟩
    have hnone := mem_writtenValues.mpr ⟨part, hpart, hsplit⟩
    rw [show writtenValues sampleQuery.text "ok".toList = [] by decide] at hnone
    cases hnone
  obtain ⟨hempty, hone⟩ := (extractParam_written (withQuery sampleQuery) _).2.1 hbare
  refine ⟨hextract, hdecoded.mpr ⟨"fa%C3%A7ade%22%3A%20=something".toList, by decide, by decide⟩,
    ⟨hempty, hone.mpr (by decide)⟩, (extractParam_written (withQuery blankQuery) _).2.2.1 (by decide), ?_⟩
  have hparts : ∀ part ∈ ["bar=with%20plus".toList], ∃ p, part = showParam p := by
    intro part hpart
    rw [List.mem_singleton.mp hpart]
    exact ⟨("bar".toList, "with plus".toList), by decide⟩
  have hencoded : parts encodedQuery.text = ["bar=with%20plus".toList] ∧ parts paddedQuery.text = ["bar=with%20plus".toList] := by
    decide
  refine (extractParam_written (withQuery encodedQuery) "bar".toList).2.2.2 (withQuery paddedQuery) ?_ ?_ (by decide)
  · intro part hpart
    exact hparts part (hencoded.1 ▸ hpart)
  · intro part hpart
    exact hparts part (hencoded.2 ▸ hpart)

/-- A plus sign stays one, so two queries with the same parameters differ, and a name that repeats is taken. -/
theorem queries_differ :
    extractParam (withQuery plusQuery) "bar".toList = .ok ⟨paramId "bar".toList, .string "with+plus".toList⟩ ∧
    decodedParam plusQuery.text "bar".toList = some "with%20plus".toList ∧
    parse plusQuery.text = parse encodedQuery.text ∧
    extractParam (withQuery encodedQuery) "bar".toList = .ok ⟨paramId "bar".toList, .string "with%20plus".toList⟩ ∧
    extractParam (withQuery twiceQuery) "bar".toList = .ok ⟨paramId "bar".toList, .string "1, 2".toList⟩ ∧
    decodedParam twiceQuery.text "bar".toList = none := by
  decide

end HttpSig
