import Mathlib.Data.List.ReduceOption
import HttpSig.Theorems.Binding
import HttpSig.Theorems.Unambiguous

/-! The lines of a signature base: one for each covered id and a last one for the parameters. A line feed in the
parameters themselves breaks their own line, and a covered `@signature-params` has a line that starts like the last. -/

namespace HttpSig
open Rust Sfv Http

/-! ### Splitting into lines -/

theorem splitOn_lines {t : Text} : ∀ {ls : List Text}, (∀ l ∈ ls, '\n' ∉ l) →
    (ls.flatMap (fun l => l ++ ['\n']) ++ t).splitOn '\n' = ls ++ t.splitOn '\n'
  | [], _ => rfl
  | l :: ls, h => by
    obtain ⟨hl, hls⟩ := List.forall_mem_cons.mp h
    have hcut : (l :: ls).flatMap (fun l => l ++ ['\n']) ++ t = l ++ '\n' :: (ls.flatMap (fun l => l ++ ['\n']) ++ t) := by
      simp
    rw [hcut, List.splitOn_append_cons_self_of_not_mem hl, splitOn_lines hls]
    rfl

theorem length_splitOn (c : Char) : ∀ s : Text, (s.splitOn c).length = s.count c + 1
  | [] => rfl
  | d :: s => by
    rw [List.splitOn_cons_eq_if_modifyHead, List.count_cons]
    split
    · rw [List.length_cons, length_splitOn c s]
    · rw [List.length_modifyHead, length_splitOn c s, Nat.add_zero]

theorem length_le_count_lines (ls : List Text) : ls.length ≤ (ls.flatMap fun l => l ++ ['\n']).count '\n' := by
  induction ls with
  | nil => exact Nat.le_refl 0
  | cons l ls ih =>
    rw [List.flatMap_cons, List.count_append, List.count_append, List.length_cons]
    have hone : ['\n'].count '\n' = 1 := rfl
    omega

theorem mem_join_of_mem {c : Char} {sep s : Text} (hc : c ∈ s) : ∀ {l : List Text}, s ∈ l → c ∈ join sep l
  | [t], h => by
    obtain rfl := List.mem_singleton.mp h
    simpa using hc
  | t :: u :: l, h => by
    rw [join_cons_cons, List.mem_append, List.mem_append]
    rcases List.mem_cons.mp h with rfl | h
    · exact Or.inl (Or.inl hc)
    · exact Or.inr (mem_join_of_mem hc h)

/-! ### Line feeds in parameters -/

namespace HttpSignatureParams

theorem newline_mem_paramText {k : Text} (hk : '\n' ∉ k) {o : Option Text} :
    '\n' ∈ paramText k o ↔ ∃ t ∈ o, '\n' ∈ t := by
  cases o with
  | none => simp [paramText]
  | some t => simp [paramText, hk]

theorem newline_notMem_time (o : Option UInt64) : ¬ ∃ t ∈ o.map (fun n => natText n.toNat), '\n' ∈ t := by
  rintro ⟨t, ht, hm⟩
  obtain ⟨n, -, rfl⟩ := Option.map_eq_some_iff.mp ht
  have := isDigit_of_mem_natText hm
  revert this
  decide

theorem newline_mem_quoted {o : Option Text} : (∃ t ∈ o.map quoted, '\n' ∈ t) ↔ ∃ s ∈ o, '\n' ∈ s := by
  cases o with
  | none => simp
  | some s => simp [quoted]

/-- Printed parameters have a line feed only from a covered id or from one of the four strings. -/
theorem newline_mem_toText {p : HttpSignatureParams} : '\n' ∈ p.toText ↔
    (∃ id ∈ p.coveredComponents, '\n' ∈ id.toText) ∨ ∃ s ∈ p.strings, '\n' ∈ s := by
  have hids : '\n' ∈ join [' '] (p.coveredComponents.map HttpMessageComponentId.toText) ↔
      ∃ id ∈ p.coveredComponents, '\n' ∈ id.toText := by
    constructor
    · intro h
      by_contra hno
      refine newline_notMem_join (by decide) (fun s hs hm => hno ?_) h
      obtain ⟨id, hid, rfl⟩ := List.mem_map.mp hs
      exact ⟨id, hid, hm⟩
    · rintro ⟨id, hid, hm⟩
      exact mem_join_of_mem hm (List.mem_map_of_mem hid)
  have hstrings : (∃ s ∈ p.strings, '\n' ∈ s) ↔ (∃ s ∈ p.nonce, '\n' ∈ s) ∨ (∃ s ∈ p.alg, '\n' ∈ s) ∨
      (∃ s ∈ p.keyid, '\n' ∈ s) ∨ ∃ s ∈ p.tag, '\n' ∈ s := by
    simp only [strings, List.reduceOption_mem_iff, List.mem_cons, List.not_mem_nil, or_false, Option.mem_def,
      or_and_right, exists_or, eq_comm (a := some _)]
  rw [toText_eq, hstrings, ← hids]
  simp only [List.mem_cons, List.mem_append, newline_mem_paramText (by decide : '\n' ∉ "created".toList),
    newline_mem_paramText (by decide : '\n' ∉ "expires".toList), newline_mem_paramText (by decide : '\n' ∉ "nonce".toList),
    newline_mem_paramText (by decide : '\n' ∉ "alg".toList), newline_mem_paramText (by decide : '\n' ∉ "keyid".toList),
    newline_mem_paramText (by decide : '\n' ∉ "tag".toList), newline_notMem_time, newline_mem_quoted, false_or]
  simp

/-- Parameters read from a header have no line feed. -/
theorem newline_notMem_toText {l : InnerList} {p : HttpSignatureParams} (h : tryFrom (.innerList l) = .ok p) :
    '\n' ∉ p.toText := newline_notMem_of_isPrintable (isPrintable_of_mem_toText h)

end HttpSignatureParams

/-! ### What a line starts with -/

/-- Whether a line starts like the last one of a base. -/
def startsWithParams (line : Text) : Bool := "\"@signature-params\"".toList.isPrefixOf line

theorem isPrefixOf_asStr (n : DerivedComponentName) (s : Text) :
    "@signature-params\"".toList.isPrefixOf (n.asStr ++ '"' :: s) = decide (n = .signatureParams) := by
  cases n <;> rfl

theorem isPrefixOf_field {name : Text} (h : startsWith name '@' = false) (s : Text) :
    "@signature-params\"".toList.isPrefixOf (name ++ '"' :: s) = false := by
  cases name with
  | nil => rfl
  | cons c name =>
    have hc : ('@' == c) = false := by
      rw [beq_eq_false_iff_ne]
      rintro rfl
      simp [startsWith] at h
    have hcons : "@signature-params\"".toList = '@' :: "signature-params\"".toList := rfl
    rw [hcons, List.cons_append, List.isPrefixOf_cons_cons, hc, Bool.false_and]

/-- A line starts like the last one only when its id is `@signature-params` itself. -/
theorem startsWithParams_line {id : HttpMessageComponentId} (h : id.name.WellFormed) (s : Text) :
    startsWithParams (id.toText ++ s) = decide (id.name = .derived .signatureParams) := by
  have hcut : startsWithParams (id.toText ++ s) = "@signature-params\"".toList.isPrefixOf
      (id.name.inner ++ '"' :: ((id.params.items.flatMap fun p => ';' :: p.toText) ++ s)) := by
    have hcons : "\"@signature-params\"".toList = '"' :: "@signature-params\"".toList := rfl
    rw [HttpMessageComponentId.toText_eq, startsWithParams, hcons, List.append_assoc, List.cons_append,
      List.isPrefixOf_cons_cons, List.cons_append, BEq.rfl, Bool.true_and]
  rw [hcut]
  cases hn : id.name with
  | httpField name =>
    rw [hn] at h
    exact isPrefixOf_field h _
  | derived n =>
    rw [HttpMessageComponentName.inner, isPrefixOf_asStr]
    simp

theorem HttpMessageComponentId.wellFormed_of_tryFrom {val : Text} {id : HttpMessageComponentId} (h : tryFrom val = .ok id) :
    id.name.WellFormed := by
  rw [tryFrom_eq] at h
  obtain ⟨i, -, hi⟩ := Outcome.bind_eq_ok.mp h
  exact (HttpMessageComponentName.tryFrom_eq_ok.mp (readItem_eq_ok.mp hi).1).1

namespace Message
variable {β γ : Type} {m : Message β γ} {p : HttpSignatureParams} {base : HttpSignatureBase}

/-! ### The lines of a base -/

/-- A base has a line for each covered id and one more, unless the printed parameters have a line feed; and the lines
that start like the last one are those of covered `@signature-params`. -/
theorem lines_of_base (h : m.signatureBase p = .ok base) :
    ((base.toText.splitOn '\n').length = p.coveredComponents.length + 1 ↔ '\n' ∉ p.toText) ∧
    ('\n' ∉ p.toText → ∃ lines, base.toText.splitOn '\n' = lines ++ ["\"@signature-params\": ".toList ++ p.toText] ∧
      List.Forall₂ (fun id line => (id.toText ++ ": ".toList) <+: line) p.coveredComponents lines ∧
      ((∀ id ∈ p.coveredComponents, ∃ val, HttpMessageComponentId.tryFrom val = .ok id) →
        (base.toText.splitOn '\n').countP startsWithParams =
          p.coveredComponents.countP (fun id => id.name = .derived .signatureParams) + 1)) := by
  obtain ⟨hids, hvalues, hp⟩ := lines_of_signatureBase h
  have htext : base.toText = (base.componentLines.map HttpMessageComponent.toText).flatMap (fun l => l ++ ['\n']) ++
      ("\"@signature-params\": ".toList ++ p.toText) := by
    rw [HttpSignatureBase.toText, hp, List.flatMap_map, List.append_assoc]
  have hlength : base.componentLines.length = p.coveredComponents.length := by rw [← hids, List.length_map]
  have hlines : '\n' ∉ p.toText → base.toText.splitOn '\n' =
      base.componentLines.map HttpMessageComponent.toText ++ ["\"@signature-params\": ".toList ++ p.toText] := by
    intro hnl
    have hlast : '\n' ∉ "\"@signature-params\": ".toList ++ p.toText := by
      rw [List.mem_append, not_or]
      exact ⟨by decide, hnl⟩
    rw [htext, splitOn_lines, List.splitOn_eq_singleton hlast]
    intro line hline
    obtain ⟨l, hl, rfl⟩ := List.mem_map.mp hline
    have hid : '\n' ∉ l.id.toText := fun hm => hnl <| HttpSignatureParams.newline_mem_toText.mpr <|
      Or.inl ⟨l.id, hids ▸ List.mem_map_of_mem hl, hm⟩
    rw [HttpMessageComponent.toText, List.mem_append, List.mem_cons, List.mem_cons, not_or, not_or, not_or]
    exact ⟨hid, by decide, by decide, hvalues l hl⟩
  refine ⟨⟨fun hcount hm => ?_, fun hnl => ?_⟩, fun hnl => ⟨_, hlines hnl, ?_, fun hread => ?_⟩⟩
  · -- the lines of the ids have a line feed each, and the parameters add another
    have hge := length_le_count_lines (base.componentLines.map HttpMessageComponent.toText)
    have hpos := List.count_pos_iff.mpr hm
    rw [length_splitOn, htext, List.count_append, List.count_append] at hcount
    rw [List.length_map] at hge
    omega
  · rw [hlines hnl, List.length_append, List.length_map, hlength]
    rfl
  · rw [← hids, List.forall₂_map_left_iff, List.forall₂_map_right_iff, List.forall₂_same]
    intro l _
    exact ⟨l.value.toText, by rw [HttpMessageComponent.toText, List.append_assoc]; rfl⟩
  · have hline : ∀ l ∈ base.componentLines, (startsWithParams ∘ HttpMessageComponent.toText) l = true ↔
        ((fun id => decide (id.name = .derived .signatureParams)) ∘ HttpMessageComponent.id) l = true := by
      intro l hl
      obtain ⟨val, hval⟩ := hread l.id (hids ▸ List.mem_map_of_mem hl)
      rw [Function.comp_apply, Function.comp_apply, HttpMessageComponent.toText,
        startsWithParams_line (HttpMessageComponentId.wellFormed_of_tryFrom hval)]
    rw [hlines hnl, List.countP_append, List.countP_map, List.countP_congr hline, ← List.countP_map, hids]
    rfl

/-! ### A covered `@signature-params` -/

/-- A request that bears the inputs of an earlier signature. -/
def signedBefore : Message Unit Unit := .request (getRequest [(signatureInputHeader, "a=()".toList)])

def paramsId : HttpMessageComponentId := ⟨.derived .signatureParams, ∅⟩

/-- The base of that request under parameters that cover `@signature-params`. -/
def paramsBase : HttpSignatureBase where
  componentLines := [⟨paramsId, .keyValue "a".toList "()".toList⟩]
  signatureParams := { HttpSignatureParams.ofComponents [paramsId] with created := some 0 }
  length_eq := rfl
  ids_match := rfl

/-- Parameters may cover `@signature-params`, and then two lines of the base start alike. -/
theorem signedBefore_twoLines : HttpMessageComponentId.tryFrom "\"@signature-params\"".toList = .ok paramsId ∧
    HttpSignatureParams.tryNew [paramsId] 0 = .ok paramsBase.signatureParams ∧
    signedBefore.signatureBase paramsBase.signatureParams = .ok paramsBase ∧
    (paramsBase.toText.splitOn '\n').map startsWithParams = [true, true] := by
  refine ⟨?_, rfl, ?_, ?_⟩ <;> decide

theorem notedBase_lines : (notedBase.toText.splitOn '\n').length = 4 ∧
    (notedBase.toText.splitOn '\n').countP startsWithParams = 1 := by
  obtain ⟨hlength, hshape⟩ := lines_of_base notedRequest_base
  have hnl : '\n' ∉ (HttpSignatureParams.ofComponents notedIds).toText := by decide
  obtain ⟨lines, -, -, hcount⟩ := hshape hnl
  refine ⟨hlength.mpr hnl, hcount ?_⟩
  have hread : ∀ id ∈ notedIds, ∃ val ∈ ["@method".toList, "note".toList, "x".toList],
      HttpMessageComponentId.tryFrom val = .ok id := by decide
  exact fun id hid => (hread id hid).imp fun _ => And.right

end Message
end HttpSig
