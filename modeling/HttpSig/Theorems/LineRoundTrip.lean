import Mathlib.Data.List.Infix
import HttpSig.Theorems.Duplicates
import HttpSig.Theorems.ReadBack

/-! Component lines that are read back. A line is split at its first colon and its id is printed without escapes,
so a line comes back exactly when no string of its id has a colon, a quote or a backslash. -/

namespace HttpSig
open Rust Sfv

/-! ### Ids of one text -/

theorem foreign_colon : Foreign ':' := ⟨by decide, by decide, by decide, by decide⟩

theorem countAll_eq_zero {c : Char} {l : List Text} : countAll c l = 0 ↔ ∀ s ∈ l, c ∉ s := by
  simp only [countAll, List.sum_eq_zero_iff_forall_eq_nat, List.forall_mem_map, List.count_eq_zero]

theorem escapesAll_of_perm {l m : List Text} (h : l.Perm m) : escapesAll l = escapesAll m := (h.map _).sum_eq

namespace HttpMessageComponentId

theorem strings_perm {a b : HttpMessageComponentId} (h : a.beq b = true) : a.strings.Perm b.strings := by
  obtain ⟨hname, hperm⟩ := beq_iff.mp h
  rw [strings, strings, hname]
  exact (hperm.filterMap _).cons _

theorem length_toText {a b : HttpMessageComponentId} (h : a.beq b = true) : a.toText.length = b.toText.length := by
  obtain ⟨hname, hperm⟩ := beq_iff.mp h
  rw [toText_eq, toText_eq, hname, List.cons_append, List.cons_append, List.length_cons, List.length_cons,
    List.length_append, List.length_append, List.length_cons, List.length_cons, (hperm.flatMap_right _).length_eq]

/-- An id read from a text in quotes has no more escapes than the text has backslashes. -/
theorem escapes_of_tryFrom {s : Text} {id : HttpMessageComponentId} (hq : '"' ∈ trim s) (h : tryFrom s = .ok id) :
    escapesAll id.strings ≤ s.count '\\' := by
  rw [tryFrom_eq, itemText_of_mem hq] at h
  obtain ⟨i, hi, hid⟩ := Outcome.bind_eq_ok.mp h
  obtain ⟨⟨i', r⟩, hparse, hi⟩ := Option.bind_eq_some_iff.mp (Outcome.okOr_eq_ok.mp hi)
  obtain ⟨-, hi⟩ := Option.ite_none_right_eq_some.mp hi
  cases hi
  have hstrings := escapes_readItem hid
  have hitem := parseItem_escapes hparse
  have hdrop : (dropSp (trim s)).count '\\' ≤ (trim s).count '\\' := (List.dropWhile_sublist _).count_le _
  rw [count_trim (by decide)] at hdrop
  omega

end HttpMessageComponentId

/-! ### Lines -/

namespace HttpMessageComponent

/-- The line of a component reads as a component that equals it. -/
def RoundTrips (c : HttpMessageComponent) : Prop :=
  ∃ c', tryFromText c.toText = .ok c' ∧ c'.id.beq c.id = true ∧ c'.toText = c.toText

theorem tryFromText_eq_ok {t : Text} {c : HttpMessageComponent} : tryFromText t = .ok c ↔
    ∃ a b, splitOnce ':' t = some (a, b) ∧ startsWith (trim a) '"' = true ∧
      (endsWith (trim a) '"' = true ∨ containsText (trim a).tail "\";".toList = true) ∧
      HttpMessageComponentId.tryFrom (trim a) = .ok c.id ∧ c.value = .string (trim b) := by
  constructor
  · intro h
    unfold tryFromText at h
    split at h
    · cases h
    · rename_i a b hs
      refine ⟨a, b, hs, ?_⟩
      dsimp only at h
      split at h
      · cases h
      · rename_i hq
        rw [Bool.not_eq_true', Bool.not_eq_false, Bool.and_eq_true, Bool.or_eq_true] at hq
        obtain ⟨id, hid, h⟩ := Outcome.bind_eq_ok.mp h
        cases h
        exact ⟨hq.1, hq.2, hid, rfl⟩
  · rintro ⟨a, b, hs, hstart, hend, hid, hv⟩
    obtain ⟨id, value⟩ := c
    cases hv
    have hq : (startsWith (trim a) '"' && (endsWith (trim a) '"' || containsText (trim a).tail "\";".toList)) = true := by
      rw [hstart, Bool.true_and, Bool.or_eq_true]
      exact hend
    unfold tryFromText
    rw [hs]
    dsimp only
    rw [hq, Bool.not_true, if_neg Bool.false_ne_true, hid]
    rfl

/-- What stands before the first colon of a line: the id, or a part of it that ends before a colon of its own. -/
theorem splitOnce_line {t v a b : Text} (h : splitOnce ':' (t ++ ':' :: ' ' :: v) = some (a, b)) :
    (a = t ∧ b = ' ' :: v) ∨ ∃ x, t = a ++ ':' :: x ∧ b = x ++ ':' :: ' ' :: v := by
  obtain ⟨heq, ha⟩ := splitOnce_eq_some h
  rcases List.append_eq_append_iff.mp heq with ⟨x, rfl, hx⟩ | ⟨x, rfl, hx⟩
  · cases x with
    | nil =>
      rw [List.nil_append, List.cons.injEq] at hx
      exact Or.inl ⟨List.append_nil t, hx.2.symm⟩
    | cons d x =>
      rw [List.cons_append, List.cons.injEq] at hx
      exact absurd (hx.1 ▸ by simp) ha
  · cases x with
    | nil =>
      rw [List.nil_append, List.cons.injEq] at hx
      exact Or.inl ⟨(List.append_nil a).symm, hx.2⟩
    | cons d x =>
      rw [List.cons_append, List.cons.injEq] at hx
      exact Or.inr ⟨x, by rw [hx.1], hx.2⟩

theorem mem_of_startsWith {s : Text} {c : Char} (h : startsWith s c = true) : c ∈ s :=
  List.mem_of_mem_head? (beq_iff_eq.mp h)

/-- A line that comes back has an id without quotes and backslashes in its strings: each of them would have taken
a backslash to read. -/
theorem RoundTrips.isClean {c : HttpMessageComponent} (h : RoundTrips c) : ∀ s ∈ c.id.strings, isClean s = true := by
  obtain ⟨c', hc, hbeq, -⟩ := h
  obtain ⟨a, b, hsplit, hstart, -, hid, -⟩ := tryFromText_eq_ok.mp hc
  have hsub : a.Sublist c.id.toText := by
    rcases splitOnce_line hsplit with ⟨rfl, -⟩ | ⟨x, hx, -⟩
    · exact List.Sublist.refl _
    · rw [hx]
      exact List.sublist_append_left ..
  have hq : '"' ∈ trim (trim a) := by
    rw [← List.count_pos_iff, count_trim (by decide), List.count_pos_iff]
    exact mem_of_startsWith hstart
  refine isClean_of_escapesAll_le ?_
  calc escapesAll c.id.strings = escapesAll c'.id.strings := (escapesAll_of_perm (HttpMessageComponentId.strings_perm hbeq)).symm
    _ ≤ (trim a).count '\\' := HttpMessageComponentId.escapes_of_tryFrom hq hid
    _ ≤ c.id.toText.count '\\' := ((trim_sublist a).trans hsub).count_le _
    _ = countAll '\\' c.id.strings := foreign_backslash.count_id c.id

/-- Nor does a colon stand in them: what follows it would go to the value. -/
theorem RoundTrips.colon {c : HttpMessageComponent} (h : RoundTrips c) : ∀ s ∈ c.id.strings, ':' ∉ s := by
  obtain ⟨c', hc, hbeq, htext⟩ := h
  obtain ⟨a, b, hsplit, -, -, -, hvalue⟩ := tryFromText_eq_ok.mp hc
  have hlen := HttpMessageComponentId.length_toText hbeq
  have hval : trim b = c.value.toText := by
    rw [toText, toText] at htext
    have := (List.append_inj htext hlen).2
    rw [hvalue, List.cons.injEq, List.cons.injEq] at this
    exact this.2.2
  rcases splitOnce_line hsplit with ⟨rfl, -⟩ | ⟨x, -, rfl⟩
  · rw [← countAll_eq_zero, ← foreign_colon.count_id, List.count_eq_zero]
    exact (splitOnce_eq_some hsplit).2
  · have hcount : (trim (x ++ ':' :: ' ' :: c.value.toText)).count ':' = c.value.toText.count ':' := by rw [hval]
    rw [count_trim (by decide), List.count_append, List.count_cons_self, List.count_cons_of_ne (by decide)] at hcount
    omega

theorem containsText_append (s p t : Text) : containsText (s ++ (p ++ t)) p = true := by
  rw [containsText, List.any_eq_true]
  exact ⟨p ++ t, (List.mem_tails _ _).mpr (List.suffix_append ..), List.isPrefixOf_iff_prefix.mpr (List.prefix_append ..)⟩

/-- A printed id passes the check on its quotes. -/
theorem quotes_toText (id : HttpMessageComponentId) : startsWith id.toText '"' = true ∧
    (endsWith id.toText '"' = true ∨ containsText id.toText.tail "\";".toList = true) := by
  rw [id.toText_eq]
  refine ⟨rfl, ?_⟩
  cases id.params.items with
  | nil =>
    refine Or.inl ?_
    rw [endsWith, List.flatMap_nil, List.getLast?_append]
    rfl
  | cons p l =>
    refine Or.inr ?_
    have htail : ('"' :: id.name.inner ++ '"' :: (p :: l).flatMap fun p => ';' :: p.toText).tail =
        id.name.inner ++ ("\";".toList ++ (p.toText ++ l.flatMap fun p => ';' :: p.toText)) := by
      rw [List.flatMap_cons]
      rfl
    rw [htail]
    exact containsText_append ..

theorem roundTrips_of_clean {s : Text} {c : HttpMessageComponent} (hid : HttpMessageComponentId.tryFrom s = .ok c.id)
    (hv : NoEdge c.value.toText) (hs : ∀ t ∈ c.id.strings, isClean t = true ∧ ':' ∉ t) : RoundTrips c := by
  have hname : HttpSig.isClean c.id.name.inner = true := (hs _ (List.mem_cons_self ..)).1
  have hparams : ∀ p ∈ c.id.params.items, ∀ t ∈ p.value, HttpSig.isClean t = true := fun p hp t ht =>
    (hs t (List.mem_cons_of_mem _ (List.mem_filterMap.mpr ⟨p, hp, ht⟩))).1
  obtain ⟨i, hread, hcan⟩ := HttpMessageComponentId.exists_canonicalItem hid hname hparams
  have htext : c.id.toText = serializeItem i := by
    have hspace : Edge [' '] := ⟨' ', [], rfl, Or.inl rfl⟩
    exact List.append_cancel_right ((id_align hread hspace).mpr ⟨hcan, rfl⟩)
  have hcolon : ':' ∉ c.id.toText := by
    rw [← List.count_eq_zero, foreign_colon.count_id, countAll_eq_zero]
    exact fun t ht => (hs t ht).2
  have htrim : trim c.id.toText = c.id.toText := by
    rw [htext]
    exact trim_of_noEdge (noEdge_serializeItem i)
  refine ⟨⟨c.id, .string c.value.toText⟩, tryFromText_eq_ok.mpr ?_, HttpMessageComponentId.beq_refl _, rfl⟩
  refine ⟨c.id.toText, ' ' :: c.value.toText, splitOnce_append hcolon, ?_⟩
  rw [htrim, trim_cons (by decide), trim_of_noEdge hv]
  refine ⟨(quotes_toText c.id).1, (quotes_toText c.id).2, ?_, rfl⟩
  rw [htext, HttpMessageComponentId.tryFrom_serializeItem]
  exact hread

end HttpMessageComponent

/-- The line of a built component comes back exactly when no string of its id has a quote, a backslash or a colon. -/
theorem built_roundTrips_iff {s : Text} {id : HttpMessageComponentId} {vs : List Text} {c : HttpMessageComponent}
    (hid : HttpMessageComponentId.tryFrom s = .ok id)
    (hc : buildHttpFieldComponent id vs = .ok c ∨ buildDerivedComponent id vs = .ok c) (hv : NoEdge c.value.toText) :
    c.RoundTrips ↔ ∀ t ∈ id.strings, isClean t = true ∧ ':' ∉ t := by
  obtain rfl : id = c.id := by
    rcases hc with hc | hc
    · obtain ⟨ws, -, rfl⟩ := buildHttpFieldComponent_eq_ok.mp hc
      rfl
    · obtain ⟨n, first, rest, value, -, -, -, -, rfl⟩ := buildDerivedComponent_eq_ok.mp hc
      rfl
  exact ⟨fun h t ht => ⟨h.isClean t ht, h.colon t ht⟩, HttpMessageComponent.roundTrips_of_clean hid hv⟩

/-! ### A colon in a name -/

def queryParamId (name : String) : HttpMessageComponentId := ⟨.derived .queryParam, .ofList [.name name.toList]⟩

def queryParamComponent (name value : String) : HttpMessageComponent :=
  ⟨queryParamId name, .string value.toList⟩

theorem plainParam_roundTrips : (queryParamComponent "a" "1:2").RoundTrips := by
  have hid : HttpMessageComponentId.tryFrom "\"@query-param\";name=\"a\"".toList = .ok (queryParamId "a") := by decide
  have hbuild : buildDerivedComponent (queryParamId "a") ["a=1:2".toList] = .ok (queryParamComponent "a" "1:2") := by decide
  have hedge : NoEdge (queryParamComponent "a" "1:2").value.toText := by
    constructor
    · rintro c ⟨⟩
      rfl
    · rintro c ⟨⟩
      rfl
  exact (built_roundTrips_iff hid (.inr hbuild) hedge).mpr (by decide)

/-- The line is split inside the name, and what stands before the colon is no id. -/
theorem colonParam_lost : HttpMessageComponentId.tryFrom "\"@query-param\";name=\"a:b\"".toList = .ok (queryParamId "a:b") ∧
    buildDerivedComponent (queryParamId "a:b") ["a:b=1".toList] = .ok (queryParamComponent "a:b" "1") ∧
    HttpMessageComponent.tryFromText (queryParamComponent "a:b" "1").toText = .err .parseSFVError ∧
    ¬(queryParamComponent "a:b" "1").RoundTrips := by
  have hline : HttpMessageComponent.tryFromText (queryParamComponent "a:b" "1").toText = .err .parseSFVError := by decide
  refine ⟨by decide, by decide, hline, ?_⟩
  rintro ⟨c, hc, -⟩
  rw [hline] at hc
  cases hc

end HttpSig
