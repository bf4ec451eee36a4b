import HttpSig.Sfv.Printable
import HttpSig.Theorems.Verification

/-! Every value of a signature base stands on a line of its own: none has a line feed in it, so two bases over
the same ids with the same bytes have the same values. -/

namespace HttpSig
open Rust Sfv Http

/-! ### Characters of values -/

theorem ne_newline_of_isTextChar {c : Char} (h : isTextChar c = true) : c ≠ '\n' := by
  rintro rfl
  revert h
  decide

theorem newline_notMem_of_isPrintable {s : Text} (h : ∀ c ∈ s, isPrintable c = true) : '\n' ∉ s := by
  intro hm
  have := h _ hm
  revert this
  decide

theorem newline_notMem_toStr {v : HeaderValue} {s : Text} (h : v.toStr = some s) : '\n' ∉ s := fun hm =>
  ne_newline_of_isTextChar ((HeaderValue.toStr_eq_some.mp h).2 _ hm) rfl

theorem newline_notMem_uriText (u : UriText) : '\n' ∉ u.text := by
  intro hm
  have := List.all_eq_true.mp u.valid _ hm
  revert this
  decide

theorem newline_notMem_method (m : Method) : '\n' ∉ m.text := by
  intro hm
  have hv := m.valid
  rw [Bool.and_eq_true] at hv
  have := List.all_eq_true.mp hv.2 _ hm
  revert this
  decide

theorem newline_notMem_status (s : StatusCode) : '\n' ∉ s.asStr := by
  intro hm
  have := isDigit_of_mem_natText hm
  revert this
  decide

theorem newline_notMem_trim {s : Text} (h : '\n' ∉ s) : '\n' ∉ trim s := by
  intro hm
  exact h ((List.dropWhile_sublist _).mem ((List.rdropWhile_prefix ..).sublist.mem hm))

/-! ### Values of fields -/

theorem newline_notMem_reserialize {v t : Text} (h : reserialize v = .ok t) : '\n' ∉ t := by
  unfold reserialize at h
  split at h
  · exact newline_notMem_of_isPrintable (isPrintable_of_mem_serializeList (Outcome.okOr_eq_ok.mp h))
  · split at h
    · exact newline_notMem_of_isPrintable (isPrintable_of_mem_serializeDictionary (Outcome.okOr_eq_ok.mp h))
    · cases h

theorem eq_map_some_of_mapM_id {α : Type} : ∀ {l : List (Option α)} {bs : List α}, l.mapM id = some bs → l = bs.map some
  | [], bs, h => by
    cases h
    rfl
  | a :: l, bs, h => by
    rw [List.mapM_cons] at h
    obtain ⟨b, hb, h⟩ := Option.bind_eq_some_iff.mp h
    obtain ⟨bs', hbs, h⟩ := Option.bind_eq_some_iff.mp h
    cases h
    rw [List.map_cons, ← eq_map_some_of_mapM_id hbs, ← hb]
    rfl

theorem newline_notMem_handleParamsKeyInto {vs ws : List Text} {key : Text} (h : handleParamsKeyInto vs key = .ok ws) :
    ∀ w ∈ ws, '\n' ∉ w := by
  obtain ⟨dicts, -, h⟩ := Outcome.bind_eq_ok.mp h
  have h := Outcome.okOr_eq_ok.mp h
  intro w hw
  have hx : some w ∈ dicts.filterMap fun dict => (dictionaryGet dict key).map fun v => serializeList [v] := by
    rw [eq_map_some_of_mapM_id h]
    exact List.mem_map.mpr ⟨w, hw, rfl⟩
  obtain ⟨d, -, hd⟩ := List.mem_filterMap.mp hx
  obtain ⟨v, -, hv⟩ := Option.map_eq_some_iff.mp hd
  exact newline_notMem_of_isPrintable (isPrintable_of_mem_serializeList hv)

/-- A parameter keeps line feeds out: what it does not serialize anew it leaves as it is. -/
theorem newline_notMem_handleParam {vs ws : List Text} {p : HttpMessageComponentParam} (h : handleParam vs p = .ok ws)
    (hvs : ∀ v ∈ vs, '\n' ∉ v) : ∀ w ∈ ws, '\n' ∉ w := by
  cases p with
  | sf =>
    intro w hw
    obtain ⟨v, -, hv⟩ := Outcome.exists_of_mem_right (Outcome.mapM_eq_ok.mp h) hw
    exact newline_notMem_reserialize hv
  | key k => exact newline_notMem_handleParamsKeyInto h
  | req =>
    cases h
    exact hvs
  | _ => cases h

theorem newline_notMem_handleParams {ps : List HttpMessageComponentParam} : ∀ {vs ws : List Text},
    ps.foldlM handleParam vs = .ok ws → (∀ v ∈ vs, '\n' ∉ v) → ∀ w ∈ ws, '\n' ∉ w := by
  induction ps with
  | nil =>
    intro vs ws h hvs
    cases h
    exact hvs
  | cons p ps ih =>
    intro vs ws h hvs
    rw [List.foldlM_cons] at h
    obtain ⟨us, hus, h⟩ := Outcome.bind_eq_ok.mp h
    exact ih h (newline_notMem_handleParam hus hvs)

section
variable {β γ : Type} {msg : RequestOrResponse β} {id : HttpMessageComponentId} {c : HttpMessageComponent}

theorem newline_notMem_field (h : extractHttpField msg id = .ok c) : '\n' ∉ c.value.toText := by
  obtain ⟨name, vs, -, hvs, h⟩ := extractHttpField_eq_ok.mp h
  obtain ⟨ws, hws, rfl⟩ := buildHttpFieldComponent_eq_ok.mp h
  refine newline_notMem_join (by decide) (newline_notMem_handleParams hws fun v hv => ?_)
  obtain ⟨hv', -, hs⟩ := Outcome.exists_of_mem_right (Outcome.mapM_eq_ok.mp hvs) hv
  exact newline_notMem_toStr (Outcome.okOr_eq_ok.mp hs)

/-! ### Values of derived components -/

theorem newline_notMem_path (u : Uri) : '\n' ∉ u.path := by
  have := newline_notMem_uriText u.rawPath
  unfold Uri.path Uri.pathOrRoot
  split
  · simp
  · split
    · simp
    · exact this

theorem newline_notMem_queryText (q : Option UriText) : '\n' ∉ Uri.queryText q := by
  cases q with
  | none => simp [Uri.queryText]
  | some q => simpa [Uri.queryText] using newline_notMem_uriText q

theorem newline_notMem_optionText (o : Option UriText) : '\n' ∉ (o.map UriText.text).getD [] := by
  cases o with
  | none => simp
  | some u => exact newline_notMem_uriText u

theorem newline_notMem_pathAndQuery (u : Uri) : '\n' ∉ u.pathAndQuery.getD [] := by
  have hdata : '\n' ∉ u.rawPath.text ++ Uri.queryText u.rawQuery := by
    rw [List.mem_append, not_or]
    exact ⟨newline_notMem_uriText _, newline_notMem_queryText _⟩
  unfold Uri.pathAndQuery
  split
  · rw [Option.getD_some]
    unfold Uri.pathAndQueryText
    dsimp only
    split
    · decide
    · split
      · exact hdata
      · rw [List.mem_cons, not_or]
        exact ⟨by decide, hdata⟩
  · simp

theorem newline_notMem_uri (u : Uri) : '\n' ∉ u.toText := by
  unfold Uri.toText
  rw [List.mem_append, List.mem_append, List.mem_append, not_or, not_or, not_or]
  refine ⟨⟨⟨?_, ?_⟩, newline_notMem_path u⟩, newline_notMem_queryText _⟩
  · split
    · rw [List.mem_append, not_or]
      exact ⟨newline_notMem_uriText _, by decide⟩
    · simp
  · split
    · exact newline_notMem_uriText _
    · simp

theorem newline_notMem_derivedFieldValues {n : DerivedComponentName} {vs : List Text}
    (h : derivedFieldValues msg n = .ok vs) : ∀ v ∈ vs, '\n' ∉ v := by
  have one : ∀ {α : Type} {x : HyperSigResult α} {f : α → Text}, (∀ a, '\n' ∉ f a) →
      (x >>= fun a => .ok [f a]) = .ok vs → ∀ v ∈ vs, '\n' ∉ v := by
    intro α x f hf hx v hv
    obtain ⟨a, -, ha⟩ := Outcome.bind_eq_ok.mp hx
    cases ha
    rw [List.mem_singleton.mp hv]
    exact hf a
  cases n with
  | method => exact one newline_notMem_method h
  | targetUri => exact one newline_notMem_uri h
  | authority => exact one (fun u : Uri => newline_notMem_optionText u.authority) h
  | scheme => exact one (fun u : Uri => newline_notMem_optionText u.scheme) h
  | requestTarget =>
    obtain ⟨m, -, h⟩ := Outcome.bind_eq_ok.mp h
    split at h
    · exact one (fun u : Uri => newline_notMem_optionText u.authority) h
    · split at h
      · cases h
        simp
      · exact one newline_notMem_pathAndQuery h
  | path =>
    refine one (fun u => ?_) h
    split
    · decide
    · exact newline_notMem_path u
  | query =>
    refine one (fun u => ?_) h
    rw [Uri.query]
    cases u.rawQuery with
    | none => decide
    | some q => simpa using newline_notMem_uriText q
  | queryParam =>
    obtain ⟨u, -, h⟩ := Outcome.bind_eq_ok.mp h
    cases h
    intro v hv hm
    obtain ⟨hv, -⟩ := List.mem_filter.mp hv
    exact newline_notMem_optionText u.rawQuery (mem_of_mem_splitOn hv hm)
  | status => exact one newline_notMem_status h
  | signatureParams =>
    cases h
    intro v hv
    obtain ⟨x, -, rfl⟩ := List.mem_map.mp hv
    cases hx : x.toStr with
    | none => simp
    | some s => exact newline_notMem_toStr hx

theorem newline_notMem_derivedValue {n : DerivedComponentName} {ps : HttpMessageComponentParams} {first : Text}
    {vs : List Text} {value : HttpMessageComponentValue} (h : derivedValue n ps first vs = .ok value)
    (hfirst : '\n' ∉ first) (hvs : ∀ v ∈ vs, '\n' ∉ v) : '\n' ∉ value.toText := by
  cases n with
  | method =>
    cases h
    exact newline_notMem_toAsciiUppercase hfirst
  | authority =>
    cases h
    exact newline_notMem_toAsciiLowercase hfirst
  | scheme =>
    cases h
    exact newline_notMem_toAsciiLowercase hfirst
  | queryParam =>
    unfold derivedValue at h
    dsimp only at h
    split at h
    · cases h
    · cases h
      refine newline_notMem_join (by decide) fun s hs hm => ?_
      obtain ⟨kv, hkv, rfl⟩ := List.mem_map.mp hs
      obtain ⟨v, hv, hsplit⟩ := List.mem_filterMap.mp (List.mem_filter.mp hkv).1
      obtain ⟨hcat, -⟩ := splitOnce_eq_some hsplit
      exact hvs v hv (by rw [hcat]; simp [hm])
  | signatureParams =>
    unfold derivedValue at h
    dsimp only at h
    split at h
    · cases h
    · rename_i key val hsplit
      cases h
      obtain ⟨hcat, -⟩ := splitOnce_eq_some hsplit
      intro hm
      exact newline_notMem_trim hfirst (by rw [hcat]; simp [show '\n' ∈ val from hm])
  | _ =>
    cases h
    exact hfirst

theorem newline_notMem_derived (h : extractDerivedComponent msg id = .ok c) : '\n' ∉ c.value.toText := by
  obtain ⟨n, vs, -, -, -, hvs, h⟩ := extractDerivedComponent_eq_ok.mp h
  obtain ⟨n', first, rest, value, -, rfl, -, hv, rfl⟩ := buildDerivedComponent_eq_ok.mp h
  have hall := newline_notMem_derivedFieldValues hvs
  exact newline_notMem_derivedValue hv (hall first (by simp)) hall

/-- No value of a component has a line feed in it. -/
theorem newline_notMem_value {reqForParam : Option (Request γ)} (h : extractCovered msg reqForParam id = .ok c) :
    '\n' ∉ c.value.toText := by
  have hex : ∀ {δ : Type} {msg : RequestOrResponse δ}, extractHttpMessageComponent msg id = .ok c → '\n' ∉ c.value.toText := by
    intro δ msg h
    unfold extractHttpMessageComponent at h
    split at h
    · exact newline_notMem_field h
    · exact newline_notMem_derived h
  unfold extractCovered at h
  split at h
  · split at h
    · cases h
    · split at h
      · cases h
      · exact hex h
  · exact hex h

end

/-! ### Lines -/

/-- Lines over the same ids, with no line feed in any value, render alike only with the same values. -/
theorem values_of_lines {t : Text} : ∀ {ls ls' : List HttpMessageComponent},
    ls.map HttpMessageComponent.id = ls'.map HttpMessageComponent.id →
    (∀ l ∈ ls, '\n' ∉ l.value.toText) → (∀ l ∈ ls', '\n' ∉ l.value.toText) →
    ls.flatMap (fun l => l.toText ++ ['\n']) ++ t = ls'.flatMap (fun l => l.toText ++ ['\n']) ++ t →
    List.Forall₂ (fun l l' => l.id = l'.id ∧ l.value.toText = l'.value.toText) ls ls'
  | [], [], _, _, _, _ => .nil
  | [], _ :: _, h, _, _, _ => by cases h
  | _ :: _, [], h, _, _, _ => by cases h
  | l :: ls, l' :: ls', h, hl, hl', ht => by
    rw [List.map_cons, List.map_cons, List.cons.injEq] at h
    obtain ⟨hid, h⟩ := h
    obtain ⟨hl₁, hl₂⟩ := List.forall_mem_cons.mp hl
    obtain ⟨hl₁', hl₂'⟩ := List.forall_mem_cons.mp hl'
    have hcut : ∀ (l : HttpMessageComponent) (ls : List HttpMessageComponent),
        (l :: ls).flatMap (fun l => l.toText ++ ['\n']) ++ t =
          l.id.toText ++ ':' :: ' ' :: (l.value.toText ++ '\n' :: (ls.flatMap (fun l => l.toText ++ ['\n']) ++ t)) := by
      simp [HttpMessageComponent.toText]
    rw [hcut, hcut, hid,
      List.append_cancel_left_eq, List.cons.injEq, List.cons.injEq] at ht
    obtain ⟨hv, hrest⟩ := append_cons_inj hl₁ hl₁' ht.2.2
    exact .cons ⟨hid, hv⟩ (values_of_lines h hl₂ hl₂' hrest)

namespace Message
variable {β β' γ γ' : Type}

theorem lines_of_signatureBase {m : Message β γ} {p : HttpSignatureParams} {base : HttpSignatureBase}
    (h : m.signatureBase p = .ok base) : base.componentLines.map HttpMessageComponent.id = p.coveredComponents ∧
      (∀ l ∈ base.componentLines, '\n' ∉ l.value.toText) ∧ base.signatureParams = p := by
  obtain ⟨hall, hp⟩ := buildSignatureBase_eq_ok.mp h
  refine ⟨map_id_of_extractCovered hall, fun l hl => ?_, hp⟩
  obtain ⟨id, -, hid⟩ := Outcome.exists_of_mem_right hall hl
  exact newline_notMem_value hid

/-- Bases over the same parameters with the same bytes bind the same values, line by line. -/
theorem values_of_sameBytes {m : Message β γ} {m' : Message β' γ'} {p : HttpSignatureParams} {base base' : HttpSignatureBase}
    (h : m.signatureBase p = .ok base) (h' : m'.signatureBase p = .ok base') (hbytes : base.asBytes = base'.asBytes) :
    base.componentLines.map HttpMessageComponent.id = p.coveredComponents ∧
      List.Forall₂ (fun l l' => l.id = l'.id ∧ l.value.toText = l'.value.toText) base.componentLines base'.componentLines := by
  obtain ⟨hids, hnl, hp⟩ := lines_of_signatureBase h
  obtain ⟨hids', hnl', hp'⟩ := lines_of_signatureBase h'
  have htext : base.toText = base'.toText := utf8Bytes_injective hbytes
  rw [HttpSignatureBase.toText, HttpSignatureBase.toText, hp, hp', List.append_assoc, List.append_assoc] at htext
  exact ⟨hids, values_of_lines (hids.trans hids'.symm) hnl hnl' htext⟩

/-- The base of a request under parameters that cover its method. -/
def methodBase : HttpSignatureBase where
  componentLines := [⟨⟨.derived .method, ∅⟩, .string "GET".toList⟩]
  signatureParams := .ofComponents [⟨.derived .method, ∅⟩]
  length_eq := rfl
  ids_match := by decide

def notedIds : List HttpMessageComponentId :=
  [⟨.derived .method, ∅⟩, ⟨.httpField "note".toList, ∅⟩, ⟨.httpField "x".toList, ∅⟩]

/-- A request with a note that is written like a line of a base. -/
def notedRequest : Message Unit Unit := .request (getRequest [
  ("note".toList, "\"@method\": POST".toList), ("x".toList, "a, b".toList)])

/-- That request elsewhere, with the lines of one field apart. -/
def resentRequest : Message Unit Unit := .request { getRequest [("x".toList, "a".toList), ("y".toList, "1".toList),
    ("note".toList, "\"@method\": POST".toList), ("x".toList, "b".toList)] with
  uri := { sampleUri with authority := some ⟨"g".toList, by decide⟩ } }

/-- The base of either request. -/
def notedBase : HttpSignatureBase where
  componentLines := [⟨⟨.derived .method, ∅⟩, .string "GET".toList⟩,
    ⟨⟨.httpField "note".toList, ∅⟩, .string "\"@method\": POST".toList⟩, ⟨⟨.httpField "x".toList, ∅⟩, .string "a, b".toList⟩]
  signatureParams := .ofComponents notedIds
  length_eq := rfl
  ids_match := by decide

theorem notedRequest_base : notedRequest.signatureBase (.ofComponents notedIds) = .ok notedBase := by decide

theorem notedRequest_values : notedRequest ≠ resentRequest ∧ ∃ base base',
    notedRequest.signatureBase (.ofComponents notedIds) = .ok base ∧
    resentRequest.signatureBase (.ofComponents notedIds) = .ok base' ∧
    base.componentLines.map HttpMessageComponent.id = notedIds ∧
    List.Forall₂ (fun l l' => l.id = l'.id ∧ l.value.toText = l'.value.toText) base.componentLines base'.componentLines := by
  have hresent : resentRequest.signatureBase (.ofComponents notedIds) = .ok notedBase := by decide
  refine ⟨fun h => ?_, _, _, notedRequest_base, hresent, values_of_sameBytes notedRequest_base hresent rfl⟩
  exact absurd (congrArg (fun req => req.uri.authority) (Message.request.inj h)) (by decide)

end Message
end HttpSig
