import HttpSig.Message

/-! Components and signature bases of a message: no part of their making panics, a component keeps its id,
and a base is made exactly when every covered component is. -/

namespace HttpSig
open Rust Sfv Http

/-! ### Values of fields -/

theorem reserialize_ne_panic (v : Text) : reserialize v ≠ .panic := by
  unfold reserialize
  split
  · exact Outcome.okOr_ne_panic
  · split
    · exact Outcome.okOr_ne_panic
    · exact Outcome.err_ne_panic _

theorem handleParamsKeyInto_ne_panic (vs : List Text) (key : Text) : handleParamsKeyInto vs key ≠ .panic :=
  Outcome.bind_ne_panic (Outcome.mapM_ne_panic fun _ _ => Outcome.okOr_ne_panic) fun _ _ => Outcome.okOr_ne_panic

theorem handleParam_ne_panic (vs : List Text) (p : HttpMessageComponentParam) : handleParam vs p ≠ .panic := by
  cases p with
  | sf => exact Outcome.mapM_ne_panic fun v _ => reserialize_ne_panic v
  | key val => exact handleParamsKeyInto_ne_panic vs val
  | req => exact Outcome.ok_ne_panic vs
  | _ => exact Outcome.err_ne_panic _

theorem buildHttpFieldComponent_ne_panic (id : HttpMessageComponentId) (vs : List Text) :
    buildHttpFieldComponent id vs ≠ .panic :=
  Outcome.bind_ne_panic (Outcome.foldlM_ne_panic handleParam_ne_panic) fun _ _ => Outcome.ok_ne_panic _

theorem buildHttpFieldComponent_eq_ok {id : HttpMessageComponentId} {vs : List Text} {c : HttpMessageComponent} :
    buildHttpFieldComponent id vs = .ok c ↔
      ∃ ws, id.params.items.foldlM handleParam vs = .ok ws ∧ c = ⟨id, .string (join ", ".toList ws)⟩ := by
  rw [buildHttpFieldComponent, Outcome.bind_eq_ok]
  refine exists_congr fun ws => and_congr_right fun _ => ?_
  constructor
  · rintro ⟨⟩
    rfl
  · rintro rfl
    rfl

theorem dictionaryGet_single (m : Key × ListEntry) (key : Text) :
    dictionaryGet (IndexMap.ofList [m]) key = if m.1.text = key then some m.2 else none := by
  rw [dictionaryGet, IndexMap.entries_ofList (by simp)]
  by_cases h : m.1.text = key <;> simp [h]

/-! ### Values of derived components -/

theorem mem_of_queryParamName {ps : HttpMessageComponentParams} {name : Text} (h : queryParamName ps = some name) :
    .name name ∈ ps.items := by
  obtain ⟨q, hq, hname⟩ := List.exists_of_findSome?_eq_some h
  cases q <;> cases hname
  exact hq

theorem derivedValue_ne_panic (n : DerivedComponentName) (ps : HttpMessageComponentParams) (first : Text)
    (vs : List Text) : derivedValue n ps first vs ≠ .panic := by
  cases n with
  | queryParam =>
    unfold derivedValue
    dsimp only
    split
    · exact Outcome.err_ne_panic _
    · exact Outcome.ok_ne_panic _
  | signatureParams =>
    unfold derivedValue
    dsimp only
    split
    · exact Outcome.err_ne_panic _
    · exact Outcome.ok_ne_panic _
  | _ => exact Outcome.ok_ne_panic _

theorem buildDerivedComponent_ne_panic (id : HttpMessageComponentId) (vs : List Text) :
    buildDerivedComponent id vs ≠ .panic := by
  unfold buildDerivedComponent
  split
  · exact Outcome.err_ne_panic _
  · split
    · exact Outcome.err_ne_panic _
    · split
      · exact Outcome.err_ne_panic _
      · exact Outcome.bind_ne_panic (derivedValue_ne_panic _ _ _ _) fun _ _ => Outcome.ok_ne_panic _

theorem buildDerivedComponent_eq_ok {id : HttpMessageComponentId} {vs : List Text} {c : HttpMessageComponent} :
    buildDerivedComponent id vs = .ok c ↔ ∃ n first rest value, id.name = .derived n ∧ vs = first :: rest ∧
      id.params.items.all isDerivedParam = true ∧ derivedValue n id.params first vs = .ok value ∧ c = ⟨id, value⟩ := by
  unfold buildDerivedComponent
  cases hn : id.name with
  | httpField name => simp
  | derived n =>
    cases vs with
    | nil => simp
    | cons first rest =>
      cases hall : id.params.items.all isDerivedParam
      · simp
      · simp only [Bool.not_true, Bool.false_eq_true, ite_false, Outcome.bind_eq_ok, Outcome.ok.injEq]
        constructor
        · rintro ⟨value, hv, rfl⟩
          exact ⟨n, first, rest, value, rfl, rfl, trivial, hv, rfl⟩
        · rintro ⟨n', first', rest', value, hn', hvs, -, hv, rfl⟩
          cases hn'
          cases hvs
          exact ⟨value, hv, rfl⟩

namespace HttpMessageComponent

theorem tryFrom_ne_panic (id : HttpMessageComponentId) (vs : List Text) : tryFrom id vs ≠ .panic := by
  unfold tryFrom
  split
  · exact buildHttpFieldComponent_ne_panic id vs
  · exact buildDerivedComponent_ne_panic id vs

end HttpMessageComponent

section
variable {β γ : Type} {msg : RequestOrResponse β} {reqForParam : Option (Request γ)} {id : HttpMessageComponentId}
  {c : HttpMessageComponent} {p : HttpSignatureParams} {base : HttpSignatureBase}

/-! ### Components of a message -/

theorem extractHttpField_ne_panic : extractHttpField msg id ≠ .panic := by
  unfold extractHttpField
  split
  · exact Outcome.err_ne_panic _
  · refine Outcome.bind_ne_panic (Outcome.mapM_ne_panic fun _ _ => Outcome.okOr_ne_panic) fun vs _ => ?_
    rw [Ne, intoHyper_eq_panic]
    exact HttpMessageComponent.tryFrom_ne_panic id vs

theorem checkDerivedParam_ne_panic (n : DerivedComponentName) (q : HttpMessageComponentParam) :
    checkDerivedParam msg n q ≠ .panic := by
  cases q with
  | name val =>
    unfold checkDerivedParam
    dsimp only
    split
    · exact Outcome.ok_ne_panic _
    · exact Outcome.err_ne_panic _
  | req =>
    unfold checkDerivedParam
    dsimp only
    split
    · exact Outcome.ok_ne_panic _
    · exact Outcome.err_ne_panic _
  | _ => exact Outcome.err_ne_panic _

theorem checkDerivedKind_ne_panic (n : DerivedComponentName) (b : Bool) : checkDerivedKind msg n b ≠ .panic := by
  unfold checkDerivedKind
  split
  · split
    · exact Outcome.err_ne_panic _
    · exact Outcome.ok_ne_panic _
  · split
    · exact Outcome.err_ne_panic _
    · split
      · exact Outcome.err_ne_panic _
      · exact Outcome.ok_ne_panic _

theorem method_ne_panic : msg.method ≠ .panic := by
  cases msg
  · exact Outcome.ok_ne_panic _
  · exact Outcome.err_ne_panic _

theorem uri_ne_panic : msg.uri ≠ .panic := by
  cases msg
  · exact Outcome.ok_ne_panic _
  · exact Outcome.err_ne_panic _

theorem status_ne_panic : msg.status ≠ .panic := by
  cases msg
  · exact Outcome.err_ne_panic _
  · exact Outcome.ok_ne_panic _

theorem derivedFieldValues_ne_panic (n : DerivedComponentName) : derivedFieldValues msg n ≠ .panic := by
  cases n with
  | method => exact Outcome.bind_ne_panic method_ne_panic fun _ _ => Outcome.ok_ne_panic _
  | requestTarget =>
    refine Outcome.bind_ne_panic method_ne_panic fun m _ => ?_
    split
    · exact Outcome.bind_ne_panic uri_ne_panic fun _ _ => Outcome.ok_ne_panic _
    · split
      · exact Outcome.ok_ne_panic _
      · exact Outcome.bind_ne_panic uri_ne_panic fun _ _ => Outcome.ok_ne_panic _
  | status => exact Outcome.bind_ne_panic status_ne_panic fun _ _ => Outcome.ok_ne_panic _
  | signatureParams => exact Outcome.ok_ne_panic _
  | _ => exact Outcome.bind_ne_panic uri_ne_panic fun _ _ => Outcome.ok_ne_panic _

theorem extractDerivedComponent_ne_panic : extractDerivedComponent msg id ≠ .panic := by
  unfold extractDerivedComponent
  split
  · exact Outcome.err_ne_panic _
  · rename_i n _
    refine Outcome.bind_ne_panic (Outcome.forM_ne_panic (checkDerivedParam_ne_panic n)) fun _ _ => ?_
    refine Outcome.bind_ne_panic (checkDerivedKind_ne_panic _ _) fun _ _ => ?_
    refine Outcome.bind_ne_panic (derivedFieldValues_ne_panic n) fun vs _ => ?_
    rw [Ne, intoHyper_eq_panic]
    exact HttpMessageComponent.tryFrom_ne_panic id vs

theorem extractHttpMessageComponent_ne_panic : extractHttpMessageComponent msg id ≠ .panic := by
  unfold extractHttpMessageComponent
  split
  · exact extractHttpField_ne_panic
  · exact extractDerivedComponent_ne_panic

theorem extractHttpField_eq_ok : extractHttpField msg id = .ok c ↔ ∃ name vs, id.name = .httpField name ∧
    (msg.headers.getAll name).mapM toStr = .ok vs ∧ buildHttpFieldComponent id vs = .ok c := by
  unfold extractHttpField
  cases hn : id.name with
  | derived n => simp
  | httpField name =>
    simp only [Outcome.bind_eq_ok, intoHyper_eq_ok, HttpMessageComponent.tryFrom, hn]
    constructor
    · rintro ⟨vs, hvs, h⟩
      exact ⟨name, vs, rfl, hvs, h⟩
    · rintro ⟨_, vs, ⟨⟩, hvs, h⟩
      exact ⟨vs, hvs, h⟩

theorem extractDerivedComponent_eq_ok : extractDerivedComponent msg id = .ok c ↔ ∃ n vs, id.name = .derived n ∧
    (∀ q ∈ id.params.items, checkDerivedParam msg n q = .ok ()) ∧
    checkDerivedKind msg n (HttpMessageComponentParams.hasReq id.params) = .ok () ∧
    derivedFieldValues msg n = .ok vs ∧ buildDerivedComponent id vs = .ok c := by
  unfold extractDerivedComponent
  cases hn : id.name with
  | httpField name => simp
  | derived n =>
    simp only [Outcome.bind_eq_ok, intoHyper_eq_ok, HttpMessageComponent.tryFrom, hn]
    constructor
    · rintro ⟨⟨⟩, hp, ⟨⟩, hk, vs, hvs, h⟩
      exact ⟨n, vs, rfl, Outcome.forM_eq_ok.mp hp, hk, hvs, h⟩
    · rintro ⟨_, vs, ⟨⟩, hp, hk, hvs, h⟩
      exact ⟨(), Outcome.forM_eq_ok.mpr hp, (), hk, vs, hvs, h⟩

/-- A component that is extracted bears the id that was asked for. -/
theorem extractHttpMessageComponent_id (h : extractHttpMessageComponent msg id = .ok c) : c.id = id := by
  unfold extractHttpMessageComponent at h
  split at h
  · obtain ⟨name, vs, -, -, h⟩ := extractHttpField_eq_ok.mp h
    obtain ⟨ws, -, rfl⟩ := buildHttpFieldComponent_eq_ok.mp h
    rfl
  · obtain ⟨n, vs, -, -, -, -, h⟩ := extractDerivedComponent_eq_ok.mp h
    obtain ⟨n, first, rest, value, -, -, -, -, rfl⟩ := buildDerivedComponent_eq_ok.mp h
    rfl

/-! ### Bases -/

theorem extractCovered_ne_panic : extractCovered msg reqForParam id ≠ .panic := by
  unfold extractCovered
  split
  · split
    · exact Outcome.err_ne_panic _
    · split
      · exact Outcome.err_ne_panic _
      · exact extractHttpMessageComponent_ne_panic
  · exact extractHttpMessageComponent_ne_panic

theorem extractCovered_id (h : extractCovered msg reqForParam id = .ok c) : c.id = id := by
  unfold extractCovered at h
  split at h
  · split at h
    · cases h
    · split at h
      · cases h
      · exact extractHttpMessageComponent_id h
  · exact extractHttpMessageComponent_id h

theorem HttpMessageComponentId.beq_refl (id : HttpMessageComponentId) : id.beq id = true := by simp [beq]

/-- Lines that bear the covered ids make a base. -/
theorem HttpSignatureBase.exists_tryNew {lines : List HttpMessageComponent}
    (h : lines.map HttpMessageComponent.id = p.coveredComponents) :
    ∃ base, tryNew lines p = .ok base ∧ base.componentLines = lines ∧ base.signatureParams = p := by
  have hlen : lines.length = p.coveredComponents.length := by rw [← h, List.length_map]
  have hids : idsMatch lines p.coveredComponents = true := by
    rw [← h, idsMatch, List.all_eq_true]
    intro e he
    rw [List.zip_map_right, List.mem_map] at he
    obtain ⟨⟨a, b⟩, hab, rfl⟩ := he
    obtain rfl : a = b := List.forall₂_zip (List.forall₂_refl lines) hab
    exact HttpMessageComponentId.beq_refl _
  exact ⟨⟨lines, p, hlen, hids⟩, by rw [tryNew, dif_pos hlen, dif_pos hids], rfl, rfl⟩

theorem HttpSignatureBase.eq_iff {base base' : HttpSignatureBase} : base = base' ↔
    base.componentLines = base'.componentLines ∧ base.signatureParams = base'.signatureParams := by
  obtain ⟨ls, p, hl, hm⟩ := base
  obtain ⟨ls', p', hl', hm'⟩ := base'
  simp

theorem map_id_of_extractCovered {ids : List HttpMessageComponentId} {lines : List HttpMessageComponent}
    (h : List.Forall₂ (fun id line => extractCovered msg reqForParam id = .ok line) ids lines) :
    lines.map HttpMessageComponent.id = ids := by
  rw [← List.forall₂_eq_eq_eq, List.forall₂_map_left_iff]
  exact h.flip.imp fun _ _ => extractCovered_id

/-- Components for all covered ids make a base of them. -/
theorem exists_buildSignatureBase {lines : List HttpMessageComponent}
    (h : List.Forall₂ (fun id line => extractCovered msg reqForParam id = .ok line) p.coveredComponents lines) :
    ∃ base, buildSignatureBase msg p reqForParam = .ok base ∧ base.componentLines = lines ∧ base.signatureParams = p := by
  obtain ⟨base, hb, hls, hp⟩ := HttpSignatureBase.exists_tryNew (map_id_of_extractCovered h)
  refine ⟨base, ?_, hls, hp⟩
  rw [buildSignatureBase, Outcome.mapM_eq_ok.mpr h, Outcome.ok_bind, hb]
  rfl

theorem buildSignatureBase_ne_panic : buildSignatureBase msg p reqForParam ≠ .panic := by
  refine Outcome.bind_ne_panic (Outcome.mapM_ne_panic fun _ _ => extractCovered_ne_panic) fun lines _ => ?_
  rw [Ne, intoHyper_eq_panic]
  unfold HttpSignatureBase.tryNew
  split
  · split
    · exact Outcome.ok_ne_panic _
    · exact Outcome.err_ne_panic _
  · exact Outcome.err_ne_panic _

/-- A base is made exactly when each covered component is, one line each. -/
theorem buildSignatureBase_eq_ok : buildSignatureBase msg p reqForParam = .ok base ↔
    List.Forall₂ (fun id line => extractCovered msg reqForParam id = .ok line) p.coveredComponents base.componentLines ∧
      base.signatureParams = p := by
  constructor
  · intro h
    obtain ⟨lines, hl, -⟩ := Outcome.bind_eq_ok.mp h
    rw [Outcome.mapM_eq_ok] at hl
    obtain ⟨base', hb, rfl, hp⟩ := exists_buildSignatureBase hl
    rw [h] at hb
    cases hb
    exact ⟨hl, hp⟩
  · rintro ⟨hl, hp⟩
    obtain ⟨base', hb, hls, hp'⟩ := exists_buildSignatureBase hl
    rw [hb, Outcome.ok.injEq, HttpSignatureBase.eq_iff]
    exact ⟨hls, hp'.trans hp.symm⟩

end
end HttpSig
