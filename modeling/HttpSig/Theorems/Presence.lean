import HttpSig.Theorems.FieldLines
import HttpSig.Theorems.Verification

/-! Covered components that are not there. A field without lines, a dictionary key that no line has and a query
parameter that nobody sent all read as the empty text, so a base over them is built unless something else
stands against it: parameters and lines that do not go together, or a component that is there and rejected. -/

namespace HttpSig
open Rust Sfv Http

section
variable {β : Type}

/-! ### Presence -/

def queryParts : RequestOrResponse β → List Text
  | .request req => splitNonEmpty '&' (req.uri.query.getD [])
  | .response _ => []

/-- A query parameter of a name, written with an equals sign or without. -/
def hasQueryParam (msg : RequestOrResponse β) (name : Text) : Prop :=
  ∃ part ∈ queryParts msg, part.takeWhile (· != '=') = name

/-- A line of a field that is a dictionary with the key. -/
def hasDictionaryKey (msg : RequestOrResponse β) (name key : Text) : Prop :=
  ∃ v ∈ msg.headers.getAll name, ∃ s d, v.toStr = some s ∧ parseDictionaryField s = some d ∧
    (dictionaryGet d key).isSome = true

/-- What an id names is in the message: a field has a line, its key a line with it, a query parameter is there. -/
def PresentIn (msg : RequestOrResponse β) (id : HttpMessageComponentId) : Prop :=
  match id.name with
  | .httpField name => msg.headers.getAll name ≠ [] ∧ ∀ key, .key key ∈ id.params.items → hasDictionaryKey msg name key
  | .derived .queryParam => ∀ name, .name name ∈ id.params.items → hasQueryParam msg name
  | .derived _ => True

/-! ### What the build rejects -/

/-- A field is rejected by a line that is not a text, or by a parameter that its lines do not take. -/
def RejectsField (msg : RequestOrResponse β) (name : Text) (params : HttpMessageComponentParams) : Prop :=
  (∃ v ∈ msg.headers.getAll name, v.toStr = none) ∨
  ∃ vs, (msg.headers.getAll name).map HeaderValue.toStr = vs.map some ∧ RejectsLines params.items vs

/-- A parameter that no derived component takes, or a `name` on another one than `@query-param`. -/
def wrongParam (n : DerivedComponentName) (q : HttpMessageComponentParam) : Bool :=
  q.isFieldOnly || (q.isName && n ≠ .queryParam)

/-- A derived component that a message of this kind does not have. -/
def wrongKind (msg : RequestOrResponse β) (n : DerivedComponentName) : Bool :=
  if msg.isRequest then n = .status else n ≠ .status && n ≠ .signatureParams

/-- The values that a derived component does not do without: a query parameter of any name, a name to look for,
a first `signature-input` line with an equals sign. -/
def LacksValues (msg : RequestOrResponse β) (n : DerivedComponentName) (params : HttpMessageComponentParams) : Prop :=
  match n with
  | .queryParam => queryParts msg = [] ∨ ∀ name, .name name ∉ params.items
  | .signatureParams => ∀ v ∈ (msg.headers.getAll signatureInputHeader).head?, '=' ∉ v.toStr.getD []
  | _ => False

def RejectsIn (msg : RequestOrResponse β) (id : HttpMessageComponentId) : Prop :=
  match id.name with
  | .httpField name => RejectsField msg name id.params
  | .derived n => id.params.items.any (wrongParam n) = true ∨ wrongKind msg n = true ∨ LacksValues msg n id.params

/-! ### What the build takes though it is not there -/

/-- A field without lines under parameters that a field takes, a key that no line has while the lines are not rejected,
and a query parameter that is not among those that are there. -/
def TakesAbsentIn (msg : RequestOrResponse β) (id : HttpMessageComponentId) : Prop :=
  match id.name with
  | .httpField name =>
    (msg.headers.getAll name = [] ∧ ∀ q ∈ id.params.items, q.isUnsupported = false) ∨
    (msg.headers.getAll name ≠ [] ∧ (∃ key, .key key ∈ id.params.items ∧ ¬hasDictionaryKey msg name key) ∧
      ¬RejectsField msg name id.params)
  | .derived .queryParam => msg.isRequest = true ∧ queryParts msg ≠ [] ∧ (∀ q ∈ id.params.items, q.isFieldOnly = false) ∧
    ∃ name, .name name ∈ id.params.items ∧ ¬hasQueryParam msg name
  | .derived _ => False

/-! ### Rejecting is failing -/

variable {msg : RequestOrResponse β} {id : HttpMessageComponentId}

theorem mapM_toStr_eq_ok {l : List HeaderValue} {vs : List Text} :
    l.mapM toStr = .ok vs ↔ l.map HeaderValue.toStr = vs.map some := by
  rw [Outcome.mapM_eq_ok, ← List.forall₂_eq_eq_eq, List.forall₂_map_left_iff, List.forall₂_map_right_iff]
  simp only [toStr, Outcome.okOr_eq_ok]

theorem exists_mapM_toStr {l : List HeaderValue} (h : ∀ v ∈ l, v.toStr ≠ none) : ∃ vs : List Text,
    l.map HeaderValue.toStr = vs.map some := by
  induction l with
  | nil => exact ⟨[], rfl⟩
  | cons v l ih =>
    obtain ⟨hv, hl⟩ := List.forall_mem_cons.mp h
    obtain ⟨s, hs⟩ := Option.ne_none_iff_exists'.mp hv
    obtain ⟨vs, hvs⟩ := ih hl
    exact ⟨s :: vs, by rw [List.map_cons, List.map_cons, hs, hvs]⟩

theorem extractHttpField_isOk {name : Text} (hn : id.name = .httpField name) :
    (∃ c, extractHttpField msg id = .ok c) ↔ ¬RejectsField msg name id.params := by
  constructor
  · rintro ⟨c, h⟩ hrej
    obtain ⟨name', vs, hn', hvs, hb⟩ := extractHttpField_eq_ok.mp h
    rw [hn] at hn'
    cases hn'
    rw [mapM_toStr_eq_ok] at hvs
    obtain ⟨ws, hws, -⟩ := buildHttpFieldComponent_eq_ok.mp hb
    rcases hrej with ⟨v, hv, hnone⟩ | ⟨vs', hvs', hbad⟩
    · have := List.mem_map_of_mem (f := HeaderValue.toStr) hv
      rw [hvs, hnone] at this
      simp at this
    · rw [hvs] at hvs'
      obtain rfl := (List.map_inj_right fun _ _ => Option.some.inj).mp hvs'
      rw [← foldlM_handleParam_eq_none, hws] at hbad
      cases hbad
  · intro hrej
    rw [RejectsField, not_or, not_exists, not_exists] at hrej
    obtain ⟨vs, hvs⟩ := exists_mapM_toStr fun v hv hnone => hrej.1 v ⟨hv, hnone⟩
    have hok := hrej.2 vs
    rw [not_and, ← foldlM_handleParam_eq_none] at hok
    obtain ⟨ws, hws⟩ := Option.ne_none_iff_exists'.mp (hok hvs)
    exact ⟨_, extractHttpField_eq_ok.mpr ⟨name, vs, hn, mapM_toStr_eq_ok.mpr hvs,
      buildHttpFieldComponent_eq_ok.mpr ⟨ws, Outcome.ok?_eq_some.mp hws, rfl⟩⟩⟩

/-- A field without lines is rejected by an unsupported parameter and by nothing else. -/
theorem rejectsField_of_absent {name : Text} {params : HttpMessageComponentParams} (h : msg.headers.getAll name = []) :
    RejectsField msg name params ↔ ∃ q ∈ params.items, q.isUnsupported = true := by
  rw [RejectsField, h]
  simp [RejectsLines, not_refusesLines_nil]

/-- A parameter passes the checks on derived components when it is not a wrong one; `req` needs a request. -/
theorem checkDerivedParam_eq_ok {n : DerivedComponentName} {q : HttpMessageComponentParam} :
    checkDerivedParam msg n q = .ok () ↔ wrongParam n q = false ∧ (q = .req → msg.isRequest = true) := by
  cases q with
  | name val => by_cases h : n = .queryParam <;>
      simp [checkDerivedParam, wrongParam, HttpMessageComponentParam.isFieldOnly, HttpMessageComponentParam.isName, h]
  | req => cases h : msg.isRequest <;>
      simp [checkDerivedParam, wrongParam, HttpMessageComponentParam.isFieldOnly, HttpMessageComponentParam.isName, h]
  | _ => simp [checkDerivedParam, wrongParam, HttpMessageComponentParam.isFieldOnly]

theorem checkDerivedKind_eq_ok {n : DerivedComponentName} {hasReq : Bool} (hr : hasReq = true → msg.isRequest = true) :
    checkDerivedKind msg n hasReq = .ok () ↔ wrongKind msg n = false := by
  cases msg with
  | request req => by_cases h : n = .status <;> simp [checkDerivedKind, wrongKind, RequestOrResponse.isRequest, h]
  | response res =>
    obtain rfl : hasReq = false := by
      rw [← Bool.not_eq_true]
      exact fun h => absurd (hr h) Bool.false_ne_true
    cases n <;> simp [checkDerivedKind, wrongKind, RequestOrResponse.isRequest]

/-- A derived component of the right kind can be made of what it is read from. -/
def HasValue (msg : RequestOrResponse β) (n : DerivedComponentName) (params : HttpMessageComponentParams) : Prop :=
  ∃ first rest value, derivedFieldValues msg n = .ok (first :: rest) ∧
    derivedValue n params first (first :: rest) = .ok value

theorem splitOnce_trim_eq_none {s : Text} : splitOnce '=' (trim s) = none ↔ '=' ∉ s := by
  have hcount : (trim s).count '=' = s.count '=' := count_trim (by decide) s
  rw [splitOnce_eq_none, ← List.count_eq_zero, hcount, List.count_eq_zero]

theorem hasValue_signatureParams {params : HttpMessageComponentParams} :
    HasValue msg .signatureParams params ↔ ¬LacksValues msg .signatureParams params := by
  rw [HasValue, derivedFieldValues, LacksValues]
  cases msg.headers.getAll signatureInputHeader with
  | nil => simp
  | cons v l =>
    rw [List.map_cons, List.head?_cons]
    have hval : ∀ vs, (∃ value, derivedValue .signatureParams params (v.toStr.getD []) vs = .ok value) ↔
        '=' ∈ v.toStr.getD [] := by
      intro vs
      rw [derivedValue, ← not_not (a := '=' ∈ _), ← splitOnce_trim_eq_none]
      cases splitOnce '=' (trim (v.toStr.getD [])) <;> simp
    have hlacks : (∀ w ∈ some v, '=' ∉ w.toStr.getD []) ↔ '=' ∉ v.toStr.getD [] := by simp
    show _ ↔ ¬∀ w ∈ some v, '=' ∉ w.toStr.getD []
    rw [hlacks, not_not, ← hval]
    constructor
    · rintro ⟨first, rest, value, hvs, hv⟩
      cases hvs
      exact ⟨value, hv⟩
    · rintro ⟨value, hv⟩
      exact ⟨_, _, value, rfl, hv⟩

theorem queryParamName_eq_none {params : HttpMessageComponentParams} :
    queryParamName params = none ↔ ∀ name, .name name ∉ params.items := by
  rw [queryParamName, List.findSome?_eq_none_iff]
  constructor
  · intro h name hmem
    cases h _ hmem
  · intro h q hq
    cases q with
    | name val => exact absurd hq (h val)
    | _ => rfl

theorem hasValue_queryParam {γ : Type} {req : Request γ} {params : HttpMessageComponentParams} :
    HasValue (.request req) .queryParam params ↔ ¬LacksValues (.request req) .queryParam params := by
  have hvs : derivedFieldValues (.request req) .queryParam = .ok (queryParts (.request req)) := rfl
  rw [HasValue, hvs, LacksValues, ← queryParamName_eq_none, not_or]
  cases queryParts (.request req) with
  | nil => simp
  | cons first rest =>
    cases hname : queryParamName params with
    | none =>
      simp only [derivedValue, hname]
      simp
    | some name =>
      simp only [reduceCtorEq, not_false_eq_true, and_self, iff_true]
      refine ⟨first, rest, .string (join ", ".toList (queryParamValues name (first :: rest))), rfl, ?_⟩
      simp only [derivedValue, hname]

/-- The other derived components of the right kind always have their one value. -/
theorem hasValue_of_single {n : DerivedComponentName} {params : HttpMessageComponentParams} (hk : wrongKind msg n = false)
    (hq : n ≠ .queryParam) (hs : n ≠ .signatureParams) : HasValue msg n params := by
  have hval : ∀ s : Text, ∃ value, derivedValue n params s [s] = .ok value := by
    intro s
    cases n <;> first | exact ⟨_, rfl⟩ | exact absurd rfl hq | exact absurd rfl hs
  obtain ⟨s, hvs⟩ : ∃ s, derivedFieldValues msg n = .ok [s] := by
    cases msg with
    | request req =>
      cases n with
      | requestTarget =>
        by_cases hc : req.method = Method.CONNECT
        · exact ⟨_, if_pos hc⟩
        · by_cases ho : req.method = Method.OPTIONS
          · exact ⟨_, (if_neg hc).trans (if_pos ho)⟩
          · exact ⟨_, (if_neg hc).trans (if_neg ho)⟩
      | queryParam => exact absurd rfl hq
      | signatureParams => exact absurd rfl hs
      | status => cases hk
      | _ => exact ⟨_, rfl⟩
    | response res =>
      cases n with
      | status => exact ⟨_, rfl⟩
      | signatureParams => exact absurd rfl hs
      | _ => cases hk
  obtain ⟨value, hv⟩ := hval s
  exact ⟨s, [], value, hvs, hv⟩

theorem hasValue_iff {n : DerivedComponentName} {params : HttpMessageComponentParams} (hk : wrongKind msg n = false) :
    HasValue msg n params ↔ ¬LacksValues msg n params := by
  by_cases hs : n = .signatureParams
  · subst hs
    exact hasValue_signatureParams
  · by_cases hq : n = .queryParam
    · subst hq
      cases msg with
      | request req => exact hasValue_queryParam
      | response res => cases hk
    · have hno : ¬LacksValues msg n params := by
        cases n <;> first | exact id | exact absurd rfl hq | exact absurd rfl hs
      exact iff_of_true (hasValue_of_single hk hq hs) hno

theorem isDerivedParam_of_wrongParam {n : DerivedComponentName} {q : HttpMessageComponentParam}
    (h : wrongParam n q = false) : isDerivedParam q = true := by
  cases q <;> first | rfl | cases h

theorem extractDerivedComponent_isOk {n : DerivedComponentName} (hn : id.name = .derived n)
    (hr : HttpMessageComponentParams.hasReq id.params = true → msg.isRequest = true) :
    (∃ c, extractDerivedComponent msg id = .ok c) ↔
      ¬ (id.params.items.any (wrongParam n) = true ∨ wrongKind msg n = true ∨ LacksValues msg n id.params) := by
  rw [not_or, not_or, Bool.not_eq_true, Bool.not_eq_true]
  constructor
  · rintro ⟨c, h⟩
    obtain ⟨n', vs, hn', hp, hk, hvs, hb⟩ := extractDerivedComponent_eq_ok.mp h
    rw [hn] at hn'
    cases hn'
    obtain ⟨n', first, rest, value, hn', rfl, -, hv, -⟩ := buildDerivedComponent_eq_ok.mp hb
    rw [hn] at hn'
    cases hn'
    have hk := (checkDerivedKind_eq_ok hr).mp hk
    refine ⟨?_, hk, (hasValue_iff hk).mp ⟨first, rest, value, hvs, hv⟩⟩
    rw [List.any_eq_false]
    exact fun q hq => Bool.not_eq_true _ ▸ (checkDerivedParam_eq_ok.mp (hp q hq)).1
  · rintro ⟨hp, hk, hv⟩
    obtain ⟨first, rest, value, hvs, hv⟩ := (hasValue_iff hk).mpr hv
    have hp : ∀ q ∈ id.params.items, wrongParam n q = false := fun q hq =>
      Bool.not_eq_true _ ▸ List.any_eq_false.mp hp q hq
    refine ⟨⟨id, value⟩, extractDerivedComponent_eq_ok.mpr ⟨n, _, hn, fun q hq => ?_, (checkDerivedKind_eq_ok hr).mpr hk, hvs,
      buildDerivedComponent_eq_ok.mpr ⟨n, first, rest, value, hn, rfl, ?_, hv, rfl⟩⟩⟩
    · refine checkDerivedParam_eq_ok.mpr ⟨hp q hq, fun hreq => hr ?_⟩
      subst hreq
      simpa [HttpMessageComponentParams.hasReq] using hq
    · exact List.all_eq_true.mpr fun q hq => isDerivedParam_of_wrongParam (hp q hq)

/-- What is taken though it is not there is what is absent and not rejected. -/
theorem takesAbsentIn_iff : TakesAbsentIn msg id ↔ ¬PresentIn msg id ∧ ¬RejectsIn msg id := by
  unfold TakesAbsentIn PresentIn RejectsIn
  cases id.name with
  | httpField name =>
    by_cases hlines : msg.headers.getAll name = []
    · simp only [rejectsField_of_absent hlines, hlines, ne_eq, not_true_eq_false, false_and, or_false, true_and, not_false_eq_true,
        not_exists, not_and, Bool.not_eq_true]
    · simp only [hlines, ne_eq, not_false_eq_true, false_and, true_and, false_or, not_forall, exists_prop]
  | derived n =>
    cases n with
    | queryParam =>
      have hparams : ¬id.params.items.any (wrongParam .queryParam) = true ↔ ∀ q ∈ id.params.items, q.isFieldOnly = false := by
        simp [wrongParam]
      have hkind : ¬wrongKind msg .queryParam = true ↔ msg.isRequest = true := by
        cases h : msg.isRequest <;> simp [wrongKind, h]
      have hname : (¬∀ name, .name name ∉ id.params.items) ↔ ∃ name, .name name ∈ id.params.items := by
        simp only [not_forall, not_not]
      have habsent : (¬∀ name, .name name ∈ id.params.items → hasQueryParam msg name) ↔
          ∃ name, .name name ∈ id.params.items ∧ ¬hasQueryParam msg name := by
        simp only [not_forall, exists_prop]
      simp only [LacksValues, not_or, hparams, hkind, hname, habsent]
      constructor
      · rintro ⟨hreq, hparts, hall, name, hname, habsent⟩
        exact ⟨⟨name, hname, habsent⟩, hall, hreq, hparts, name, hname⟩
      · rintro ⟨⟨name, hname, habsent⟩, hall, hreq, hparts, -⟩
        exact ⟨hreq, hparts, hall, name, hname, habsent⟩
    | _ => simp

theorem extractHttpMessageComponent_isOk (hr : HttpMessageComponentParams.hasReq id.params = true → msg.isRequest = true) :
    (∃ c, extractHttpMessageComponent msg id = .ok c) ↔ ¬RejectsIn msg id := by
  rw [RejectsIn]
  unfold extractHttpMessageComponent
  cases hn : id.name with
  | httpField name => exact extractHttpField_isOk hn
  | derived n => exact extractDerivedComponent_isOk hn hr

end

/-! ### Messages -/

namespace Message
variable {β γ : Type} {m : Message β γ} {p : HttpSignatureParams}

/-- What an id names is in its source: the message, or with `req` the request behind it. -/
def Present (m : Message β γ) (id : HttpMessageComponentId) : Prop :=
  if HttpMessageComponentParams.hasReq id.params then ∃ req, m.reqForParam = some req ∧ PresentIn (.request req) id
  else PresentIn m.message id

/-- The build fails at an id; with `req` also when there is no request behind the message. -/
def Rejects (m : Message β γ) (id : HttpMessageComponentId) : Prop :=
  if HttpMessageComponentParams.hasReq id.params then ∀ req, m.reqForParam = some req → RejectsIn (.request req) id
  else RejectsIn m.message id

theorem exists_covered_iff {id : HttpMessageComponentId} :
    (∃ c, extractCovered m.message m.reqForParam id = .ok c) ↔ ¬ m.Rejects id := by
  unfold extractCovered Rejects
  split
  · cases m with
    | request req => simp [reqForParam, message, RequestOrResponse.isRequest]
    | response res r =>
      cases r with
      | none => simp [reqForParam, message, RequestOrResponse.isRequest]
      | some req =>
        simp only [reqForParam, message, RequestOrResponse.isRequest, Bool.false_eq_true, ite_false, Option.some.injEq,
          forall_eq']
        exact extractHttpMessageComponent_isOk fun _ => rfl
  · rename_i hr
    exact extractHttpMessageComponent_isOk fun h => absurd h hr

/-- A base is built when no covered id is rejected. -/
theorem exists_signatureBase_iff :
    (∃ base, m.signatureBase p = .ok base) ↔ ∀ id ∈ p.coveredComponents, ¬ m.Rejects id := by
  simp only [← exists_covered_iff]
  constructor
  · rintro ⟨base, h⟩ id hid
    obtain ⟨hl, -⟩ := buildSignatureBase_eq_ok.mp h
    obtain ⟨c, -, hc⟩ := Outcome.exists_of_mem_right hl.flip hid
    exact ⟨c, hc⟩
  · intro h
    obtain ⟨lines, hl⟩ := Outcome.exists_mapM_eq_ok h
    obtain ⟨base, hb, -⟩ := exists_buildSignatureBase (Outcome.mapM_eq_ok.mp hl)
    exact ⟨base, hb⟩

/-- An id that names nothing in its source, and that the build takes for one with an empty value. -/
def TakesAbsent (m : Message β γ) (id : HttpMessageComponentId) : Prop :=
  if HttpMessageComponentParams.hasReq id.params then ∃ req, m.reqForParam = some req ∧ TakesAbsentIn (.request req) id
  else TakesAbsentIn m.message id

theorem takesAbsent_iff {id : HttpMessageComponentId} : m.TakesAbsent id ↔ ¬m.Present id ∧ ¬m.Rejects id := by
  unfold TakesAbsent Present Rejects
  split
  · simp only [takesAbsentIn_iff]
    cases m.reqForParam <;> simp
  · exact takesAbsentIn_iff

/-- An id is there for every base that covers it exactly when it is not taken though it names nothing. -/
theorem covered_present_iff {id : HttpMessageComponentId} :
    (∀ p base, m.signatureBase p = .ok base → id ∈ p.coveredComponents → m.Present id) ↔ ¬m.TakesAbsent id := by
  constructor
  · intro h htakes
    obtain ⟨habsent, hno⟩ := takesAbsent_iff.mp htakes
    obtain ⟨base, hb⟩ := (exists_signatureBase_iff (p := .ofComponents [id])).mpr fun x hx => List.mem_singleton.mp hx ▸ hno
    exact habsent (h _ base hb List.mem_cons_self)
  · intro hno p base hb hid
    by_contra habsent
    exact hno (takesAbsent_iff.mpr ⟨habsent, exists_signatureBase_iff.mp ⟨base, hb⟩ id hid⟩)

/-- A base covers only what is there as long as no covered id is taken though it names nothing, or one of them is
rejected. One id is there for every base that covers it exactly when it is not taken so. -/
theorem covers_only_present_iff (m : Message β γ) :
    (∀ p, (∀ base, m.signatureBase p = .ok base → ∀ id ∈ p.coveredComponents, m.Present id) ↔
      (∀ id ∈ p.coveredComponents, ¬m.TakesAbsent id) ∨ ∃ id ∈ p.coveredComponents, m.Rejects id) ∧
    ∀ id, (∀ p base, m.signatureBase p = .ok base → id ∈ p.coveredComponents → m.Present id) ↔ ¬m.TakesAbsent id := by
  refine ⟨fun p => ⟨fun h => ?_, ?_⟩, fun id => covered_present_iff⟩
  · by_cases hrej : ∃ id ∈ p.coveredComponents, m.Rejects id
    · exact Or.inr hrej
    · obtain ⟨base, hb⟩ := exists_signatureBase_iff.mpr fun id hid hr => hrej ⟨id, hid, hr⟩
      exact Or.inl fun id hid htakes => (takesAbsent_iff.mp htakes).1 (h base hb id hid)
  · rintro (hno | ⟨id, hid, hrej⟩) base hb id' hid'
    · exact covered_present_iff.mpr (hno id' hid') p base hb hid'
    · exact absurd hrej (exists_signatureBase_iff.mp ⟨base, hb⟩ id hid)

/-! ### Absent components -/

/-- A request with a field that is a dictionary and a query of one parameter. -/
def dictionaryRequest : Message Unit Unit := .request { getRequest [("x".toList, "a=1".toList)] with
  uri := { sampleUri with rawQuery := some ⟨"a=1".toList, by decide⟩ } }

/-- A field that is not there, a key that its field does not have, and a query parameter that was not sent. -/
def absentIds : List HttpMessageComponentId := [
  ⟨.httpField "y".toList, ∅⟩,
  ⟨.httpField "x".toList, .ofList [.key "b".toList]⟩,
  ⟨.derived .queryParam, .ofList [.name "b".toList]⟩]

theorem absentIds_covered : (dictionaryRequest.signatureBase (.ofComponents absentIds)).isOk = true ∧
    ∀ id ∈ absentIds, ¬ dictionaryRequest.Present id := by
  refine ⟨by decide, ?_⟩
  have hfield : dictionaryRequest.headers.getAll "y".toList = [] := by decide
  have hkey : (dictionaryRequest.headers.getAll "x".toList).all fun v =>
      ((v.toStr.bind parseDictionaryField).bind fun d => dictionaryGet d "b".toList).isNone := by decide
  have hquery : (queryParts dictionaryRequest.message).all fun t => t.takeWhile (· != '=') ≠ "b".toList := by
    decide
  intro id hid hp
  rcases List.mem_cons.mp hid with rfl | hid
  · exact hp.1 hfield
  · rcases List.mem_pair.mp hid with rfl | rfl
    · obtain ⟨v, hv, s, d, hs, hd, hget⟩ := hp.2 "b".toList (by decide)
      have := List.all_eq_true.mp hkey v hv
      rw [hs, Option.bind_some, hd, Option.bind_some, ← Option.not_isSome, hget] at this
      cases this
    · obtain ⟨t, ht, hname⟩ := hp "b".toList (by decide)
      exact of_decide_eq_true (List.all_eq_true.mp hquery t ht) hname

end Message
end HttpSig
