import HttpSig.Theorems.Sources

/-! A component of a response under `req` is the request's own component: both ways to it read the same source
and check the other parameters alike. -/

namespace HttpSig
open Rust Sfv Http

/-- The same component with `req` somewhere among its parameters. -/
def AddsReq (id id' : HttpMessageComponentId) : Prop :=
  id'.name = id.name ∧ ∃ l₁ l₂, id.params.items = l₁ ++ l₂ ∧ id'.params.items = l₁ ++ .req :: l₂

theorem addsReq_addReqParam {id : HttpMessageComponentId} (h : HttpMessageComponentParams.hasReq id.params = false) :
    AddsReq id id.addReqParam := by
  refine ⟨rfl, id.params.items, [], (List.append_nil _).symm, ?_⟩
  exact IndexSet.items_insert_of_notMem (of_decide_eq_false h)

section
variable {id id' : HttpMessageComponentId}

theorem AddsReq.hasReq (h : AddsReq id id') : HttpMessageComponentParams.hasReq id'.params = true := by
  obtain ⟨-, l₁, l₂, -, h⟩ := h
  exact decide_eq_true (by rw [h]; simp)

theorem AddsReq.not_hasReq (h : AddsReq id id') : HttpMessageComponentParams.hasReq id.params = false := by
  obtain ⟨-, l₁, l₂, h, h'⟩ := h
  have hnd := id'.params.nodup
  rw [h'] at hnd
  exact decide_eq_false (by rw [h]; exact (List.nodup_middle.mp hnd).notMem)

/-! ### One component -/

theorem AddsReq.buildHttpFieldComponent (h : AddsReq id id') (vs : List Text) :
    HttpMessageComponent.value <$> buildHttpFieldComponent id' vs =
      HttpMessageComponent.value <$> buildHttpFieldComponent id vs := by
  obtain ⟨-, l₁, l₂, h, h'⟩ := h
  rw [HttpSig.buildHttpFieldComponent, HttpSig.buildHttpFieldComponent, h, h', List.foldlM_append, List.foldlM_append]
  cases l₁.foldlM handleParam vs with
  | ok ws =>
    simp only [Outcome.ok_bind, List.foldlM_cons, handleParam]
    cases l₂.foldlM handleParam ws <;> rfl
  | _ => rfl

theorem AddsReq.queryParamName (h : AddsReq id id') : queryParamName id'.params = queryParamName id.params := by
  obtain ⟨-, l₁, l₂, h, h'⟩ := h
  rw [HttpSig.queryParamName, HttpSig.queryParamName, h, h', List.findSome?_append, List.findSome?_append,
    List.findSome?_cons]

theorem AddsReq.buildDerivedComponent (h : AddsReq id id') (vs : List Text) :
    HttpMessageComponent.value <$> buildDerivedComponent id' vs =
      HttpMessageComponent.value <$> buildDerivedComponent id vs := by
  have hname := h.queryParamName
  have hall : id'.params.items.all isDerivedParam = id.params.items.all isDerivedParam := by
    obtain ⟨-, l₁, l₂, h, h'⟩ := h
    rw [h, h', List.all_append, List.all_append, List.all_cons]
    rfl
  have hvalue : ∀ (n : DerivedComponentName) (first : Text),
      derivedValue n id'.params first vs = derivedValue n id.params first vs := by
    intro n first
    cases n with
    | queryParam => rw [derivedValue, derivedValue, hname]
    | _ => rfl
  unfold HttpSig.buildDerivedComponent
  rw [h.1, hall]
  cases id.name with
  | httpField n => rfl
  | derived n =>
    cases vs with
    | nil => rfl
    | cons first vs =>
      dsimp only
      split
      · rfl
      · rw [hvalue]
        cases derivedValue n id.params first (first :: vs) <;> rfl

theorem AddsReq.tryFrom (h : AddsReq id id') (vs : List Text) :
    HttpMessageComponent.value <$> HttpMessageComponent.tryFrom id' vs =
      HttpMessageComponent.value <$> HttpMessageComponent.tryFrom id vs := by
  unfold HttpMessageComponent.tryFrom
  rw [h.1]
  cases id.name with
  | httpField n => exact h.buildHttpFieldComponent vs
  | derived n => exact h.buildDerivedComponent vs

variable {γ : Type} {req : Request γ}

/-- A request passes `req` on every derived component. -/
theorem AddsReq.checkDerivedParams (h : AddsReq id id') (n : DerivedComponentName) :
    id'.params.items.forM (checkDerivedParam (.request req) n) = id.params.items.forM (checkDerivedParam (.request req) n) := by
  obtain ⟨-, l₁, l₂, h, h'⟩ := h
  have hreq : checkDerivedParam (.request req) n .req = .ok () := rfl
  rw [h, h']
  have happend : forM (l₁ ++ .req :: l₂) (checkDerivedParam (.request req) n) =
      forM (l₁ ++ l₂) (checkDerivedParam (.request req) n) := by
    rw [List.forM_append, List.forM_append, List.forM_cons, hreq, Outcome.ok_bind]
  exact happend

theorem AddsReq.extractHttpMessageComponent (h : AddsReq id id') :
    HttpMessageComponent.value <$> extractHttpMessageComponent (.request req) id' =
      HttpMessageComponent.value <$> extractHttpMessageComponent (.request req) id := by
  have hinto : ∀ vs, HttpMessageComponent.value <$> intoHyper (HttpMessageComponent.tryFrom id' vs) =
      HttpMessageComponent.value <$> intoHyper (HttpMessageComponent.tryFrom id vs) := by
    intro vs
    have hvs := h.tryFrom vs
    cases hx : HttpMessageComponent.tryFrom id' vs <;> cases hy : HttpMessageComponent.tryFrom id vs <;>
      simp_all
  unfold HttpSig.extractHttpMessageComponent extractHttpField extractDerivedComponent
  rw [h.1]
  cases id.name with
  | httpField n =>
    dsimp only
    cases ((RequestOrResponse.request req).headers.getAll n).mapM toStr with
    | ok vs => exact hinto vs
    | _ => rfl
  | derived n =>
    dsimp only
    rw [h.checkDerivedParams]
    cases id.params.items.forM (checkDerivedParam (.request req) n) with
    | ok _ =>
      rw [Outcome.ok_bind, Outcome.ok_bind]
      have hkind : checkDerivedKind (.request req) n (HttpMessageComponentParams.hasReq id'.params) =
          checkDerivedKind (.request req) n (HttpMessageComponentParams.hasReq id.params) := rfl
      rw [hkind]
      cases checkDerivedKind (.request req) n (HttpMessageComponentParams.hasReq id.params) with
      | ok _ =>
        rw [Outcome.ok_bind, Outcome.ok_bind]
        cases derivedFieldValues (.request req) n with
        | ok vs => exact hinto vs
        | _ => rfl
      | _ => rfl
    | _ => rfl

end

/-! ### Signature bases -/

/-- What a base holds of the message: the values of its lines. -/
def componentValues (x : HyperSigResult HttpSignatureBase) : HyperSigResult (List HttpMessageComponentValue) :=
  (fun base => base.componentLines.map HttpMessageComponent.value) <$> x

section
variable {β γ : Type} {msg : RequestOrResponse β} {reqForParam : Option (Request γ)} {p : HttpSignatureParams}

theorem map_mapM {α δ ε : Type} (f : α → Outcome ε β) (g : β → δ) (l : List α) :
    List.map g <$> l.mapM f = l.mapM fun a => g <$> f a := by
  induction l with
  | nil => rfl
  | cons a l ih =>
    rw [List.mapM_cons, List.mapM_cons, ← ih]
    cases f a with
    | ok b => cases l.mapM f <;> rfl
    | _ => rfl

theorem componentValues_buildSignatureBase : componentValues (buildSignatureBase msg p reqForParam) =
    p.coveredComponents.mapM fun id => HttpMessageComponent.value <$> extractCovered msg reqForParam id := by
  rw [← map_mapM]
  cases hl : p.coveredComponents.mapM (extractCovered msg reqForParam) with
  | ok lines =>
    obtain ⟨base, hb, rfl, -⟩ := exists_buildSignatureBase (Outcome.mapM_eq_ok.mp hl)
    rw [hb]
    rfl
  | _ =>
    rw [buildSignatureBase, hl]
    rfl

theorem mapM_congr_forall₂ {α α' ε : Type} {f : α → Outcome ε β} {f' : α' → Outcome ε β} {l : List α} {l' : List α'}
    (h : List.Forall₂ (fun a a' => f a = f' a') l l') : l.mapM f = l'.mapM f' := by
  induction h with
  | nil => rfl
  | cons ha _ ih => rw [List.mapM_cons, List.mapM_cons, ha, ih]

end

namespace Message
variable {β γ δ : Type} {p p' : HttpSignatureParams}

/-- The components of a response under `req` are those of its request, and fail where those fail; without a
request they always fail. -/
theorem reqComponents_agree {res : Response β} {req : Request γ}
    (h : List.Forall₂ AddsReq p.coveredComponents p'.coveredComponents) (hne : p.coveredComponents ≠ []) :
    componentValues ((Message.response res (some req)).signatureBase p') =
        componentValues ((Message.request req : Message γ δ).signatureBase p) ∧
      (Message.request req : Message γ δ).signatureBase p ≠ .panic ∧
      ∃ e, (Message.response res (none : Option (Request γ))).signatureBase p' = .err e := by
  refine ⟨?_, buildSignatureBase_ne_panic, ?_⟩
  · rw [signatureBase, signatureBase, componentValues_buildSignatureBase, componentValues_buildSignatureBase]
    refine (mapM_congr_forall₂ (h.imp fun id id' hid => ?_)).symm
    have hresponse : extractCovered (.response res) (some req) id' = extractHttpMessageComponent (.request req) id' := by
      unfold extractCovered
      rw [if_pos hid.hasReq]
      rfl
    have hrequest : extractCovered (.request req) (none : Option (Request δ)) id =
        extractHttpMessageComponent (.request req) id := by
      unfold extractCovered
      rw [hid.not_hasReq]
      rfl
    show HttpMessageComponent.value <$> extractCovered (.request req) (none : Option (Request δ)) id =
      HttpMessageComponent.value <$> extractCovered (.response res) (some req) id'
    rw [hresponse, hrequest]
    exact hid.extractHttpMessageComponent.symm
  · obtain ⟨id, ids, hids⟩ := List.exists_cons_of_ne_nil hne
    rw [hids] at h
    obtain ⟨id', ids', hid, -, hids'⟩ := List.forall₂_cons_left_iff.mp h
    refine ⟨.invalidComponentParam "`req` is required for the param".toList, ?_⟩
    have hresponse : extractCovered (.response res) (none : Option (Request γ)) id' =
        .err (.invalidComponentParam "`req` is required for the param".toList) := by
      unfold extractCovered
      rw [if_pos hid.hasReq]
      rfl
    rw [signatureBase, buildSignatureBase, hids', List.mapM_cons]
    show (extractCovered (.response res) (none : Option (Request γ)) id' >>= _) >>= _ = _
    rw [hresponse]
    rfl

/-! ### A query parameter of a request -/

def queryIds : List HttpMessageComponentId :=
  [⟨.derived .queryParam, .ofList [.name "a".toList]⟩, ⟨.httpField "x".toList, .ofList [.sf, .key "a".toList]⟩]

/-- The same under `req`, in front of a parameter and between two. -/
def queryReqIds : List HttpMessageComponentId :=
  [⟨.derived .queryParam, .ofList [.req, .name "a".toList]⟩,
    ⟨.httpField "x".toList, .ofList [.sf, .req, .key "a".toList]⟩]

def queryRequest : Request Unit :=
  { getRequest [("x".toList, "a=1".toList)] with uri := { sampleUri with rawQuery := some ⟨"a=1&b=2".toList, by decide⟩ } }

def emptyResponse : Response Unit := ⟨⟨200, by decide⟩, ⟨[]⟩, ()⟩

theorem queryReq_agrees : componentValues ((Message.response emptyResponse (some queryRequest)).signatureBase
      (.ofComponents queryReqIds)) = .ok [.string "1".toList, .string "1".toList] ∧
    ∃ e, (Message.response emptyResponse (none : Option (Request Unit))).signatureBase (.ofComponents queryReqIds) = .err e := by
  have h : List.Forall₂ AddsReq queryIds queryReqIds :=
    .cons ⟨rfl, [], [.name "a".toList], by decide, by decide⟩
      (.cons ⟨rfl, [.sf], [.key "a".toList], by decide, by decide⟩ .nil)
  obtain ⟨hvalues, -, hnone⟩ := @reqComponents_agree Unit Unit Unit (.ofComponents queryIds) (.ofComponents queryReqIds)
    emptyResponse queryRequest h (by decide)
  refine ⟨hvalues.trans ?_, hnone⟩
  decide

end Message
end HttpSig
