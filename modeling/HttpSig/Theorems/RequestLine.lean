import HttpSig.Theorems.Appending
import HttpSig.Theorems.Sources

/-! What the derived components keep of a request line. A server that is sent the origin form of a request reads the
same path, query and target as its client, but no authority; and `@method` with `@request-target` bind the line up to
the case of the method and the path of an OPTIONS request. -/

namespace Http
open Rust HttpSig
namespace Uri
variable {u u' : Uri}

/-! ### Forms of a URI -/

/-- A path from the root and a query, as they stand on a request line. -/
structure OriginForm (u : Uri) : Prop where
  scheme : u.scheme = none
  authority : u.authority = none
  path : startsWith u.rawPath.text '/' = true
  no_query : '?' ∉ u.rawPath.text

/-- A scheme, an authority, and a path that may be left out. -/
structure AbsoluteForm (u : Uri) : Prop where
  scheme : u.scheme.isSome = true
  authority : ∃ a, u.authority = some a ∧ a.text ≠ [] ∧ '/' ∉ a.text
  path : u.rawPath.text = [] ∨ startsWith u.rawPath.text '/' = true
  no_query : '?' ∉ u.rawPath.text

theorem pathOrRoot_ne_nil (u : Uri) : u.pathOrRoot ≠ [] := by
  unfold pathOrRoot
  split
  · simp
  · rename_i h
    simpa using h

/-- An empty path reads as the root, whether the URI is a mere authority or not. -/
theorem path_or_slash (u : Uri) : (if u.path.isEmpty then ['/'] else u.path) = u.pathOrRoot := by
  unfold path
  split
  · rename_i h
    simp only [noPathAndQuery, Bool.and_eq_true] at h
    rw [pathOrRoot, if_pos h.1.1]
    rfl
  · rw [if_neg]
    simpa using u.pathOrRoot_ne_nil

/-- What is shown of a path and a query depends on the path only as it is read. -/
theorem pathAndQueryText_eq (u : Uri) : u.pathAndQueryText =
    (if startsWith u.pathOrRoot '/' || startsWith u.pathOrRoot '*' then [] else ['/']) ++
      (u.pathOrRoot ++ queryText u.rawQuery) := by
  unfold pathAndQueryText pathOrRoot
  cases hp : u.rawPath.text with
  | nil => cases u.rawQuery <;> simp [queryText, startsWith]
  | cons c p =>
    by_cases hc : c = '/' ∨ c = '*'
    · rcases hc with rfl | rfl <;> simp [startsWith]
    · obtain ⟨hs, ha⟩ := not_or.mp hc
      simp [startsWith, hs, ha]

theorem pathAndQueryText_of_path (h : startsWith u.pathOrRoot '/' = true) :
    u.pathAndQueryText = u.pathOrRoot ++ queryText u.rawQuery := by
  rw [pathAndQueryText_eq, h]
  rfl

/-- A path and a query are told apart by the question mark. -/
theorem queryText_inj {p p' : Text} {q q' : Option UriText} (hp : '?' ∉ p) (hp' : '?' ∉ p')
    (h : p ++ queryText q = p' ++ queryText q') : p = p' ∧ q.map UriText.text = q'.map UriText.text := by
  cases q with
  | none =>
    cases q' with
    | none => exact ⟨by simpa [queryText] using h, rfl⟩
    | some q' =>
      refine absurd ?_ hp
      rw [show p = p' ++ '?' :: q'.text by simpa [queryText] using h]
      simp
  | some q =>
    cases q' with
    | none =>
      refine absurd ?_ hp'
      rw [show p' = p ++ '?' :: q.text by simpa [queryText] using h.symm]
      simp
    | some q' =>
      obtain ⟨hpath, hquery⟩ := append_cons_inj hp hp' h
      exact ⟨hpath, congrArg some hquery⟩

end Uri
end Http

namespace HttpSig
open Rust Sfv Http

/-! ### Components of a request -/

section
variable {β β' : Type} {req : Request β} {req' : Request β'} {id : HttpMessageComponentId} {n : DerivedComponentName}

/-- Requests that give a derived component the same values give the same component. -/
theorem extractDerivedComponent_congr (hn : id.name = .derived n)
    (h : derivedFieldValues (.request req) n = derivedFieldValues (.request req') n) :
    extractDerivedComponent (.request req) id = extractDerivedComponent (.request req') id := by
  have hparam : checkDerivedParam (.request req) n = checkDerivedParam (.request req') n := checkDerivedParam_congr rfl n
  have hkind : checkDerivedKind (.request req) n = checkDerivedKind (.request req') n := rfl
  unfold extractDerivedComponent
  rw [hn]
  dsimp only
  rw [hparam, hkind, h]

/-- A component of a single value. -/
theorem extractDerivedComponent_single {v w : Text} {c : HttpMessageComponent} (hn : id.name = .derived n)
    (hv : derivedFieldValues (.request req) n = .ok [v])
    (hw : derivedValue n id.params v [v] = .ok (.string w)) (h : extractDerivedComponent (.request req) id = .ok c) :
    c = ⟨id, .string w⟩ := by
  obtain ⟨n', vs, hn', -, -, hvs, hb⟩ := extractDerivedComponent_eq_ok.mp h
  rw [hn] at hn'
  cases hn'
  rw [hv] at hvs
  cases hvs
  obtain ⟨n', first, rest, value, hn', hvs, -, hvalue, rfl⟩ := buildDerivedComponent_eq_ok.mp hb
  rw [hn] at hn'
  cases hn'
  cases hvs
  rw [hw] at hvalue
  cases hvalue
  rfl

/-- The target of a request line. -/
def requestTarget (req : Request β) : Text :=
  if req.method = Method.CONNECT then authorityText req.uri
  else if req.method = Method.OPTIONS then ['*']
  else req.uri.pathAndQuery.getD []

theorem derivedFieldValues_requestTarget (req : Request β) :
    derivedFieldValues (.request req) .requestTarget = .ok [requestTarget req] := by
  have hread : derivedFieldValues (.request req) .requestTarget =
      if req.method = Method.CONNECT then .ok [authorityText req.uri]
      else if req.method = Method.OPTIONS then .ok [['*']]
      else .ok [req.uri.pathAndQuery.getD []] := rfl
  rw [hread, requestTarget]
  split
  · rfl
  · split <;> rfl

theorem extract_method {c : HttpMessageComponent} (hn : id.name = .derived .method)
    (h : extractDerivedComponent (.request req) id = .ok c) : c = ⟨id, .string (toAsciiUppercase req.method.text)⟩ :=
  extractDerivedComponent_single hn rfl rfl h

theorem extract_authority {c : HttpMessageComponent} (hn : id.name = .derived .authority)
    (h : extractDerivedComponent (.request req) id = .ok c) : c = ⟨id, .string (toAsciiLowercase (authorityText req.uri))⟩ :=
  extractDerivedComponent_single hn rfl rfl h

theorem extract_requestTarget {c : HttpMessageComponent} (hn : id.name = .derived .requestTarget)
    (h : extractDerivedComponent (.request req) id = .ok c) : c = ⟨id, .string (requestTarget req)⟩ :=
  extractDerivedComponent_single hn (derivedFieldValues_requestTarget req) rfl h

end

/-! ### The origin form of a request -/

/-- A request as a server receives it: the URI reduced to its path and query, and the authority in a `Host` line. -/
structure OriginFormOf {β β' : Type} (req : Request β) (req' : Request β') : Prop where
  absolute : req.uri.AbsoluteForm
  method : req'.method = req.method
  scheme : req'.uri.scheme = none
  authority : req'.uri.authority = none
  path : req'.uri.pathOrRoot = req.uri.pathOrRoot
  query : req'.uri.rawQuery = req.uri.rawQuery
  headers : ∃ host value, host.text = "host".toList ∧ value.bytes = utf8Bytes (authorityText req.uri) ∧
    req'.headers = req.headers.append host value

/-- The derived components that are read alike on both sides. -/
def KeptInOriginForm (method : Method) : DerivedComponentName → Prop
  | .method | .path | .query | .queryParam => True
  | .requestTarget => method ≠ Method.CONNECT
  | _ => False

section
variable {β β' : Type} {req : Request β} {req' : Request β'} {id : HttpMessageComponentId} {n : DerivedComponentName}

theorem authorityText_of_absolute {u : Uri} (h : u.AbsoluteForm) : authorityText u ≠ [] := by
  obtain ⟨a, ha, hne, -⟩ := h.authority
  rw [authorityText, ha]
  exact hne

theorem OriginFormOf.authorityText (h : OriginFormOf req req') : authorityText req'.uri = [] := by
  rw [HttpSig.authorityText, h.authority]
  rfl

theorem OriginFormOf.pathAndQuery (h : OriginFormOf req req') :
    req'.uri.pathAndQuery.getD [] = req.uri.pathAndQuery.getD [] := by
  have htext : req'.uri.pathAndQueryText = req.uri.pathAndQueryText := by
    rw [Uri.pathAndQueryText_eq, Uri.pathAndQueryText_eq, h.path, h.query]
  rw [Uri.pathAndQuery, Uri.pathAndQuery, h.absolute.scheme, h.authority, htext]
  simp

theorem OriginFormOf.derivedFieldValues (h : OriginFormOf req req') (hn : KeptInOriginForm req.method n) :
    derivedFieldValues (.request req) n = derivedFieldValues (.request req') n := by
  have hquery : req'.uri.query = req.uri.query := by rw [Uri.query, Uri.query, h.query]
  cases n with
  | method =>
    show Outcome.ok [req.method.text] = Outcome.ok [req'.method.text]
    rw [h.method]
  | path =>
    show Outcome.ok [if req.uri.path.isEmpty then ['/'] else req.uri.path] =
      Outcome.ok [if req'.uri.path.isEmpty then ['/'] else req'.uri.path]
    rw [Uri.path_or_slash, Uri.path_or_slash, h.path]
  | query =>
    show Outcome.ok [(req.uri.query.map ('?' :: ·)).getD ['?']] = Outcome.ok [(req'.uri.query.map ('?' :: ·)).getD ['?']]
    rw [hquery]
  | queryParam =>
    show Outcome.ok (splitNonEmpty '&' (req.uri.query.getD [])) = Outcome.ok (splitNonEmpty '&' (req'.uri.query.getD []))
    rw [hquery]
  | requestTarget =>
    have hconnect : req.method ≠ Method.CONNECT := hn
    rw [derivedFieldValues_requestTarget, derivedFieldValues_requestTarget, requestTarget, requestTarget, h.method,
      if_neg hconnect, if_neg hconnect, h.pathAndQuery]
  | _ => exact hn.elim

/-- A client and a server that reads the origin form agree on the method, the path and the query, and on the target
unless it is an authority. The authority itself only the client reads. -/
theorem originForm_components (h : OriginFormOf req req') (id : HttpMessageComponentId) :
    (∀ n, id.name = .derived n → KeptInOriginForm req.method n →
      extractDerivedComponent (.request req) id = extractDerivedComponent (.request req') id) ∧
    (id.name = .derived .authority → ∀ c c', extractDerivedComponent (.request req) id = .ok c →
      extractDerivedComponent (.request req') id = .ok c' →
        c.value = .string (toAsciiLowercase (authorityText req.uri)) ∧ c'.value = .string [] ∧ c.value ≠ c'.value) ∧
    (id.name = .derived .requestTarget → req.method = Method.CONNECT → ∀ c c',
      extractDerivedComponent (.request req) id = .ok c → extractDerivedComponent (.request req') id = .ok c' →
        c.value = .string (authorityText req.uri) ∧ c'.value = .string [] ∧ c.value ≠ c'.value) := by
  have hne := authorityText_of_absolute h.absolute
  refine ⟨fun n hn hkept => extractDerivedComponent_congr hn (h.derivedFieldValues hkept), ?_, ?_⟩
  · intro hn c c' hc hc'
    rw [extract_authority hn hc, extract_authority hn hc', h.authorityText]
    refine ⟨rfl, rfl, ?_⟩
    intro heq
    exact hne (List.map_eq_nil_iff.mp (HttpMessageComponentValue.string.inj heq))
  · intro hn hconnect c c' hc hc'
    rw [extract_requestTarget hn hc, extract_requestTarget hn hc', requestTarget, requestTarget, h.method, if_pos hconnect,
      if_pos hconnect, h.authorityText]
    exact ⟨rfl, rfl, fun heq => hne (HttpMessageComponentValue.string.inj heq)⟩

/-- Fields other than `Host` are the same in origin form. -/
theorem OriginFormOf.getAll (h : OriginFormOf req req') {name : Text} (hname : toAsciiLowercase name ≠ "host".toList) :
    req'.headers.getAll name = req.headers.getAll name := by
  obtain ⟨host, value, hhost, -, hheaders⟩ := h.headers
  rw [hheaders, getAll_append, hhost, if_neg (Ne.symm hname), List.append_nil]

/-- What a covered id may be for a client and a server to agree on it. -/
def HttpMessageComponentName.KeptInOriginForm (method : Method) : HttpMessageComponentName → Prop
  | .httpField name => toAsciiLowercase name ≠ "host".toList
  | .derived n => HttpSig.KeptInOriginForm method n

/-- What a client signs of these a server rebuilds. -/
theorem OriginFormOf.signatureBase {γ : Type} (h : OriginFormOf req req') {p : HttpSignatureParams}
    (hp : ∀ id ∈ p.coveredComponents, id.name.KeptInOriginForm req.method) :
    (Message.request req : Message β γ).signatureBase p = (Message.request req' : Message β' γ).signatureBase p := by
  refine buildSignatureBase_congr fun id hid => ?_
  have hkept := hp id hid
  have hextract : extractHttpMessageComponent (.request req) id = extractHttpMessageComponent (.request req') id := by
    unfold extractHttpMessageComponent
    cases hn : id.name with
    | httpField name =>
      rw [hn] at hkept
      have hlines : (RequestOrResponse.request req').headers.getAll name = (RequestOrResponse.request req).headers.getAll name :=
        h.getAll hkept
      dsimp only
      unfold extractHttpField
      rw [hn]
      dsimp only
      rw [hlines]
    | derived n =>
      rw [hn] at hkept
      exact extractDerivedComponent_congr hn (h.derivedFieldValues hkept)
  unfold extractCovered
  split
  · rfl
  · exact hextract

end

/-! ### The request line that two components bind -/

/-- Two requests with the same target: CONNECT takes the authority for it, and OPTIONS no part of the URI. -/
def SameTarget {β β' : Type} (req : Request β) (req' : Request β') : Prop :=
  (req.method = Method.CONNECT ∧ req'.method = Method.CONNECT ∧ req.uri.authority = req'.uri.authority) ∨
    (req.method = Method.OPTIONS ∧ req'.method = Method.OPTIONS) ∨
    ((req.method ≠ Method.CONNECT ∧ req.method ≠ Method.OPTIONS) ∧
      (req'.method ≠ Method.CONNECT ∧ req'.method ≠ Method.OPTIONS) ∧
      req.uri.pathOrRoot = req'.uri.pathOrRoot ∧ req.uri.query = req'.uri.query)

/-- Two request lines that the components tell no more apart. -/
def SameRequestLine {β β' : Type} (req : Request β) (req' : Request β') : Prop :=
  toAsciiUppercase req.method.text = toAsciiUppercase req'.method.text ∧ SameTarget req req'

section
variable {u u' : Uri}

theorem slash_notMem_authorityText (h : u.OriginForm ∨ u.AbsoluteForm) : '/' ∉ authorityText u := by
  rcases h with h | h
  · rw [authorityText, h.authority]
    simp
  · obtain ⟨a, ha, -, hslash⟩ := h.authority
    rw [authorityText, ha]
    exact hslash

theorem authority_eq_iff (h : u.OriginForm ∨ u.AbsoluteForm) (h' : u'.OriginForm ∨ u'.AbsoluteForm) :
    authorityText u = authorityText u' ↔ u.authority = u'.authority := by
  refine ⟨fun heq => ?_, fun heq => by rw [authorityText, authorityText, heq]⟩
  have hform : ∀ {v : Uri}, v.OriginForm ∨ v.AbsoluteForm →
      (v.authority = none ∧ authorityText v = []) ∨ ∃ a, v.authority = some a ∧ a.text ≠ [] ∧ authorityText v = a.text := by
    rintro v (hv | hv)
    · exact Or.inl ⟨hv.authority, by rw [authorityText, hv.authority]; rfl⟩
    · obtain ⟨a, ha, hne, -⟩ := hv.authority
      exact Or.inr ⟨a, ha, hne, by rw [authorityText, ha]; rfl⟩
  rcases hform h with ⟨hn, ht⟩ | ⟨a, ha, hne, ht⟩
  · rcases hform h' with ⟨hn', -⟩ | ⟨a', -, hne', ht'⟩
    · rw [hn, hn']
    · exact absurd (ht'.symm.trans (heq.symm.trans ht)) hne'
  · rcases hform h' with ⟨-, ht'⟩ | ⟨a', ha', -, ht'⟩
    · exact absurd (ht.symm.trans (heq.trans ht')) hne
    · have htext : a.text = a'.text := ht.symm.trans (heq.trans ht')
      obtain ⟨t, hv⟩ := a
      obtain ⟨t', hv'⟩ := a'
      cases htext
      rw [ha, ha']

theorem pathOrRoot_of_form (h : u.OriginForm ∨ u.AbsoluteForm) :
    startsWith u.pathOrRoot '/' = true ∧ '?' ∉ u.pathOrRoot := by
  have hpath : u.rawPath.text = [] ∨ startsWith u.rawPath.text '/' = true := h.elim (fun h => Or.inr h.path) fun h => h.path
  have hquery : '?' ∉ u.rawPath.text := h.elim (fun h => h.no_query) fun h => h.no_query
  unfold Uri.pathOrRoot
  rcases hpath with hp | hp
  · rw [hp]
    decide
  · rw [if_neg]
    · exact ⟨hp, hquery⟩
    · intro hempty
      rw [List.isEmpty_iff.mp hempty] at hp
      cases hp

theorem pathAndQuery_of_form (h : u.OriginForm ∨ u.AbsoluteForm) :
    u.pathAndQuery.getD [] = u.pathOrRoot ++ Uri.queryText u.rawQuery := by
  have hsome : (u.scheme.isSome || u.authority.isNone) = true := by
    rcases h with h | h
    · rw [h.authority]
      simp
    · rw [h.scheme]
      rfl
  rw [Uri.pathAndQuery, if_pos hsome, Option.getD_some, Uri.pathAndQueryText_of_path (pathOrRoot_of_form h).1]

variable {β β' : Type} {req : Request β} {req' : Request β'}

/-- A target starts with a slash unless the method gives it another meaning. -/
theorem startsWith_requestTarget (h : req.uri.OriginForm ∨ req.uri.AbsoluteForm) :
    startsWith (requestTarget req) '/' = true ↔ req.method ≠ Method.CONNECT ∧ req.method ≠ Method.OPTIONS := by
  unfold requestTarget
  split
  · rename_i hc
    simp only [hc, ne_eq, not_true_eq_false, false_and, iff_false]
    intro hs
    exact slash_notMem_authorityText h (List.mem_of_mem_head? (by simpa [startsWith] using hs))
  · rename_i hc
    split
    · rename_i ho
      simp [ho, startsWith]
    · rename_i ho
      simp only [ne_eq, hc, ho, not_false_eq_true, and_self, iff_true]
      obtain ⟨hslash, -⟩ := pathOrRoot_of_form h
      rw [pathAndQuery_of_form h]
      cases hp : req.uri.pathOrRoot with
      | nil => exact absurd hp req.uri.pathOrRoot_ne_nil
      | cons c p => rwa [hp] at hslash

theorem requestTarget_eq_iff (h : req.uri.OriginForm ∨ req.uri.AbsoluteForm) (h' : req'.uri.OriginForm ∨ req'.uri.AbsoluteForm)
    (hmethod : toAsciiUppercase req.method.text = toAsciiUppercase req'.method.text) :
    requestTarget req = requestTarget req' ↔ SameTarget req req' := by
  have hne : toAsciiUppercase Method.CONNECT.text ≠ toAsciiUppercase Method.OPTIONS.text := by decide
  constructor
  · intro htarget
    have hplain := startsWith_requestTarget h
    rw [htarget, startsWith_requestTarget h'] at hplain
    by_cases hp : req.method ≠ Method.CONNECT ∧ req.method ≠ Method.OPTIONS
    · have hp' := hplain.mpr hp
      rw [requestTarget, requestTarget, if_neg hp.1, if_neg hp.2, if_neg hp'.1, if_neg hp'.2, pathAndQuery_of_form h,
        pathAndQuery_of_form h'] at htarget
      exact Or.inr (Or.inr ⟨hp, hp', Uri.queryText_inj (pathOrRoot_of_form h).2 (pathOrRoot_of_form h').2 htarget⟩)
    · have hp' : ¬ (req'.method ≠ Method.CONNECT ∧ req'.method ≠ Method.OPTIONS) := fun hp' => hp (hplain.mp hp')
      have special : ∀ {m : Method}, ¬ (m ≠ Method.CONNECT ∧ m ≠ Method.OPTIONS) → m = Method.CONNECT ∨ m = Method.OPTIONS := by
        intro m hm
        rw [not_and_or, not_not, not_not] at hm
        exact hm
      rcases special hp with hc | ho
      · rcases special hp' with hc' | ho'
        · rw [requestTarget, requestTarget, if_pos hc, if_pos hc', authority_eq_iff h h'] at htarget
          exact Or.inl ⟨hc, hc', htarget⟩
        · rw [hc, ho'] at hmethod
          exact absurd hmethod hne
      · rcases special hp' with hc' | ho'
        · rw [ho, hc'] at hmethod
          exact absurd hmethod.symm hne
        · exact Or.inr (Or.inl ⟨ho, ho'⟩)
  · rintro (⟨hc, hc', ha⟩ | ⟨ho, ho'⟩ | ⟨hp, hp', hpath, hquery⟩)
    · rw [requestTarget, requestTarget, if_pos hc, if_pos hc', authorityText, authorityText, ha]
    · rw [requestTarget, requestTarget, ho, ho', if_neg (by decide), if_pos rfl, if_neg (by decide), if_pos rfl]
    · have htext : Uri.queryText req.uri.rawQuery = Uri.queryText req'.uri.rawQuery := by
        have hq : ∀ q : Option UriText, Uri.queryText q = ((q.map UriText.text).map ('?' :: ·)).getD [] := by
          intro q
          cases q <;> rfl
        rw [hq, hq]
        rw [Uri.query, Uri.query] at hquery
        rw [hquery]
      rw [requestTarget, requestTarget, if_neg hp.1, if_neg hp.2, if_neg hp'.1, if_neg hp'.2, pathAndQuery_of_form h,
        pathAndQuery_of_form h', hpath, htext]

/-- The method and the target of a request bind its line up to the case of the method, and for OPTIONS not its path. -/
theorem requestLine_bound {id target : HttpMessageComponentId} {c c' t t' : HttpMessageComponent}
    (h : req.uri.OriginForm ∨ req.uri.AbsoluteForm) (h' : req'.uri.OriginForm ∨ req'.uri.AbsoluteForm)
    (hid : id.name = .derived .method) (htarget : target.name = .derived .requestTarget)
    (hc : extractDerivedComponent (.request req) id = .ok c) (hc' : extractDerivedComponent (.request req') id = .ok c')
    (ht : extractDerivedComponent (.request req) target = .ok t) (ht' : extractDerivedComponent (.request req') target = .ok t') :
    c.value = c'.value ∧ t.value = t'.value ↔ SameRequestLine req req' := by
  rw [extract_method hid hc, extract_method hid hc', extract_requestTarget htarget ht, extract_requestTarget htarget ht',
    HttpMessageComponentValue.string.injEq, HttpMessageComponentValue.string.injEq]
  exact and_congr_right fun hmethod => requestTarget_eq_iff h h' hmethod

end

/-! ### Requests over the wire -/

def methodId : HttpMessageComponentId := ⟨.derived .method, ∅⟩
def targetId : HttpMessageComponentId := ⟨.derived .requestTarget, ∅⟩
def authorityId : HttpMessageComponentId := ⟨.derived .authority, ∅⟩

def rootPath : UriText := sampleUri.rawPath

/-- The origin form of a request without a body or headers. -/
def serverRequest : Request Unit :=
  { getRequest [("host".toList, "h".toList)] with uri := ⟨none, none, rootPath, none⟩ }

theorem serverRequest_originForm : OriginFormOf (getRequest []) serverRequest where
  absolute := {
    scheme := rfl
    authority := ⟨_, rfl, by decide, by decide⟩
    path := Or.inr rfl
    no_query := by decide }
  method := rfl
  scheme := rfl
  authority := rfl
  path := rfl
  query := rfl
  headers := ⟨⟨"host".toList, by decide⟩, ⟨utf8Bytes "h".toList, by decide⟩, rfl, rfl, by decide⟩

/-- The authority that a client signs is not the one that a server rebuilds. -/
theorem authority_differs : OriginFormOf (getRequest []) serverRequest ∧
    extractDerivedComponent (.request (getRequest [])) authorityId = .ok ⟨authorityId, .string "h".toList⟩ ∧
    extractDerivedComponent (.request serverRequest) authorityId = .ok ⟨authorityId, .string []⟩ :=
  ⟨serverRequest_originForm, by decide, by decide⟩

theorem serverRequest_method : extractDerivedComponent (.request (getRequest [])) methodId =
      extractDerivedComponent (.request serverRequest) methodId ∧
    extractDerivedComponent (.request (getRequest [])) targetId =
      extractDerivedComponent (.request serverRequest) targetId := by
  have htarget : (getRequest []).method ≠ Method.CONNECT := by decide
  exact ⟨(originForm_components serverRequest_originForm methodId).1 .method rfl trivial,
    (originForm_components serverRequest_originForm targetId).1 .requestTarget rfl htarget⟩

/-- A request for a path in origin form. -/
def requestFor (method : Method) (path : UriText) : Request Unit := ⟨method, ⟨none, none, path, none⟩, ⟨[]⟩, ()⟩

def lowerGet : Method := ⟨"get".toList, by decide⟩
def otherPath : UriText := ⟨"/a".toList, by decide⟩

/-- Two requests that differ in the case of their method, and two OPTIONS requests for different paths. -/
theorem requestLines_alike :
    (extractDerivedComponent (.request (requestFor lowerGet rootPath)) methodId =
        extractDerivedComponent (.request serverRequest) methodId ∧
      extractDerivedComponent (.request (requestFor lowerGet rootPath)) targetId =
        extractDerivedComponent (.request serverRequest) targetId ∧
      (requestFor lowerGet rootPath).method ≠ serverRequest.method) ∧
    (extractDerivedComponent (.request (requestFor Method.OPTIONS rootPath)) methodId =
        extractDerivedComponent (.request (requestFor Method.OPTIONS otherPath)) methodId ∧
      extractDerivedComponent (.request (requestFor Method.OPTIONS rootPath)) targetId =
        extractDerivedComponent (.request (requestFor Method.OPTIONS otherPath)) targetId ∧
      (requestFor Method.OPTIONS rootPath).uri.pathAndQuery ≠ (requestFor Method.OPTIONS otherPath).uri.pathAndQuery) := by
  refine ⟨⟨?_, ?_, ?_⟩, ?_, ?_, ?_⟩ <;> decide

theorem lowerGet_sameLine : SameRequestLine (requestFor lowerGet rootPath) serverRequest := by
  have hform : (requestFor lowerGet rootPath).uri.OriginForm := ⟨rfl, rfl, rfl, by decide⟩
  have hform' : serverRequest.uri.OriginForm := ⟨rfl, rfl, rfl, by decide⟩
  have hc : extractDerivedComponent (.request (requestFor lowerGet rootPath)) methodId =
      .ok ⟨methodId, .string "GET".toList⟩ := by decide
  have hc' : extractDerivedComponent (.request serverRequest) methodId = .ok ⟨methodId, .string "GET".toList⟩ := by
    decide
  have ht : extractDerivedComponent (.request (requestFor lowerGet rootPath)) targetId =
      .ok ⟨targetId, .string "/".toList⟩ := by decide
  have ht' : extractDerivedComponent (.request serverRequest) targetId = .ok ⟨targetId, .string "/".toList⟩ := by
    decide
  exact (requestLine_bound (Or.inl hform) (Or.inl hform') rfl rfl hc hc' ht ht').mp ⟨rfl, rfl⟩

end HttpSig
