import HttpSig.Theorems.Retention
import HttpSig.Theorems.Completeness

/-! Ids that read the signature fields of their own message. One that picks out a single label stays as it is while
further labels come, so that a signature can cover an earlier one. -/

namespace HttpSig
open Rust Sfv Http

/-- An id that is not read from the signature fields, or only from the member under a label in use. -/
def Settled (labels : List Text) (id : HttpMessageComponentId) : Prop :=
  ReadsSignatureField id → ∃ k rest, id.params.items = .key k :: rest ∧ k ∈ labels

theorem Settled.mono {labels labels' : List Text} {id : HttpMessageComponentId} (h : Settled labels id)
    (hsub : ∀ k ∈ labels, k ∈ labels') : Settled labels' id := by
  intro hreads
  obtain ⟨k, rest, hparams, hk⟩ := h hreads
  exact ⟨k, rest, hparams, hsub k hk⟩

/-! ### One line more -/

/-- A line without the key adds nothing to what `key` picks out. -/
theorem handleParamsKeyInto_append {vs ws : List Text} {key t : Text} {d : Dictionary} (h : handleParamsKeyInto vs key = .ok ws)
    (hd : parseDictionaryField t = some d) (hkey : dictionaryGet d key = none) :
    handleParamsKeyInto (vs ++ [t]) key = .ok ws := by
  obtain ⟨ds, hds, hws⟩ := Outcome.bind_eq_ok.mp h
  have hall : (vs ++ [t]).mapM (fun v => Outcome.okOr (HttpSigError.invalidComponentParam
      "Failed to parse structured field value: ".toList) (parseDictionaryField v)) = .ok (ds ++ [d]) := by
    rw [List.mapM_append, hds]
    simp [hd]
  rw [handleParamsKeyInto, hall, Outcome.ok_bind, List.filterMap_append, List.filterMap_cons, hkey]
  simpa using hws

theorem mapM_toStr_snoc {l : List HeaderValue} {vs : List Text} {v : HeaderValue} {t : Text} (hl : l.mapM toStr = .ok vs)
    (hv : v.toStr = some t) : (l ++ [v]).mapM toStr = .ok (vs ++ [t]) := by
  rw [List.mapM_append, hl]
  simp [toStr, hv]

section
variable {β : Type} {msg msg' : RequestOrResponse β} {id : HttpMessageComponentId} {c : HttpMessageComponent} {v : HeaderValue}
  {k : Key} {e : ListEntry} {key name : Text} {rest : List HttpMessageComponentParam}

/-- A field of which one member is covered may have a line more, under another key. -/
theorem extractHttpField_append (h : extractHttpField msg id = .ok c) (hname : id.name = .httpField name)
    (hparams : id.params.items = .key key :: rest) (hlines : msg'.headers.getAll name = msg.headers.getAll name ++ [v])
    (hv : Carries v k e) (hk : k.text ≠ key) : extractHttpField msg' id = .ok c := by
  obtain ⟨name', vs, hname', hvs, hbuild⟩ := extractHttpField_eq_ok.mp h
  cases hname.symm.trans hname'
  obtain ⟨ws, hws, rfl⟩ := buildHttpFieldComponent_eq_ok.mp hbuild
  obtain ⟨t, ht, hparse⟩ := hv
  refine extractHttpField_eq_ok.mpr ⟨name, vs ++ [t], hname, ?_, buildHttpFieldComponent_eq_ok.mpr ⟨ws, ?_, rfl⟩⟩
  · rw [hlines]
    exact mapM_toStr_snoc hvs ht
  · rw [hparams, List.foldlM_cons] at hws ⊢
    obtain ⟨us, hus, hws⟩ := Outcome.bind_eq_ok.mp hws
    have hus : handleParamsKeyInto vs key = .ok us := hus
    have hus' : handleParam (vs ++ [t]) (.key key) = .ok us :=
      handleParamsKeyInto_append hus hparse ((dictionaryGet_single _ _).trans (if_neg hk))
    rw [hus', Outcome.ok_bind]
    exact hws

end

/-! ### One signature more -/

theorem getAll_eq_of_lower {headers : HeaderMap} {n n' : Text} (h : toAsciiLowercase n = toAsciiLowercase n') :
    headers.getAll n = headers.getAll n' := by
  rw [HeaderMap.getAll, HeaderMap.getAll, h]

namespace Message
variable {β γ : Type} {m : Message β γ} {v w : HeaderValue} {k : Key} {e e' : ListEntry} {id : HttpMessageComponentId}
  {c : HttpMessageComponent} {labels : List Text} {p : HttpSignatureParams} {base : HttpSignatureBase}

/-- A settled id has the same value behind a signature under a new label. -/
theorem extractCovered_withPair (h : extractCovered m.message m.reqForParam id = .ok c) (hid : Settled labels id)
    (hk : k.text ∉ labels) (hv : Carries v k e) (hw : Carries w k e') :
    extractCovered (m.withPair v w).message (m.withPair v w).reqForParam id = .ok c := by
  by_cases hreads : ReadsSignatureField id
  · obtain ⟨key, rest, hparams, hkey⟩ := hid hreads
    have hne : k.text ≠ key := fun heq => hk (heq ▸ hkey)
    obtain ⟨hreq, name, hname, hfield⟩ := hreads
    have hextract : ∀ {δ : Type} (msg : RequestOrResponse δ) (r : Option (Request γ)),
        extractCovered msg r id = extractHttpField msg id := by
      intro δ msg r
      unfold extractCovered extractHttpMessageComponent
      rw [hreq, if_neg Bool.false_ne_true, hname]
    have hlow : toAsciiLowercase signatureHeader = signatureHeader := by decide
    have hlow' : toAsciiLowercase signatureInputHeader = signatureInputHeader := by decide
    rw [hextract] at h ⊢
    rcases hfield with hf | hf
    · refine extractHttpField_append h hname hparams ?_ hw hne
      rw [withPair, message_headers_withHeaders, getAll_eq_of_lower (hf.trans hlow.symm),
        getAll_eq_of_lower (hf.trans hlow.symm), getAll_appendPair_signature]
      rfl
    · refine extractHttpField_append h hname hparams ?_ hv hne
      rw [withPair, message_headers_withHeaders, getAll_eq_of_lower (hf.trans hlow'.symm),
        getAll_eq_of_lower (hf.trans hlow'.symm), getAll_appendPair_input]
      rfl
  · exact (extractCovered_appendPair hreads fun hn hr => getAll_of_extractCovered h hn hr).trans h

theorem signatureBase_of_settled (h : m.signatureBase p = .ok base) (hids : ∀ id ∈ p.coveredComponents, Settled labels id)
    (hk : k.text ∉ labels) (hv : Carries v k e) (hw : Carries w k e') : (m.withPair v w).signatureBase p = .ok base := by
  obtain ⟨hall, hp⟩ := buildSignatureBase_eq_ok.mp h
  refine buildSignatureBase_eq_ok.mpr ⟨?_, hp⟩
  refine List.forall₂_iff_zip.mpr ⟨hall.length_eq, fun {id c} hmem => ?_⟩
  exact extractCovered_withPair ((List.forall₂_iff_zip.mp hall).2 hmem) (hids id (List.of_mem_zip hmem).1) hk hv hw

/-- The base of parameters whose ids are settled outlasts a whole call. -/
theorem signatureBase_appendPairs {hs : List HttpSignatureHeaders} {lines : List (HeaderValue × HeaderValue)}
    (hlines : List.Forall₂ HeaderLines hs lines) (hkey : ∀ x ∈ hs, isKey x.signatureName = true)
    (hback : ∀ x ∈ hs, x.signatureParams.ReadsBack) (hfresh : ∀ x ∈ hs, x.signatureName ∉ labels)
    (hids : ∀ id ∈ p.coveredComponents, Settled labels id) (h : m.signatureBase p = .ok base) :
    (m.withHeaders (appendPairs m.headers lines)).signatureBase p = .ok base := by
  induction hlines generalizing m with
  | nil =>
    have hself : m.withHeaders m.headers = m := by cases m <;> rfl
    rw [show appendPairs m.headers [] = m.headers from rfl, hself]
    exact h
  | @cons x l hs lines hl _ ih =>
    rw [List.forall_mem_cons] at hkey hback hfresh
    let k : Key := ⟨x.signatureName, hkey.1⟩
    obtain ⟨il, -, hv⟩ := hl.carries_signatureInput (k := k) rfl hback.1
    have hstep : (m.withPair l.1 l.2).signatureBase p = .ok base :=
      signatureBase_of_settled (k := k) h hids hfresh.1 hv (hl.carries_signature rfl)
    have hrest := ih hkey.2 hback.2 hfresh.2 hstep
    have hheaders : (m.withPair l.1 l.2).withHeaders (appendPairs (m.withPair l.1 l.2).headers lines) =
        m.withHeaders (appendPairs m.headers (l :: lines)) := by
      rw [withPair, headers_withHeaders]
      cases m <;> rfl
    rwa [hheaders] at hrest

end Message
end HttpSig
