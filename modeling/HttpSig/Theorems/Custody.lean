import HttpSig.Sfv.Reprint
import HttpSig.Theorems.BodyIntegrity
import HttpSig.Theorems.Joining
import HttpSig.Theorems.Quoteless

/-! A signature over an earlier one. Who covers the members of another label vouches for the parameters and the bytes under
it: where that signature is accepted, the other label holds what it held when it was covered. -/

namespace HttpSig
open Rust Sfv Http Systems

/-! ### Members line by line -/

/-- What the lines of a field show under a key, those that are dictionaries. -/
def membersUnder (headers : HeaderMap) (name key : Text) : List ListEntry :=
  (headers.getAll name).filterMap fun v => (v.toStr.bind parseDictionaryField).bind (dictionaryGet · key)

/-- The lines of a field as dictionaries. -/
def lineDictionaries (headers : HeaderMap) (name : Text) : Option (List Dictionary) :=
  (headers.getAll name).mapM fun v => v.toStr.bind parseDictionaryField

theorem membersUnder_eq {headers : HeaderMap} {name : Text} (key : Text) {ds : List Dictionary}
    (h : lineDictionaries headers name = some ds) : membersUnder headers name key = ds.filterMap (dictionaryGet · key) := by
  unfold lineDictionaries at h
  unfold membersUnder
  generalize headers.getAll name = l at h ⊢
  induction l generalizing ds with
  | nil =>
    rw [List.mapM_nil] at h
    cases h
    rfl
  | cons v l ih =>
    rw [List.mapM_cons] at h
    obtain ⟨d, hd, h⟩ := Option.bind_eq_some_iff.mp h
    obtain ⟨ds, hds, h⟩ := Option.bind_eq_some_iff.mp h
    cases h
    rw [List.filterMap_cons, List.filterMap_cons, hd, Option.bind_some, ih hds]

theorem mapM_bind {α β δ : Type} {f : α → Option β} {g : β → Option δ} {l : List α} {bs : List β} (h : l.mapM f = some bs) :
    bs.mapM g = l.mapM fun a => (f a).bind g := by
  induction l generalizing bs with
  | nil =>
    rw [List.mapM_nil] at h
    cases h
    rfl
  | cons a l ih =>
    rw [List.mapM_cons] at h
    obtain ⟨b, hb, h⟩ := Option.bind_eq_some_iff.mp h
    obtain ⟨bs, hbs, h⟩ := Option.bind_eq_some_iff.mp h
    cases h
    rw [List.mapM_cons, List.mapM_cons, hb, Option.bind_some, ih hbs]

/-- Printed members are told apart by their text. -/
theorem join_serialize_inj {l l' : List ListEntry}
    (h : join ", ".toList (l.map serializeListEntry) = join ", ".toList (l'.map serializeListEntry)) : l = l' := by
  have hparse : ∀ l : List ListEntry, parseListField (join ", ".toList (l.map serializeListEntry)) = some l := by
    intro l
    by_cases hl : l = []
    · rw [hl]
      rfl
    · exact parseListField_serializeList (if_neg fun hemp => hl (List.isEmpty_iff.mp hemp))
  exact Option.some.inj ((hparse l).symm.trans (h ▸ hparse l'))

/-- The value of an id that picks out a key: the members under it, of lines that are all dictionaries. -/
theorem value_of_key {β : Type} {msg : RequestOrResponse β} {name key : Text} {id : HttpMessageComponentId}
    {c : HttpMessageComponent} (h : extractHttpField msg id = .ok c) (hname : id.name = .httpField name)
    (hparams : id.params.items = [.key key]) : ∃ ds, lineDictionaries msg.headers name = some ds ∧
      c.value.toText = join ", ".toList ((membersUnder msg.headers name key).map serializeListEntry) := by
  obtain ⟨n, vs, hn, hvs, hbuild⟩ := extractHttpField_eq_ok.mp h
  cases hname.symm.trans hn
  obtain ⟨ws, hws, rfl⟩ := buildHttpFieldComponent_eq_ok.mp hbuild
  rw [hparams, List.foldlM_cons] at hws
  obtain ⟨ws', hws', hnil⟩ := Outcome.bind_eq_ok.mp hws
  rw [List.foldlM_nil] at hnil
  cases hnil
  have hws' : handleParamsKeyInto vs key = .ok ws := hws'
  have hvalue := handleParamsKeyInto_ok? vs key
  rw [hws', Outcome.ok?_ok] at hvalue
  obtain ⟨ds, hds, hmembers⟩ := Option.map_eq_some_iff.mp hvalue.symm
  rw [mapM_toStr] at hvs
  rw [mapM_bind (Outcome.okOr_eq_ok.mp hvs)] at hds
  refine ⟨ds, hds, ?_⟩
  rw [membersUnder_eq key hds, List.map_filterMap]
  exact congrArg (join ", ".toList) hmembers.symm

/-! ### The member of the whole field -/

/-- White space in front of a joined text is that in front of its first line. -/
theorem dropOws_join {w : Text} {rest : List Text} {dw d : Dictionary} (hw : parseDictionaryField w = some dw)
    (h : parseDictionaryField (dropOws (join ", ".toList (w :: rest))) = some d) :
    dropOws (join ", ".toList (w :: rest)) = dropSp (join ", ".toList (w :: rest)) := by
  have hows : dropOws w = dropSp w := by
    obtain ⟨l, hl, -⟩ := Option.map_eq_some_iff.mp (parseDictionaryField_eq w ▸ hw)
    exact MemberParser.dropOws_eq_dropSp hl
  cases rest with
  | nil =>
    rw [join_singleton]
    exact hows
  | cons u rest =>
    have hjoin : join ", ".toList (w :: u :: rest) = w ++ ',' :: ' ' :: join ", ".toList (u :: rest) := by
      rw [join_cons_cons]
      simp
    rw [hjoin] at h ⊢
    by_cases hblank : dropOws w = []
    · rw [dropOws_append_comma hblank, parseDictionaryField_eq] at h
      rw [show dropSp (',' :: ' ' :: join ", ".toList (u :: rest)) = dropSp ([] ++ ',' :: ' ' :: join ", ".toList (u :: rest)) from rfl,
        MemberParser.members_join_blank rfl] at h
      cases h
    · have hsp : dropSp w ≠ [] := hows ▸ hblank
      rw [dropOws, dropSp, List.dropWhile_append, List.dropWhile_append]
      rw [dropOws, dropSp] at hows
      rw [dropOws] at hblank
      rw [dropSp] at hsp
      rw [if_neg (by rwa [List.isEmpty_iff]), if_neg (by rwa [List.isEmpty_iff]), hows]

/-- A line in front of others: the whole field is its members, extended by those of the others. -/
theorem exists_extend_of_join {v w : Text} {rest : List Text} {dv dw d : Dictionary} (hv : parseDictionaryField v = some dv)
    (hw : parseDictionaryField w = some dw) (h : parseDictionaryField (join ", ".toList (v :: w :: rest)) = some d) :
    ∃ d', parseDictionaryField (join ", ".toList (w :: rest)) = some d' ∧ d = dv.extend d'.entries := by
  have hjoin : join ", ".toList (v :: w :: rest) = v ++ ',' :: ' ' :: join ", ".toList (w :: rest) := by
    rw [join_cons_cons]
    simp
  rw [hjoin] at h
  have hne : dv.entries ≠ [] := by
    intro hnil
    rw [parseDictionaryField_eq, MemberParser.members_join_blank ((dropSp_eq_nil_iff hv).mpr hnil)] at h
    cases h
  rw [parseDictionaryField_join hv hne] at h
  split at h
  · cases h
  · obtain ⟨d', hd', rfl⟩ := Option.map_eq_some_iff.mp h
    refine ⟨d', ?_, rfl⟩
    have hows := dropOws_join hw hd'
    rwa [parseDictionaryField_eq, dropSp_dropOws, hows, ← parseDictionaryField_eq] at hd'

/-- Of the lines of a field it is the last with a key that the whole field shows under it. -/
theorem dictionaryGet_join {key : Text} : ∀ {vs : List Text} {ds : List Dictionary} {d : Dictionary},
    vs.mapM parseDictionaryField = some ds → parseDictionaryField (join ", ".toList vs) = some d →
      dictionaryGet d key = (ds.filterMap (dictionaryGet · key)).getLast?
  | [], ds, d, hds, hd => by
    rw [List.mapM_nil] at hds
    cases hds
    cases hd
    rfl
  | v :: vs, ds, d, hds, hd => by
    rw [List.mapM_cons] at hds
    obtain ⟨dv, hdv, hds⟩ := Option.bind_eq_some_iff.mp hds
    obtain ⟨ds', hds', hds⟩ := Option.bind_eq_some_iff.mp hds
    cases hds
    have hsplit : ∀ l : List ListEntry, ((dictionaryGet dv key).toList ++ l).getLast? = l.getLast?.or (dictionaryGet dv key) := by
      intro l
      rw [List.getLast?_append]
      cases dictionaryGet dv key <;> rfl
    have hcons : (dv :: ds').filterMap (dictionaryGet · key) =
        (dictionaryGet dv key).toList ++ ds'.filterMap (dictionaryGet · key) := by
      rw [List.filterMap_cons]
      cases dictionaryGet dv key <;> rfl
    rw [hcons, hsplit]
    cases vs with
    | nil =>
      rw [List.mapM_nil] at hds'
      cases hds'
      rw [join_singleton, hdv] at hd
      cases hd
      rfl
    | cons w rest =>
      rw [List.mapM_cons] at hds'
      obtain ⟨dw, hdw, hrest⟩ := Option.bind_eq_some_iff.mp hds'
      obtain ⟨d', hd', rfl⟩ := exists_extend_of_join hdv hdw hd
      have hds'' : (w :: rest).mapM parseDictionaryField = some ds' := by
        rw [List.mapM_cons, hdw]
        exact hrest
      rw [dictionaryGet_extend, dictionaryGet_join hds'' hd']

/-- What a label holds is what the last lines with its key show. -/
theorem get?_headers {β : Type} {msg : RequestOrResponse β} {map : HttpSignatureHeadersMap} {input signature : Dictionary}
    (hm : extractSignatureHeadersWithName msg = .ok map) (hf : SignatureFields msg.headers input signature) (k : Key) :
    map.get? k.text = (input.get? k).bind fun e => (HttpSignatureParams.tryFrom e).ok?.map fun p =>
      ⟨k.text, signatureBytes signature k, p⟩ := by
  obtain ⟨input', signature', hf', hr, hentries⟩ := extractSignatureHeadersWithName_iff.mp hm
  obtain ⟨rfl, rfl⟩ := hf.unique hf'
  refine Option.ext fun h => ?_
  rw [IndexMap.get?_eq_some, hentries, List.mem_filterMap, Option.bind_eq_some_iff]
  constructor
  · rintro ⟨⟨k', e⟩, he, hread⟩
    obtain ⟨p, hp, heq⟩ := readEntry_eq_some.mp hread
    obtain ⟨hk, rfl⟩ := Prod.mk.inj heq
    obtain rfl : k = k' := Key.ext hk
    exact ⟨e, IndexMap.get?_eq_some.mpr he, Option.map_eq_some_iff.mpr ⟨p, Outcome.ok?_eq_some.mpr hp, rfl⟩⟩
  · rintro ⟨e, he, hread⟩
    obtain ⟨p, hp, rfl⟩ := Option.map_eq_some_iff.mp hread
    exact ⟨(k, e), IndexMap.get?_eq_some.mp he, readEntry_eq_some.mpr ⟨p, Outcome.ok?_eq_some.mp hp, rfl⟩⟩

theorem get?_eq_getLast? {headers : HeaderMap} {name : Text} {d : Dictionary} {ds : List Dictionary} (k : Key)
    (hd : (fieldText headers name).bind parseDictionaryField = some d) (hds : lineDictionaries headers name = some ds) :
    d.get? k = (membersUnder headers name k.text).getLast? := by
  obtain ⟨t, ht, hd⟩ := Option.bind_eq_some_iff.mp hd
  obtain ⟨vs, hvs, rfl⟩ := Option.map_eq_some_iff.mp ht
  have hmapM : vs.mapM parseDictionaryField = some ds := (mapM_bind hvs).trans hds
  rw [membersUnder_eq k.text hds, ← dictionaryGet_join hmapM hd, dictionaryGet_eq, dif_pos k.valid]

/-! ### Ids that pick out a key -/

def memberId (name key : Text) : HttpMessageComponentId := ⟨.httpField name, .ofList [.key key]⟩

theorem memberId_items (name key : Text) : (memberId name key).params.items = [.key key] := rfl

theorem memberId_toText (name key : Text) : (memberId name key).toText =
    '"' :: name ++ '"' :: (";key=\"".toList ++ key ++ ['"']) := by
  rw [HttpMessageComponentId.toText_eq, memberId_items, List.flatMap_singleton]
  rfl

theorem quote_notMem_key (k : Key) : '"' ∉ k.text := by
  intro hm
  have := k.isKeyChar_of_mem _ hm
  revert this
  decide

/-- Behind a quote in its name an id that prints like one that picks out a key has no parameters. -/
theorem items_eq_nil_of_quoted {y : Text} {ps : List HttpMessageComponentParam} {k : Key}
    (h : y ++ '"' :: (ps.flatMap fun p => ';' :: p.toText) = ";key=".toList ++ '"' :: (k.text ++ '"' :: [])) : ps = [] := by
  cases ps with
  | nil => rfl
  | cons p ps =>
    rw [List.flatMap_cons, List.cons_append] at h
    by_cases hy : '"' ∈ y
    · obtain ⟨u, v, rfl, hu⟩ := List.eq_append_cons_of_mem hy
      rw [List.append_assoc, List.cons_append] at h
      obtain ⟨-, h⟩ := append_cons_inj hu (by decide) h
      have hcount := congrArg (List.count '"') h
      rw [List.count_append, List.count_append, List.count_cons_self, List.count_cons_self, List.count_nil,
        List.count_eq_zero_of_not_mem (quote_notMem_key k)] at hcount
      obtain ⟨-, hnil⟩ := append_cons_inj (List.count_eq_zero.mp (by omega)) (quote_notMem_key k) h
      cases hnil
    · -- What follows the quote starts with a semicolon, and no key does.
      obtain ⟨-, hparams⟩ := append_cons_inj hy (by decide) h
      cases hk : k.text with
      | nil => exact absurd hk k.ne_nil
      | cons c s =>
        rw [hk] at hparams
        have hc := k.isKeyChar_of_mem c (hk ▸ List.mem_cons_self ..)
        rw [← (List.cons.inj hparams).1] at hc
        exact absurd hc (by decide)

/-- An id that prints like one that picks out a key is that id, or has a quote in its name and no parameters. -/
theorem eq_memberId {id : HttpMessageComponentId} {n : Text} {k : Key} (hn : '"' ∉ n) (hat : startsWith n '@' = false)
    (h : id.toText = (memberId n k.text).toText) :
    id = memberId n k.text ∨ ('"' ∈ id.name.inner ∧ id.params.items = []) := by
  rw [memberId_toText, id.toText_eq, List.cons_append, List.cons_append] at h
  have h : id.name.inner ++ '"' :: (id.params.items.flatMap fun p => ';' :: p.toText) =
      n ++ '"' :: (";key=\"".toList ++ k.text ++ ['"']) := (List.cons.inj h).2
  by_cases hinner : '"' ∈ id.name.inner
  · refine Or.inr ⟨hinner, ?_⟩
    obtain ⟨x, y, hxy, hx⟩ := List.eq_append_cons_of_mem hinner
    rw [hxy, List.append_assoc, List.cons_append] at h
    obtain ⟨-, h⟩ := append_cons_inj hx hn h
    exact items_eq_nil_of_quoted h
  · refine Or.inl ?_
    obtain ⟨hname, hparams⟩ := append_cons_inj hinner hn h
    have hitems : id.params.items = [.key k.text] := by
      refine params_of_toText ?_ hparams
      rintro v ⟨⟩
      exact quote_notMem_key k
    obtain ⟨name, params⟩ := id
    have hset : params = .ofList [.key k.text] := IndexSet.ext hitems
    cases name with
    | httpField name =>
      have hname : name = n := hname
      rw [hset, hname]
      rfl
    | derived d =>
      have hname : d.asStr = n := hname
      have := d.startsWith_asStr
      rw [hname, hat] at this
      cases this

/-- No field has a quote in its name, so that such an id has no value. -/
theorem value_of_quoted {β γ : Type} {msg : RequestOrResponse β} {reqForParam : Option (Request γ)} {id : HttpMessageComponentId}
    {c : HttpMessageComponent} (h : extractCovered msg reqForParam id = .ok c) (hquote : '"' ∈ id.name.inner)
    (hparams : id.params.items = []) : c.value.toText = [] := by
  have hreq : HttpMessageComponentParams.hasReq id.params = false := by
    rw [HttpMessageComponentParams.hasReq, hparams]
    rfl
  cases hname : id.name with
  | derived d =>
    rw [hname] at hquote
    exact absurd hquote (by cases d <;> decide)
  | httpField name =>
    unfold extractCovered extractHttpMessageComponent at h
    rw [hreq, if_neg Bool.false_ne_true, hname] at h
    obtain ⟨n, vs, hn, hvs, hbuild⟩ := extractHttpField_eq_ok.mp h
    cases hname.symm.trans hn
    have hnone : msg.headers.getAll name = [] := by
      rw [HeaderMap.getAll, List.map_eq_nil_iff, List.filter_eq_nil_iff]
      intro e _ heq
      rw [decide_eq_true_iff] at heq
      rw [hname] at hquote
      have hlower : '"' ∈ e.1.text := heq ▸ List.mem_map.mpr ⟨'"', hquote, by decide⟩
      have hchar := List.all_eq_true.mp (Bool.and_eq_true_iff.mp e.1.valid).2 _ hlower
      exact absurd hchar (by decide)
    rw [hnone, List.mapM_nil] at hvs
    cases hvs
    obtain ⟨ws, hws, rfl⟩ := buildHttpFieldComponent_eq_ok.mp hbuild
    rw [hparams] at hws
    cases hws
    rfl

/-! ### Bases that say the same -/

section
variable {β β' γ γ' : Type} {m : Message β γ} {m' : Message β' γ'} {p p' : HttpSignatureParams}
  {base base' : HttpSignatureBase} {n : Text} {k : Key} {c : HttpMessageComponent}

theorem value_of_memberId (h : extractCovered m.message m.reqForParam (memberId n k.text) = .ok c) :
    ∃ ds, lineDictionaries m.headers n = some ds ∧
      c.value.toText = join ", ".toList ((membersUnder m.headers n k.text).map serializeListEntry) := by
  have h : extractHttpField m.message (memberId n k.text) = .ok c := h
  exact value_of_key h rfl (memberId_items n k.text)

/-- A key that is covered, and is there, has the same members on both messages. -/
theorem membersUnder_of_statement (h : m.signatureBase p = .ok base) (h' : m'.signatureBase p' = .ok base')
    (hs : base.statement = base'.statement) (hn : '"' ∉ n) (hat : startsWith n '@' = false)
    (hid : memberId n k.text ∈ p.coveredComponents) (hne : membersUnder m.headers n k.text ≠ []) :
    membersUnder m'.headers n k.text = membersUnder m.headers n k.text ∧ ∃ ds, lineDictionaries m'.headers n = some ds := by
  obtain ⟨c, hc, hmem⟩ := mem_components h hid
  rw [hs] at hmem
  obtain ⟨l, hl, heq⟩ := List.mem_map.mp hmem
  obtain ⟨hall, -⟩ := buildSignatureBase_eq_ok.mp h'
  obtain ⟨id', hid', hex⟩ := Outcome.exists_of_mem_right hall hl
  have hprint : id'.toText = (memberId n k.text).toText := (extractCovered_id hex) ▸ congrArg Prod.fst heq
  have hvalue : l.value.toText = c.value.toText := congrArg Prod.snd heq
  obtain ⟨-, -, htext⟩ := value_of_memberId hc
  rcases eq_memberId hn hat hprint with rfl | ⟨hquote, hparams⟩
  · obtain ⟨ds, hds, htext'⟩ := value_of_memberId hex
    exact ⟨join_serialize_inj (htext'.symm.trans (hvalue.trans htext)), ds, hds⟩
  · rw [value_of_quoted hex hquote hparams, htext] at hvalue
    exact absurd (join_serialize_inj (l := []) hvalue).symm hne

/-- The whole field shows the same under the key on both messages, as do their lines. -/
theorem get?_of_statement {d : Dictionary} {e : ListEntry} (h : m.signatureBase p = .ok base)
    (h' : m'.signatureBase p' = .ok base') (hs : base.statement = base'.statement) (hn : '"' ∉ n)
    (hat : startsWith n '@' = false) (hid : memberId n k.text ∈ p.coveredComponents)
    (hd : (fieldText m.headers n).bind parseDictionaryField = some d) (hget : d.get? k = some e) :
    membersUnder m'.headers n k.text = membersUnder m.headers n k.text ∧
      ∀ d', (fieldText m'.headers n).bind parseDictionaryField = some d' → d'.get? k = some e := by
  obtain ⟨c, hc, -⟩ := mem_components h hid
  obtain ⟨ds, hds, -⟩ := value_of_memberId hc
  rw [get?_eq_getLast? k hd hds] at hget
  have hne : membersUnder m.headers n k.text ≠ [] := by
    intro hnil
    rw [hnil] at hget
    cases hget
  obtain ⟨hsame, ds', hds'⟩ := membersUnder_of_statement h h' hs hn hat hid hne
  exact ⟨hsame, fun d' hd' => by rw [get?_eq_getLast? k hd' hds', hsame, hget]⟩

/-- The lines of both signature fields show the same under a label. -/
def SameMembers (headers headers' : HeaderMap) (label : Text) : Prop :=
  ∀ n ∈ [signatureInputHeader, signatureHeader], membersUnder headers' n label = membersUnder headers n label

/-- A label in use whose parameters and signature are covered holds the same on both messages. -/
theorem headers_of_statement {map : HttpSignatureHeadersMap} {held : HttpSignatureHeaders}
    (h : m.signatureBase p = .ok base) (h' : m'.signatureBase p' = .ok base') (hs : base.statement = base'.statement)
    (hinput : memberId signatureInputHeader k.text ∈ p.coveredComponents)
    (hsignature : memberId signatureHeader k.text ∈ p.coveredComponents)
    (hm : extractSignatureHeadersWithName m.message = .ok map) (hheld : map.get? k.text = some held) :
    SameMembers m.headers m'.headers k.text ∧
      ∀ map', extractSignatureHeadersWithName m'.message = .ok map' → map'.get? k.text = some held := by
  obtain ⟨input, signature, hf, -⟩ := extractSignatureHeadersWithName_iff.mp hm
  rw [get?_headers hm hf k] at hheld
  obtain ⟨e, he, hread⟩ := Option.bind_eq_some_iff.mp hheld
  obtain ⟨bytes, ps, hbytes⟩ := hf.paired.exists_byteSequence (List.mem_map.mpr ⟨_, IndexMap.get?_eq_some.mp he, rfl⟩)
  obtain ⟨hlines, hinput'⟩ := get?_of_statement h h' hs (by decide) (by decide) hinput hf.input_parses he
  obtain ⟨hlines', hsignature'⟩ := get?_of_statement h h' hs (by decide) (by decide) hsignature hf.signature_parses hbytes
  refine ⟨List.forall_mem_cons.mpr ⟨hlines, List.forall_mem_singleton.mpr hlines'⟩, fun map' hm' => ?_⟩
  obtain ⟨input', signature', hf', -⟩ := extractSignatureHeadersWithName_iff.mp hm'
  have hsame : signatureBytes signature' k = signatureBytes signature k := by
    rw [signatureBytes, signatureBytes, hbytes, hsignature' signature' hf'.signature_parses]
  rw [get?_headers hm' hf' k, hinput' input' hf'.input_parses, hsame]
  exact hread

end

/-! ### Runs -/

section
variable {π β γ σ κ : Type} [SigningKey σ] [VerifyingKey κ] {sk : π → σ} {vk : π → κ}
  {s s' : NetworkState π} {m : Message β γ} {asks : List (π × Option Text)}
  {results : List (Except HyperSigError SignatureName)} {a : π} {keyId : Option Text} {name : SignatureName}

/-- A label whose parameters and signature are covered by an accepted signature holds what it held on the message that
the principal signed. -/
theorem held_of_accepted {es₁ es₂ : List (NetworkEvent π β γ)} {map : SignatureMap} {headersMap : HttpSignatureHeadersMap}
    {entry : HttpSignatureBase × HttpSignatureHeaders} {k : Key} {held : HttpSignatureHeaders}
    (hrun : (network sk vk).Run s (es₁ ++ .receive m asks results :: es₂) s') (hs : s.emitted = [])
    (hacc : ((a, keyId), Except.ok name) ∈ asks.zip results) (hm : m.extractSignatures = .ok map)
    (hentry : map.get? name = some entry)
    (hinput : memberId signatureInputHeader k.text ∈ entry.2.signatureParams.coveredComponents)
    (hsignature : memberId signatureHeader k.text ∈ entry.2.signatureParams.coveredComponents)
    (hheaders : extractSignatureHeadersWithName m.message = .ok headersMap) (hheld : headersMap.get? k.text = some held) :
    ∃ m₀ list, .sign a m₀ list ∈ es₁ ∧ SameMembers m.headers m₀.headers k.text ∧
      ∀ map₀, extractSignatureHeadersWithName m₀.message = .ok map₀ → map₀.get? k.text = some held := by
  obtain ⟨m₀, list, e, base, hsign, -, hbuilt, hp, hstatement⟩ := bases_of_accepted hrun hs hacc hm hentry
  exact ⟨m₀, list, hsign, headers_of_statement hp hbuilt hstatement hinput hsignature hheaders hheld⟩

end

/-! ### A request through a proxy that vouches for its client -/

open scoped ByteKey

inductive Party where
  | client
  | proxy
  deriving DecidableEq

def partyKey : Party → ByteKey
  | .client => ⟨2⟩
  | .proxy => ⟨3⟩

/-- Covers the parameters and the signature of the client. -/
def vouchingParams : HttpSignatureParams :=
  .ofComponents [memberId signatureInputHeader "sig".toList, memberId signatureHeader "sig".toList]

def vouchingBase : HttpSignatureBase where
  componentLines := [⟨memberId signatureInputHeader "sig".toList, .string "(\"@method\")".toList⟩,
    ⟨memberId signatureHeader "sig".toList, .string ":Ag==:".toList⟩]
  signatureParams := vouchingParams
  length_eq := rfl
  ids_match := by decide

def vouchedRequest : Message Unit Unit :=
  (signedRequest.setMessageSignatures (entriesOf (partyKey .proxy) [(vouchingParams, some "proxy".toList)])).1

def vouchedSignatures : SignatureMap := .ofList [
  ("sig".toList, (Message.methodBase, ⟨"sig".toList, [2], Message.methodParams⟩)),
  ("proxy".toList, (vouchingBase, ⟨"proxy".toList, [3], vouchingParams⟩))]

theorem vouchedRequest_signatures : vouchedRequest.extractSignatures = .ok vouchedSignatures := by
  decide

theorem emittedBases_signedRequest :
    emittedBases signedRequest (entriesOf (partyKey .proxy) [(vouchingParams, some "proxy".toList)]) = [vouchingBase] := by
  decide

def clientEvent : NetworkEvent Party Unit Unit := .sign .client Message.unsignedRequest [(Message.methodParams, none)]

def proxyEvent : NetworkEvent Party Unit Unit := .sign .proxy signedRequest [(vouchingParams, some "proxy".toList)]

def vouchedEmitted : List (Party × HttpSignatureBase) := [(.client, Message.methodBase), (.proxy, vouchingBase)]

theorem vouchedRequest_unforged : Unforged partyKey ⟨vouchedEmitted, 7⟩ vouchedRequest := by
  intro map hm e he a hok
  rw [vouchedRequest_signatures] at hm
  cases hm
  have he : e ∈ [("sig".toList, (Message.methodBase, (⟨"sig".toList, [2], Message.methodParams⟩ : HttpSignatureHeaders))),
      ("proxy".toList, (vouchingBase, ⟨"proxy".toList, [3], vouchingParams⟩))] := he
  rcases List.mem_pair.mp he with rfl | rfl
  · cases a with
    | client => exact ⟨Message.methodBase, List.mem_cons_self .., rfl⟩
    | proxy => exact absurd hok (by decide)
  · cases a with
    | client => exact absurd hok (by decide)
    | proxy => exact ⟨vouchingBase, List.mem_cons_of_mem _ (List.mem_singleton_self _), rfl⟩

theorem vouchedRequest_run : (network partyKey partyKey).Run ⟨[], 7⟩
    [clientEvent, proxyEvent, .receive vouchedRequest [(.proxy, none)] [.ok "proxy".toList]] ⟨vouchedEmitted, 7⟩ := by
  have hclient : NetworkStep partyKey partyKey ⟨[], 7⟩ clientEvent
      ⟨(emittedBases Message.unsignedRequest (entriesOf (partyKey .client) [(Message.methodParams, none)])).map
        (Prod.mk Party.client), 7⟩ := .sign Party.client Message.unsignedRequest [(Message.methodParams, none)]
  have hemitted : emittedBases Message.unsignedRequest (entriesOf (partyKey .client) [(Message.methodParams, none)]) =
      [Message.methodBase] := by decide
  rw [hemitted] at hclient
  have hproxy : NetworkStep partyKey partyKey ⟨[(.client, Message.methodBase)], 7⟩ proxyEvent
      ⟨[(.client, Message.methodBase)] ++ (emittedBases signedRequest
        (entriesOf (partyKey .proxy) [(vouchingParams, some "proxy".toList)])).map (Prod.mk Party.proxy), 7⟩ :=
    .sign Party.proxy signedRequest [(vouchingParams, some "proxy".toList)]
  rw [emittedBases_signedRequest] at hproxy
  exact .cons hclient (.cons hproxy (.single (.receive vouchedRequest_unforged (by decide))))

theorem vouchedRequest_held : ∃ m₀ list, .sign .proxy m₀ list ∈ [clientEvent, proxyEvent] ∧
    SameMembers vouchedRequest.headers m₀.headers "sig".toList ∧
    ∀ map₀, extractSignatureHeadersWithName m₀.message = .ok map₀ →
      map₀.get? "sig".toList = some ⟨"sig".toList, [2], Message.methodParams⟩ := by
  have hheaders : extractSignatureHeadersWithName vouchedRequest.message = .ok (.ofList [
      ("sig".toList, ⟨"sig".toList, [2], Message.methodParams⟩), ("proxy".toList, ⟨"proxy".toList, [3], vouchingParams⟩)]) := by
    decide
  have hentry : vouchedSignatures.get? "proxy".toList = some (vouchingBase, ⟨"proxy".toList, [3], vouchingParams⟩) := by
    decide
  have hheld : (IndexMap.ofList [("sig".toList, (⟨"sig".toList, [2], Message.methodParams⟩ : HttpSignatureHeaders)),
      ("proxy".toList, ⟨"proxy".toList, [3], vouchingParams⟩)]).get? "sig".toList =
        some ⟨"sig".toList, [2], Message.methodParams⟩ := by decide
  have hrun : (network partyKey partyKey).Run ⟨[], 7⟩
      ([clientEvent, proxyEvent] ++ .receive vouchedRequest [(.proxy, none)] [.ok "proxy".toList] :: []) ⟨vouchedEmitted, 7⟩ :=
    vouchedRequest_run
  exact held_of_accepted (k := ⟨"sig".toList, by decide⟩) hrun rfl (List.mem_singleton_self _) vouchedRequest_signatures
    hentry (List.mem_cons_self ..) (List.mem_cons_of_mem _ (List.mem_singleton_self _)) hheaders hheld

end HttpSig
