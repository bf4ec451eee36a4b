import HttpSig.Theorems.Members
import HttpSig.Theorems.Verification

/-! When reading or verifying the signatures of a message panics: a covered name that starts like a derived
component and is none, a time before the epoch, and a signature of a length its curve does not have. -/

namespace HttpSig
open Rust Sfv Http

/-! ### Items -/

namespace HttpMessageComponentId

/-- An item whose name panics: an unknown derived name, or a date, which reads as one when no parameter of it
has a quote. -/
def isStray (i : Item) : Bool :=
  match i.bareItem with
  | .string s => HttpMessageComponentName.isUnknownDerived s.text
  | .date _ => '"' ∉ serializeItem i
  | _ => false

/-- Only a date serializes with an at sign in front. -/
theorem date_of_startsWith {i : Item} (h : startsWith (serializeItem i) '@' = true) : ∃ n, i.bareItem = .date n := by
  obtain ⟨c, s, hc, -⟩ := serializeBareItem_head i.bareItem
  rw [serializeItem, hc, List.cons_append, startsWith, List.head?_cons, beq_iff_eq, Option.some.injEq] at h
  subst h
  have number : ∀ {t : Text}, (∀ c ∈ (t ++ []).head?, (c == '-' || c.isDigit) = true) → t = '@' :: s → False := by
    rintro t ht rfl
    have := ht '@' rfl
    revert this
    decide
  cases hb : i.bareItem with
  | integer n =>
    rw [hb] at hc
    exact (number intText_head hc).elim
  | decimal d =>
    rw [hb] at hc
    exact (number serializeDecimal_head hc).elim
  | token t =>
    rw [hb] at hc
    have ht := t.valid
    rw [show t.text = '@' :: s from hc, isToken, Bool.and_eq_true] at ht
    exact absurd ht.1 (by decide)
  | date n => exact ⟨n, rfl⟩
  | _ =>
    rw [hb] at hc
    cases hc

theorem isUnknownDerived_date {i : Item} {n : Integer} (h : i.bareItem = .date n) :
    HttpMessageComponentName.isUnknownDerived (serializeItem i) = true := by
  have hser : serializeItem i = '@' :: (intText n.val ++ serializeParameters i.params) := by
    rw [serializeItem, h]
    rfl
  rw [HttpMessageComponentName.isUnknownDerived_iff, hser]
  refine ⟨rfl, fun m hm => ?_⟩
  -- A date goes on with a digit or a sign, a derived name with a letter.
  have hd := intText_head (i := n.val) (t := serializeParameters i.params)
  have htail : intText n.val ++ serializeParameters i.params = m.asStr.tail := by rw [← hm]; rfl
  rw [htail] at hd
  cases m <;> exact absurd (hd _ rfl) (by decide)

/-- Reading the id of an item panics exactly for a stray name. -/
theorem tryFrom_eq_panic {i : Item} : tryFrom (serializeItem i) = .panic ↔ isStray i = true := by
  rw [tryFrom_serializeItem, readItem_eq_panic]
  cases hb : i.bareItem with
  | string s =>
    rw [asRead_string hb, hb, isStray, hb]
    simp
  | date n =>
    rw [isStray, hb, decide_eq_true_eq]
    by_cases hq : '"' ∈ serializeItem i
    · rw [asRead, if_pos hq, hb]
      simp [hq]
    · rw [asRead, if_neg hq, iff_true_right hq]
      exact ⟨_, rfl, isUnknownDerived_date hb⟩
  | _ =>
    rw [isStray, hb]
    simp only [Bool.false_eq_true, iff_false, not_exists, not_and]
    intro s hs hu
    by_cases hq : '"' ∈ serializeItem i
    · rw [asRead, if_pos hq, hb] at hs
      cases hs
    · rw [asRead, if_neg hq] at hs
      cases hs
      obtain ⟨n, hn⟩ := date_of_startsWith (HttpMessageComponentName.isUnknownDerived_iff.mp hu).1
      rw [hb] at hn
      cases hn

end HttpMessageComponentId

/-! ### Items that read as ids -/

theorem HttpMessageComponentParam.isName_eq (p : HttpMessageComponentParam) : p.isName = decide (p.keyText = "name".toList) := by
  cases p <;> rfl

/-- The keys that derived components do not take. -/
def fieldOnlyKeys : List Text := ["sf".toList, "key".toList, "bs".toList, "tr".toList]

theorem HttpMessageComponentParam.isFieldOnly_eq (p : HttpMessageComponentParam) :
    p.isFieldOnly = fieldOnlyKeys.contains p.keyText := by
  cases p <;> rfl

namespace HttpMessageComponentId

/-- An item that reads as an id: a string that is a field name or a known derived one, with known parameters
that go with it; or anything but a string and a date, when its serialization has no quote. -/
def isReadable (i : Item) : Bool :=
  match i.bareItem with
  | .string s =>
    !HttpMessageComponentName.isUnknownDerived s.text &&
    (i.params.entries.all fun e => HttpMessageComponentParam.isKnown e.1.text e.2) &&
    (!(i.params.entries.map fun e => e.1.text).any (· = "name".toList) || s.text = DerivedComponentName.queryParam.asStr) &&
    (!(i.params.entries.map fun e => e.1.text).any fieldOnlyKeys.contains || !startsWith s.text '@')
  | .date _ => false
  | _ => '"' ∉ serializeItem i

theorem exists_name {s : SfString} (h : HttpMessageComponentName.isUnknownDerived s.text = false) :
    ∃ n, HttpMessageComponentName.tryFrom (.string s) = .ok n := by
  cases hn : HttpMessageComponentName.tryFrom (.string s) with
  | ok n => exact ⟨n, rfl⟩
  | err e =>
    rw [HttpMessageComponentName.tryFrom_string] at hn
    split at hn
    · cases hd : DerivedComponentName.fromText s.text with
      | err e => exact absurd hd (DerivedComponentName.fromText_ne_err e)
      | _ =>
        rw [hd] at hn
        cases hn
    · cases hn
  | panic =>
    obtain ⟨t, ht, hu⟩ := HttpMessageComponentName.tryFrom_eq_panic.mp hn
    cases ht
    rw [h] at hu
    cases hu

theorem exists_params {ps : Parameters} (h : ∀ e ∈ ps.entries, HttpMessageComponentParam.isKnown e.1.text e.2 = true) :
    ∃ s, HttpMessageComponentParams.tryFrom ps = .ok s := by
  obtain ⟨l, hl⟩ := Outcome.exists_mapM_eq_ok fun e he => HttpMessageComponentParam.isKnown_iff.mp (h e he)
  exact ⟨_, by rw [HttpMessageComponentParams.tryFrom, hl, Outcome.ok_bind]⟩

/-- The checks on an id, in the words of the item it is read from. -/
theorem valid_iff {i : Item} {s : SfString} {id : HttpMessageComponentId} (hb : i.bareItem = .string s)
    (hn : HttpMessageComponentName.tryFrom i.bareItem = .ok id.name)
    (hp : HttpMessageComponentParams.tryFrom i.params = .ok id.params) : id.Valid ↔
      ((i.params.entries.map fun e => e.1.text).any (· = "name".toList) = true → s.text = DerivedComponentName.queryParam.asStr) ∧
      ((i.params.entries.map fun e => e.1.text).any fieldOnlyKeys.contains = true → startsWith s.text '@' = false) := by
  obtain ⟨hwf, s', hs', hinner⟩ := HttpMessageComponentName.tryFrom_eq_ok.mp hn
  rw [hb] at hs'
  cases hs'
  have hkeys : (i.params.entries.map fun e => e.1.text) = id.params.items.map HttpMessageComponentParam.keyText := by
    rw [← List.forall₂_eq_eq_eq, List.forall₂_map_left_iff, List.forall₂_map_right_iff]
    exact (HttpMessageComponentParams.tryFrom_eq_ok.mp hp).imp fun _ _ h =>
      (HttpMessageComponentParam.tryFrom_eq_ok.mp h).1.symm
  have hquery : id.name = .derived .queryParam ↔ s.text = DerivedComponentName.queryParam.asStr := by
    rw [← hinner]
    exact ⟨fun h => by rw [h]; rfl, fun h => HttpMessageComponentName.inner_inj hwf trivial h⟩
  have hderived : id.name.isDerived = startsWith s.text '@' := by
    rw [← hinner]
    cases hname : id.name with
    | httpField a =>
      rw [hname] at hwf
      exact hwf.symm
    | derived d => exact d.startsWith_asStr.symm
  rw [Valid, hquery, hderived, hkeys, List.any_map, List.any_map]
  simp only [HttpMessageComponentParam.isName_eq, HttpMessageComponentParam.isFieldOnly_eq, Function.comp_def]

/-- A string is readable when its name is known and its parameters pass the checks. -/
theorem isReadable_string_iff {i : Item} {s : SfString} (hb : i.bareItem = .string s) :
    isReadable i = true ↔ ∃ id, readItem (asRead i) = .ok id := by
  rw [asRead_string hb, isReadable, hb]
  simp only [Bool.and_eq_true, Bool.or_eq_true, Bool.not_eq_true', List.all_eq_true, decide_eq_true_eq, and_assoc]
  constructor
  · rintro ⟨hu, hk, hname, hfield⟩
    obtain ⟨n, hn⟩ := exists_name hu
    obtain ⟨ps, hps⟩ := exists_params hk
    rw [← hb] at hn
    refine ⟨⟨n, ps⟩, readItem_eq_ok.mpr ⟨hn, hps, (valid_iff hb hn hps).mpr ⟨fun h => ?_, fun h => ?_⟩⟩⟩
    · exact hname.resolve_left (by rw [h]; simp)
    · exact hfield.resolve_left (by rw [h]; simp)
  · rintro ⟨id, h⟩
    obtain ⟨hn, hps, hv⟩ := readItem_eq_ok.mp h
    obtain ⟨hname, hfield⟩ := (valid_iff hb hn hps).mp hv
    refine ⟨?_, fun e he => ?_, ?_, ?_⟩
    · rw [← Bool.not_eq_true]
      intro hu
      rw [HttpMessageComponentName.tryFrom_eq_panic.mpr ⟨s, hb, hu⟩] at hn
      cases hn
    · obtain ⟨p, -, hp⟩ := Outcome.exists_of_mem_right (HttpMessageComponentParams.tryFrom_eq_ok.mp hps).flip he
      exact HttpMessageComponentParam.isKnown_iff.mpr ⟨p, hp⟩
    · rw [← Bool.not_eq_true]
      exact Decidable.not_or_of_imp hname
    · rw [← Bool.not_eq_true]
      exact Decidable.not_or_of_imp hfield

/-- With a quote in its text an item is read as it is, and only a string has a name. -/
theorem exists_string_of_readItem {i : Item} {id : HttpMessageComponentId} (hq : '"' ∈ serializeItem i)
    (h : readItem (asRead i) = .ok id) : ∃ s, i.bareItem = .string s := by
  rw [asRead, if_pos hq] at h
  obtain ⟨-, s, hs, -⟩ := HttpMessageComponentName.tryFrom_eq_ok.mp (readItem_eq_ok.mp h).1
  exact ⟨s, hs⟩

/-- Without a quote the text is the name, and a date starts like a derived one. -/
theorem readItem_date_ne_ok {i : Item} {n : Integer} (hb : i.bareItem = .date n) (id : HttpMessageComponentId) :
    readItem (asRead i) ≠ .ok id := by
  intro h
  by_cases hq : '"' ∈ serializeItem i
  · obtain ⟨s, hs⟩ := exists_string_of_readItem hq h
    rw [hb] at hs
    cases hs
  · have hpanic : readItem (asRead i) = .panic := by
      rw [asRead, if_neg hq, readItem_eq_panic]
      exact ⟨_, rfl, isUnknownDerived_date hb⟩
    rw [hpanic] at h
    cases h

/-- Any other item without a quote reads as the header field that its text names. -/
theorem readItem_field {i : Item} (hq : '"' ∉ serializeItem i) (hdate : ∀ n, i.bareItem ≠ .date n) :
    readItem (asRead i) = .ok ⟨.httpField (serializeItem i), ∅⟩ := by
  have hat : startsWith (serializeItem i) '@' = false := by
    rw [← Bool.not_eq_true]
    intro h
    obtain ⟨n, hn⟩ := date_of_startsWith h
    exact hdate n hn
  rw [asRead, if_neg hq, readItem_eq_ok]
  refine ⟨HttpMessageComponentName.tryFrom_eq_ok.mpr ⟨hat, _, rfl, rfl⟩, rfl, ?_⟩
  exact ⟨fun h => absurd h Bool.false_ne_true, fun h => absurd h Bool.false_ne_true⟩

/-- An item reads as an id exactly when it is readable. -/
theorem isReadable_iff {i : Item} : isReadable i = true ↔ ∃ id, tryFrom (serializeItem i) = .ok id := by
  rw [tryFrom_serializeItem]
  cases hb : i.bareItem with
  | string s => exact isReadable_string_iff hb
  | date n =>
    rw [isReadable, hb]
    simp only [Bool.false_eq_true, false_iff, not_exists]
    exact readItem_date_ne_ok hb
  | _ =>
    rw [isReadable, hb]
    simp only [decide_eq_true_eq]
    refine ⟨fun hq => ⟨_, readItem_field hq (by rw [hb]; rintro n ⟨⟩)⟩, ?_⟩
    rintro ⟨id, h⟩ hq
    obtain ⟨s, hs⟩ := exists_string_of_readItem hq h
    rw [hb] at hs
    cases hs

end HttpMessageComponentId

/-! ### Members -/

namespace HttpSignatureParams

/-- The ids of the items, each read by its own text. -/
def ReadsTexts (items : List Item) (ids : List HttpMessageComponentId) : Prop :=
  List.Forall₂ (fun i id => HttpMessageComponentId.tryFrom (serializeItem i) = .ok id) items ids

theorem readsTexts_iff {items : List Item} {ids : List HttpMessageComponentId} :
    ReadsTexts items ids ↔ ReadsIds items ids := by
  rw [ReadsTexts, ← Outcome.mapM_eq_ok, mapM_tryFrom_eq_ok]

/-- A member that converts. -/
def Accepted (l : InnerList) : Prop :=
  ∃ ids, ReadsTexts l.items ids ∧ hasUniqueElements ids = true ∧ l.params.entries.any isNegative = false

/-- A member whose conversion panics: by a stray name after items that are read, or by a time before the
epoch once all its ids are read and differ. -/
def Panics (l : InnerList) : Prop :=
  (∃ l₁ i l₂, l.items = l₁ ++ i :: l₂ ∧ (∀ j ∈ l₁, HttpMessageComponentId.isReadable j = true) ∧
    HttpMessageComponentId.isStray i = true) ∨
  ∃ ids, ReadsTexts l.items ids ∧ hasUniqueElements ids = true ∧ l.params.entries.any isNegative = true

theorem accepted_iff {l : InnerList} : Accepted l ↔ ∃ p, tryFrom (.innerList l) = .ok p := by
  simp only [Accepted, readsTexts_iff, tryFrom_innerList_eq_ok]
  constructor
  · rintro ⟨ids, hids, hu, hn⟩
    exact ⟨_, ids, hids, hu, hn, rfl⟩
  · rintro ⟨p, ids, hids, hu, hn, -⟩
    exact ⟨ids, hids, hu, hn⟩

theorem panics_iff {l : InnerList} : Panics l ↔ tryFrom (.innerList l) = .panic := by
  rw [tryFrom_innerList_eq_panic, Panics]
  simp only [readsTexts_iff, HttpMessageComponentId.isReadable_iff, ← HttpMessageComponentId.tryFrom_serializeItem,
    HttpMessageComponentId.tryFrom_eq_panic]

end HttpSignatureParams

/-! ### Messages -/

/-- Signature headers whose first member that is not accepted panics. -/
def HeadersPanic (headers : HeaderMap) : Prop :=
  ∃ input signature, SignatureFields headers input signature ∧ ∃ l₁ k l l₂,
    input.entries = l₁ ++ (k, .innerList l) :: l₂ ∧
    (∀ x ∈ l₁, ∃ l', x.2 = .innerList l' ∧ HttpSignatureParams.Accepted l') ∧ HttpSignatureParams.Panics l

/-- Every member of a pair is an inner list. -/
theorem Paired.exists_innerList {input signature : Dictionary} (h : Paired input signature) {e : Key × ListEntry}
    (he : e ∈ input.entries) : ∃ l, e.2 = .innerList l := by
  have hl := h.innerList e.2 (List.mem_map.mpr ⟨e, he, rfl⟩)
  cases hv : e.2 with
  | innerList l => exact ⟨l, rfl⟩
  | item i =>
    rw [hv] at hl
    cases hl

theorem headersPanic_iff {β : Type} {msg : RequestOrResponse β} :
    HeadersPanic msg.headers ↔ extractSignatureHeadersWithName msg = .panic := by
  rw [extractSignatureHeadersWithName_eq_panic, HeadersPanic]
  refine exists_congr fun input => exists_congr fun signature => and_congr_right fun hf => ?_
  constructor
  · rintro ⟨l₁, k, l, l₂, hl, hacc, hp⟩
    refine ⟨l₁, (k, .innerList l), l₂, hl, fun x hx => ?_, HttpSignatureParams.panics_iff.mp hp⟩
    obtain ⟨l', hx', ha⟩ := hacc x hx
    rw [hx']
    exact HttpSignatureParams.accepted_iff.mp ha
  · rintro ⟨l₁, ⟨k, v⟩, l₂, hl, hacc, hp⟩
    obtain ⟨l, rfl⟩ := hf.paired.exists_innerList (e := (k, v)) (hl ▸ by simp)
    refine ⟨l₁, k, l, l₂, hl, fun x hx => ?_, HttpSignatureParams.panics_iff.mpr hp⟩
    obtain ⟨l', hx'⟩ := hf.paired.exists_innerList (e := x) (hl ▸ by simp [hx])
    refine ⟨l', hx', HttpSignatureParams.accepted_iff.mpr ?_⟩
    rw [← hx']
    exact hacc x hx

theorem readable_iff {input signature : Dictionary} (h : Paired input signature) : Readable input ↔
    ∀ x ∈ input.entries, ∃ l, x.2 = .innerList l ∧ HttpSignatureParams.Accepted l := by
  refine forall₂_congr fun x hx => ?_
  obtain ⟨l, hl⟩ := h.exists_innerList hx
  simp only [hl, HttpSignatureParams.accepted_iff, ListEntry.innerList.injEq, exists_eq_left']

namespace Message
section
variable {β γ : Type}

theorem extractSignatures_eq_panic {m : Message β γ} : m.extractSignatures = .panic ↔ HeadersPanic m.headers := by
  rw [extractSignatures_eq, extractSignaturesInner_eq_panic, ← headersPanic_iff]
  rfl

variable [Primitives]

/-- A label that a key is asked about and whose signature has a length the key's curve does not have. -/
def WrongLength (m : Message β γ) (key : PublicKey) (keyId : Option Text) (now : UInt64) : Prop :=
  ∃ input signature k l p bytes ps, SignatureFields m.headers input signature ∧
    (∀ x ∈ input.entries, ∃ l', x.2 = .innerList l' ∧ HttpSignatureParams.Accepted l') ∧ (k, .innerList l) ∈ input.entries ∧
    HttpSignatureParams.tryFrom (.innerList l) = .ok p ∧ (m.signatureBase p).isOk = true ∧
    signature.get? k = some (.item ⟨.byteSequence bytes, ps⟩) ∧ (∀ i ∈ keyId, p.keyid = some i) ∧
    (∀ t ∈ p.expires, now ≤ t) ∧ ∃ n ∈ key.requiredLength, bytes.length ≠ n

theorem verifySignatureHeaders_eq_panic {base : HttpSignatureBase} {key : PublicKey} {h : HttpSignatureHeaders}
    {now : UInt64} : base.verifySignatureHeaders key h now = .panic ↔
      (∀ t ∈ h.signatureParams.expires, now ≤ t) ∧ ∃ n ∈ key.requiredLength, h.signature.length ≠ n := by
  rw [HttpSignatureBase.verifySignatureHeaders, ← HttpSignatureParams.isExpired_eq_false]
  cases h.signatureParams.isExpired now
  · rw [if_neg Bool.false_ne_true, and_iff_right rfl]
    exact PublicKey.verify_eq_panic key base.asBytes h.signature
  · simp

theorem verifySignatureHeaders_shared_ne_panic {base : HttpSignatureBase} {key : SharedKey} {h : HttpSignatureHeaders}
    {now : UInt64} : base.verifySignatureHeaders key h now ≠ .panic := by
  rw [HttpSignatureBase.verifySignatureHeaders]
  split
  · exact Outcome.err_ne_panic _
  · exact SharedKey.verify_ne_panic key base.asBytes h.signature

theorem wrongLength_iff {m : Message β γ} {key : PublicKey} {keyId : Option Text} {now : UInt64} :
    m.WrongLength key keyId now ↔ ∃ map, m.extractSignatures = .ok map ∧ ∃ e ∈ map.entries,
      hasKeyId keyId e.2.1 = true ∧ e.2.1.verifySignatureHeaders key e.2.2 now = .panic := by
  simp only [extractSignatures_eq, verifySignatureHeaders_eq_panic, hasKeyId_iff]
  constructor
  · rintro ⟨input, signature, k, l, p, bytes, ps, hf, hacc, hmem, hread, hbase, hget, hkid, hexp, hlen⟩
    obtain ⟨base, hbase⟩ := Outcome.isOk_iff.mp hbase
    obtain ⟨map, hm, he⟩ := extractSignaturesInner_of_readable m.reqForParam hf
      ((readable_iff hf.paired).mpr hacc)
    have hbytes : signatureBytes signature k = bytes := by rw [signatureBytes, hget]
    have hparams : base.signatureParams = p := (buildSignatureBase_eq_ok.mp hbase).2
    refine ⟨map, hm, (k.text, (base, ⟨k.text, bytes, p⟩)), ?_, ?_, hexp, hlen⟩
    · rw [he, List.mem_filterMap]
      exact ⟨_, hmem, extractedEntry_eq_some.mpr ⟨p, base, hread, hbase, by rw [hbytes]⟩⟩
    · rwa [HttpSignatureBase.keyid, hparams]
  · rintro ⟨map, hm, e, he, hkid, hexp, hlen⟩
    obtain ⟨input, signature, hf, hr, hmap⟩ := extractSignaturesInner_eq_ok.mp hm
    rw [hmap, List.mem_filterMap] at he
    obtain ⟨⟨k, v⟩, hmem, hex⟩ := he
    obtain ⟨p, base, hread, hbase, rfl⟩ := extractedEntry_eq_some.mp hex
    obtain ⟨l, rfl⟩ := hf.paired.exists_innerList hmem
    obtain ⟨bytes, ps, hget⟩ := hf.paired.exists_byteSequence (List.mem_map.mpr ⟨_, hmem, rfl⟩)
    have hbytes : signatureBytes signature k = bytes := by rw [signatureBytes, hget]
    have hparams : base.signatureParams = p := (buildSignatureBase_eq_ok.mp hbase).2
    rw [HttpSignatureBase.keyid, hparams] at hkid
    rw [hbytes] at hlen
    exact ⟨input, signature, k, l, p, bytes, ps, hf, (readable_iff hf.paired).mp hr, hmem, hread,
      Outcome.isOk_iff.mpr ⟨base, hbase⟩, hget, hkid, hexp, hlen⟩

theorem verify_shared_eq_panic {m : Message β γ} {keyAndId : List (SharedKey × Option Text)} {now : UInt64} :
    m.verifyMessageSignatures keyAndId now = .panic ↔ HeadersPanic m.headers := by
  rw [verifyMessageSignatures_eq_panic, extractSignatures_eq_panic, or_iff_left]
  rintro ⟨map, -, k, -, e, -, -, h⟩
  exact verifySignatureHeaders_shared_ne_panic h

theorem verify_public_eq_panic {m : Message β γ} {keyAndId : List (PublicKey × Option Text)} {now : UInt64} :
    m.verifyMessageSignatures keyAndId now = .panic ↔
      HeadersPanic m.headers ∨ ∃ k ∈ keyAndId, m.WrongLength k.1 k.2 now := by
  rw [verifyMessageSignatures_eq_panic, extractSignatures_eq_panic]
  refine or_congr_right ?_
  simp only [wrongLength_iff]
  constructor
  · rintro ⟨map, hm, k, hk, h⟩
    exact ⟨k, hk, map, hm, h⟩
  · rintro ⟨k, hk, map, hm, h⟩
    exact ⟨map, hm, k, hk, h⟩

/-- The calls that read signatures panic for such headers and, with an elliptic curve key, for a signature of
the wrong length; and for nothing else. -/
theorem calls_ne_panic_iff (m : Message β γ) (now : UInt64) :
    (∀ rsaSignature, m.getAlgKeyIds rsaSignature ≠ .panic ↔ ¬ HeadersPanic m.headers) ∧
    (m.getSignatureParams ≠ .panic ↔ ¬ HeadersPanic m.headers) ∧
    (m.extractSignatures ≠ .panic ↔ ¬ HeadersPanic m.headers) ∧
    (∀ keyAndId : List (SharedKey × Option Text),
      m.verifyMessageSignatures keyAndId now ≠ .panic ↔ ¬ HeadersPanic m.headers) ∧
    (∀ (key : SharedKey) (keyId : Option Text),
      m.verifyMessageSignature key keyId now ≠ .panic ↔ ¬ HeadersPanic m.headers) ∧
    (∀ keyAndId : List (PublicKey × Option Text), m.verifyMessageSignatures keyAndId now ≠ .panic ↔
      ¬ HeadersPanic m.headers ∧ ∀ k ∈ keyAndId, ¬ m.WrongLength k.1 k.2 now) ∧
    (∀ (key : PublicKey) (keyId : Option Text), m.verifyMessageSignature key keyId now ≠ .panic ↔
      ¬ HeadersPanic m.headers ∧ ¬ m.WrongLength key keyId now) := by
  have halg : ∀ rsaSignature, m.getAlgKeyIds rsaSignature = .panic ↔ HeadersPanic m.headers := by
    intro rsaSignature
    rw [getAlgKeyIds_eq, getAlgKeyIdsInner_eq_panic, ← headersPanic_iff]
    rfl
  have hparams : m.getSignatureParams = .panic ↔ HeadersPanic m.headers := by
    rw [getSignatureParams_eq, getSignatureParamsInner_eq_panic, ← headersPanic_iff]
    rfl
  refine ⟨fun rsaSignature => not_congr (halg rsaSignature), not_congr hparams, not_congr extractSignatures_eq_panic,
    fun _ => not_congr verify_shared_eq_panic, fun key keyId => ?_, fun keyAndId => ?_, fun key keyId => ?_⟩
  · rw [Ne, verifyMessageSignature_eq_panic, verify_shared_eq_panic]
  · rw [Ne, verify_public_eq_panic]
    simp
  · rw [Ne, verifyMessageSignature_eq_panic, verify_public_eq_panic]
    simp

end

/-! ### Headers that panic -/

open scoped ByteKey

/-- A derived name that nobody defined. -/
def strayName : Message Unit Unit := .request (getRequest [
  (signatureInputHeader, "sig1=(\"@foo\")".toList), (signatureHeader, "sig1=:AA==:".toList)])

/-- A creation time before the epoch. -/
def negativeTime : Message Unit Unit := .request (getRequest [
  (signatureInputHeader, "sig1=();created=-1".toList), (signatureHeader, "sig1=:AA==:".toList)])

theorem strayName_panics : strayName.getAlgKeyIds false = .panic ∧ strayName.getSignatureParams = .panic ∧
    strayName.extractSignatures = .panic ∧ negativeTime.getAlgKeyIds false = .panic ∧
    negativeTime.verifyMessageSignature (ByteKey.mk 0) none 0 = .panic := by
  decide +kernel

end Message
end HttpSig
