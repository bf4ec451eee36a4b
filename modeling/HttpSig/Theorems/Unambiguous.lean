import HttpSig.Theorems.Quoteless
import HttpSig.Theorems.Rereading

/-! Whether the printed parameters tell what was signed. Without a quote inside any string they do; a string
with a quote prints like two. -/

namespace HttpSig
open Rust Sfv

/-! ### Lists of ids -/

theorem head_toText (id : HttpMessageComponentId) : ∃ s, id.toText = '"' :: s := ⟨_, id.toText_eq⟩

/-- What follows an id in the list of ids. -/
def afterId (as : List HttpMessageComponentId) (r : Text) : Text :=
  match as with
  | [] => ')' :: r
  | as => ' ' :: (join [' '] (as.map HttpMessageComponentId.toText) ++ ')' :: r)

theorem join_toText_cons (a : HttpMessageComponentId) (as : List HttpMessageComponentId) (r : Text) :
    join [' '] ((a :: as).map HttpMessageComponentId.toText) ++ ')' :: r = a.toText ++ afterId as r := by
  cases as with
  | nil => simp [afterId]
  | cons b as => simp [afterId]

theorem edge_afterId (as : List HttpMessageComponentId) (r : Text) : Edge (afterId as r) := by
  cases as with
  | nil => exact ⟨_, _, rfl, Or.inr rfl⟩
  | cons b as => exact ⟨_, _, rfl, Or.inl rfl⟩

theorem ids_unique {r r' : Text} : ∀ {as bs : List HttpMessageComponentId}, (∀ a ∈ as, a.Quoteless) → (∀ b ∈ bs, b.Quoteless) →
    join [' '] (as.map HttpMessageComponentId.toText) ++ ')' :: r =
      join [' '] (bs.map HttpMessageComponentId.toText) ++ ')' :: r' → as = bs ∧ r = r'
  | [], [], _, _, h => ⟨rfl, by simpa using h⟩
  | [], b :: bs, _, _, h => by
    obtain ⟨s, hs⟩ := head_toText b
    rw [join_toText_cons, hs] at h
    cases h
  | a :: as, [], _, _, h => by
    obtain ⟨s, hs⟩ := head_toText a
    rw [join_toText_cons, hs] at h
    cases h
  | a :: as, b :: bs, ha, hb, h => by
    obtain ⟨ha, has⟩ := List.forall_mem_cons.mp ha
    obtain ⟨hb, hbs⟩ := List.forall_mem_cons.mp hb
    rw [join_toText_cons, join_toText_cons] at h
    obtain ⟨rfl, hafter⟩ := ha.unique hb (edge_afterId as r) (edge_afterId bs r') h
    have rest : as = bs ∧ r = r' := by
      cases as with
      | nil =>
        cases bs with
        | nil => exact ⟨rfl, by simpa [afterId] using hafter⟩
        | cons b bs => cases hafter
      | cons c as =>
        cases bs with
        | nil => cases hafter
        | cons d bs => exact ids_unique has hbs (by simpa only [afterId, List.cons.injEq, true_and] using hafter)
    exact ⟨by rw [rest.1], rest.2⟩

namespace HttpSignatureParams

/-! ### Signature parameters without quotes -/

/-- No string of the parameters, nor of the ids they cover, has a quote in it. -/
structure NoQuote (p : HttpSignatureParams) : Prop where
  ids : ∀ id ∈ p.coveredComponents, id.NoQuote
  nonce : ∀ t ∈ p.nonce, '"' ∉ t
  alg : ∀ t ∈ p.alg, '"' ∉ t
  keyid : ∀ t ∈ p.keyid, '"' ∉ t
  tag : ∀ t ∈ p.tag, '"' ∉ t

/-- The value printed under a key. -/
def printedValue (l : List (Key × BareItem)) (k : Text) : Option Text := (entryValue l k).bind (valueText k)

theorem printedText_eq (l : List (Key × BareItem)) (ks : List Text) :
    printedText l ks = ks.flatMap fun k => paramText k (printedValue l k) := rfl

/-- What follows a value: a parameter of a later key, or nothing. -/
theorem printedText_cases (l : List (Key × BareItem)) : ∀ ks : List Text,
    printedText l ks = [] ∨ ∃ k ∈ ks, ∃ s, printedText l ks = ';' :: (k ++ '=' :: s)
  | [] => Or.inl rfl
  | k :: ks => by
    rw [printedText_eq, List.flatMap_cons, ← printedText_eq]
    cases printedValue l k with
    | none =>
      rcases printedText_cases l ks with h | ⟨k', hk', s, h⟩
      · exact Or.inl h
      · exact Or.inr ⟨k', List.mem_cons_of_mem _ hk', s, h⟩
    | some t => exact Or.inr ⟨k, List.mem_cons_self .., t ++ printedText l ks, by simp [paramText]⟩

theorem printedText_head (l : List (Key × BareItem)) (ks : List Text) : ∀ c ∈ (printedText l ks).head?, c = ';' := by
  intro c hc
  rcases printedText_cases l ks with h | ⟨k, -, s, h⟩
  · rw [h] at hc
    cases hc
  · rw [h] at hc
    simpa [eq_comm] using hc

theorem printedText_ne {l : List (Key × BareItem)} {k : Text} {ks : List Text} (hk : k ∉ ks)
    (hkc : ∀ c ∈ k, isKeyChar c = true) (hkcs : ∀ k ∈ ks, ∀ c ∈ k, isKeyChar c = true) (s : Text) :
    printedText l ks ≠ ';' :: (k ++ '=' :: s) := by
  intro h
  rcases printedText_cases l ks with h' | ⟨k', hk', s', h'⟩
  · rw [h'] at h
    cases h
  · rw [h', List.cons.injEq] at h
    obtain ⟨rfl, -⟩ := key_align (hkcs k' hk') hkc (head_equals _) (head_equals _) h.2
    exact hk hk'

/-- Values without a quote end where they end: a number before what is no digit, a string at its quote. -/
theorem value_unique {l₁ l₂ : List (Key × BareItem)} {k a b r₁ r₂ : Text}
    (q₁ : isTimeKey k = false → ∀ t ∈ (entryValue l₁ k).bind asText, '"' ∉ t)
    (q₂ : isTimeKey k = false → ∀ t ∈ (entryValue l₂ k).bind asText, '"' ∉ t)
    (ha : printedValue l₁ k = some a) (hb : printedValue l₂ k = some b) (hr₁ : ∀ c ∈ r₁.head?, c = ';')
    (hr₂ : ∀ c ∈ r₂.head?, c = ';') (h : a ++ r₁ = b ++ r₂) : a = b ∧ r₁ = r₂ := by
  obtain ⟨v, hv, ha⟩ := Option.bind_eq_some_iff.mp ha
  obtain ⟨w, hw, hb⟩ := Option.bind_eq_some_iff.mp hb
  unfold valueText at ha hb
  split at ha
  · rename_i hk
    rw [if_pos hk] at hb
    obtain ⟨m, -, rfl⟩ := Option.map_eq_some_iff.mp ha
    obtain ⟨n, -, rfl⟩ := Option.map_eq_some_iff.mp hb
    have digit : ∀ {r : Text}, (∀ c ∈ r.head?, c = ';') → ∀ c ∈ r.head?, c.isDigit = false :=
      fun hr c hc => by rw [hr c hc]; decide
    have ht := congrArg (List.takeWhile Char.isDigit) h
    rw [natText_takeWhile (digit hr₁), natText_takeWhile (digit hr₂)] at ht
    rw [ht, List.append_cancel_left_eq] at h
    exact ⟨ht, h⟩
  · rename_i hk
    rw [if_neg hk] at hb
    have hk := Bool.eq_false_iff.mpr hk
    obtain ⟨s, hs, rfl⟩ := Option.map_eq_some_iff.mp ha
    obtain ⟨t, ht, rfl⟩ := Option.map_eq_some_iff.mp hb
    simp only [quoted, List.cons_append, List.cons.injEq, true_and, List.append_assoc, List.nil_append] at h
    obtain ⟨rfl, hrest⟩ := append_cons_inj (q₁ hk s (Option.bind_eq_some_iff.mpr ⟨v, hv, hs⟩))
      (q₂ hk t (Option.bind_eq_some_iff.mpr ⟨w, hw, ht⟩)) h
    exact ⟨rfl, hrest⟩

theorem printedText_unique {l₁ l₂ : List (Key × BareItem)} : ∀ {ks : List Text}, ks.Nodup →
    (∀ k ∈ ks, ∀ c ∈ k, isKeyChar c = true) →
    (∀ k ∈ ks, isTimeKey k = false → ∀ t ∈ (entryValue l₁ k).bind asText, '"' ∉ t) →
    (∀ k ∈ ks, isTimeKey k = false → ∀ t ∈ (entryValue l₂ k).bind asText, '"' ∉ t) →
    printedText l₁ ks = printedText l₂ ks →
    ∀ k ∈ ks, printedValue l₁ k = printedValue l₂ k
  | [], _, _, _, _, _ => by simp
  | k :: ks, hks, hkc, hq₁, hq₂, h => by
    obtain ⟨hk, hnd⟩ := List.nodup_cons.mp hks
    obtain ⟨hkc₁, hkc₂⟩ := List.forall_mem_cons.mp hkc
    obtain ⟨q₁, hq₁⟩ := List.forall_mem_cons.mp hq₁
    obtain ⟨q₂, hq₂⟩ := List.forall_mem_cons.mp hq₂
    have ih := printedText_unique hnd hkc₂ hq₁ hq₂
    rw [printedText_eq, printedText_eq, List.flatMap_cons, List.flatMap_cons, ← printedText_eq, ← printedText_eq] at h
    have same : printedValue l₁ k = printedValue l₂ k ∧ printedText l₁ ks = printedText l₂ ks := by
      cases h₁ : printedValue l₁ k with
      | none =>
        cases h₂ : printedValue l₂ k with
        | none => exact ⟨rfl, by simpa [h₁, h₂, paramText] using h⟩
        | some b =>
          refine absurd ?_ (printedText_ne (l := l₁) hk hkc₁ hkc₂ (b ++ printedText l₂ ks))
          simpa [h₁, h₂, paramText] using h
      | some a =>
        cases h₂ : printedValue l₂ k with
        | none =>
          refine absurd ?_ (printedText_ne (l := l₂) hk hkc₁ hkc₂ (a ++ printedText l₁ ks))
          simpa [h₁, h₂, paramText] using h.symm
        | some b =>
          have hab : a ++ printedText l₁ ks = b ++ printedText l₂ ks := by simpa [h₁, h₂, paramText] using h
          obtain ⟨rfl, hrest⟩ := value_unique q₁ q₂ h₁ h₂ (printedText_head l₁ ks) (printedText_head l₂ ks) hab
          exact ⟨rfl, hrest⟩
    exact List.forall_mem_cons.mpr ⟨same.1, ih same.2⟩

theorem printedValue_time {l : List (Key × BareItem)} {k : Text} (hk : isTimeKey k = true) :
    printedValue l k = ((entryValue l k).bind asU64).map fun n => natText n.toNat := by
  rw [printedValue, Option.map_bind]
  congr 1
  funext v
  rw [valueText, if_pos hk]
  rfl

theorem printedValue_text {l : List (Key × BareItem)} {k : Text} (hk : isTimeKey k = false) :
    printedValue l k = ((entryValue l k).bind asText).map quoted := by
  rw [printedValue, Option.map_bind]
  congr 1
  funext v
  rw [valueText, hk, if_neg Bool.false_ne_true]
  rfl

theorem quoted_injective : Function.Injective quoted := by
  intro s t h
  simpa [quoted] using h

theorem natText_toNat_injective : Function.Injective fun n : UInt64 => natText n.toNat :=
  fun _ _ h => UInt64.toNat_inj.mp (natText_inj h)

theorem ofEntries_eq {ids : List HttpMessageComponentId} {l₁ l₂ : List (Key × BareItem)}
    (h : ∀ k ∈ paramKeys, printedValue l₁ k = printedValue l₂ k) : ofEntries ids l₁ = ofEntries ids l₂ := by
  have time : ∀ {k : Text}, k ∈ paramKeys → isTimeKey k = true →
      (entryValue l₁ k).bind asU64 = (entryValue l₂ k).bind asU64 := by
    intro k hm hk
    have := h k hm
    rw [printedValue_time hk, printedValue_time hk] at this
    exact Option.map_injective natText_toNat_injective this
  have text : ∀ {k : Text}, k ∈ paramKeys → isTimeKey k = false →
      (entryValue l₁ k).bind asText = (entryValue l₂ k).bind asText := by
    intro k hm hk
    have := h k hm
    rw [printedValue_text hk, printedValue_text hk] at this
    exact Option.map_injective quoted_injective this
  simp only [ofEntries]
  rw [time (by decide) (by decide), time (by decide) (by decide), text (by decide) (by decide),
    text (by decide) (by decide), text (by decide) (by decide), text (by decide) (by decide)]

theorem NoQuote.value {ids : List HttpMessageComponentId} {l : List (Key × BareItem)} (h : (ofEntries ids l).NoQuote) :
    ∀ k ∈ paramKeys, isTimeKey k = false → ∀ t ∈ (entryValue l k).bind asText, '"' ∉ t := by
  intro k hk ht
  simp only [paramKeys, List.mem_cons, List.not_mem_nil, or_false] at hk
  rcases hk with rfl | rfl | rfl | rfl | rfl | rfl
  · cases ht
  · cases ht
  · exact h.nonce
  · exact h.alg
  · exact h.keyid
  · exact h.tag

/-- The ids of an accepted member are well formed. -/
theorem ReadsIds.wellFormed {items : List Item} {ids : List HttpMessageComponentId} (h : ReadsIds items ids) :
    ∀ id ∈ ids, id.name.WellFormed := by
  induction h with
  | nil => simp
  | cons hid _ ih =>
    refine List.forall_mem_cons.mpr ⟨?_, ih⟩
    exact (HttpMessageComponentName.tryFrom_eq_ok.mp (HttpMessageComponentId.readItem_eq_ok.mp hid).1).1

theorem tryFrom_eq_ok {m : ListEntry} {p : HttpSignatureParams} (h : tryFrom m = .ok p) :
    ∃ l, m = .innerList l := by
  cases m with
  | item i => cases h
  | innerList l => exact ⟨l, rfl⟩

/-- Without quotes in their strings, parameters that print alike are the same. -/
theorem eq_of_toText_eq {m₁ m₂ : ListEntry} {p₁ p₂ : HttpSignatureParams} (h₁ : tryFrom m₁ = .ok p₁)
    (h₂ : tryFrom m₂ = .ok p₂) (q₁ : p₁.NoQuote) (q₂ : p₂.NoQuote) (h : p₁.toText = p₂.toText) : p₁ = p₂ := by
  obtain ⟨l₁, rfl⟩ := tryFrom_eq_ok h₁
  obtain ⟨l₂, rfl⟩ := tryFrom_eq_ok h₂
  obtain ⟨ids₁, hids₁, -, -, rfl⟩ := tryFrom_innerList_eq_ok.mp h₁
  obtain ⟨ids₂, hids₂, -, -, rfl⟩ := tryFrom_innerList_eq_ok.mp h₂
  rw [toText_ofEntries, toText_ofEntries, List.cons_append, List.cons_append, List.cons.injEq, eq_self, true_and] at h
  obtain ⟨rfl, htext⟩ := ids_unique (fun a ha => ⟨hids₁.wellFormed a ha, q₁.ids a ha⟩)
    (fun b hb => ⟨hids₂.wellFormed b hb, q₂.ids b hb⟩) h
  exact ofEntries_eq (printedText_unique paramKeys_nodup isKeyChar_of_mem_paramKeys q₁.value q₂.value htext)

/-! ### One string that prints like two -/

/-- Two strings under neighbouring keys as one: what is printed of them, less the outer quotes. -/
def mergedText (s : Text) (k : Text) (t : Text) : Text := s ++ '"' :: ';' :: (k ++ '=' :: '"' :: t)

theorem printable_mergedText (s t : SfString) (k : Key) : (mergedText s.text k.text t.text).all isPrintable = true := by
  have hk : k.text.all isPrintable = true :=
    List.all_eq_true.mpr fun c hc => isPrintable_of_isPlain (isPlain_of_mem_key hc)
  rw [mergedText, List.all_append, List.all_cons, List.all_cons, List.all_append, List.all_cons, List.all_cons, s.valid,
    hk, t.valid]
  decide

def merged (s : SfString) (k : Key) (t : SfString) : SfString := ⟨mergedText s.text k.text t.text, printable_mergedText s t k⟩

@[simp] theorem paramText_merged (k : Text) (s : SfString) (j : Key) (t : SfString) :
    paramText k (some (quoted (merged s j t).text)) = paramText k (some (quoted s.text)) ++ paramText j.text (some (quoted t.text)) := by
  simp only [merged, mergedText, paramText, quoted, List.cons_append, List.append_assoc, List.nil_append]

@[simp] theorem paramText_none (k : Text) : paramText k none = [] := rfl

/-- The times of some entries, with other strings. -/
def withStrings (l : List (Key × BareItem)) (nonce alg keyid tag : Option SfString) : List (Key × Option BareItem) :=
  [(createdKey, entryValue l "created".toList), (expiresKey, entryValue l "expires".toList),
    (nonceKey, nonce.map .string), (algKey, alg.map .string), (keyidKey, keyid.map .string), (tagKey, tag.map .string)]

section
variable {l : List (Key × BareItem)} {nonce alg keyid tag : Option SfString}

theorem nodup_withStrings : ((withStrings l nonce alg keyid tag).map Prod.fst).Nodup := by
  refine List.Nodup.of_map Key.text ?_
  rw [List.map_map]
  exact paramKeys_nodup

theorem isNegative_withStrings (h : l.any isNegative = false) :
    (presentFields (withStrings l nonce alg keyid tag)).any isNegative = false := by
  have time : ∀ {k : Key} {v : BareItem}, entryValue l k.text = some v → isNegative (k, v) = false := by
    intro k v hv
    obtain ⟨⟨j, w⟩, he, hj, rfl⟩ := mem_of_entryValue hv
    obtain rfl : j = k := Key.ext hj
    exact Bool.not_eq_true _ ▸ List.any_eq_false.mp h _ he
  have text : ∀ {k : Key} {o : Option SfString} {v : BareItem}, o.map .string = some v → isNegative (k, v) = false := by
    intro k o v hv
    obtain ⟨s, -, rfl⟩ := Option.map_eq_some_iff.mp hv
    rw [isNegative, Bool.and_false]
  rw [List.any_eq_false]
  rintro ⟨k, v⟩ he
  rw [Bool.not_eq_true]
  have hf := mem_presentFields.mp he
  simp only [withStrings, List.mem_cons, Prod.mk.injEq, List.not_mem_nil, or_false] at hf
  rcases hf with ⟨rfl, hv⟩ | ⟨rfl, hv⟩ | ⟨rfl, hv⟩ | ⟨rfl, hv⟩ | ⟨rfl, hv⟩ | ⟨rfl, hv⟩
  · exact time hv.symm
  · exact time hv.symm
  · exact text hv.symm
  · exact text hv.symm
  · exact text hv.symm
  · exact text hv.symm

theorem ofEntries_withStrings (ids : List HttpMessageComponentId) :
    ofEntries ids (presentFields (withStrings l nonce alg keyid tag)) =
      { ofEntries ids l with
        nonce := nonce.map SfString.text, alg := alg.map SfString.text
        keyid := keyid.map SfString.text, tag := tag.map SfString.text } := by
  have hval : ∀ {k : Key} {o : Option BareItem}, (k, o) ∈ withStrings l nonce alg keyid tag →
      entryValue (presentFields (withStrings l nonce alg keyid tag)) k.text = o :=
    entryValue_presentFields nodup_withStrings
  have text : ∀ o : Option SfString, (o.map BareItem.string).bind asText = o.map SfString.text := by
    rintro (_ | s) <;> rfl
  have hc : entryValue _ "created".toList = entryValue l "created".toList :=
    hval (k := createdKey) (by simp [withStrings])
  have he : entryValue _ "expires".toList = entryValue l "expires".toList :=
    hval (k := expiresKey) (by simp [withStrings])
  have hn : entryValue _ "nonce".toList = nonce.map BareItem.string := hval (k := nonceKey) (by simp [withStrings])
  have ha : entryValue _ "alg".toList = alg.map BareItem.string := hval (k := algKey) (by simp [withStrings])
  have hk : entryValue _ "keyid".toList = keyid.map BareItem.string := hval (k := keyidKey) (by simp [withStrings])
  have ht : entryValue _ "tag".toList = tag.map BareItem.string := hval (k := tagKey) (by simp [withStrings])
  simp only [ofEntries, hc, he, hn, ha, hk, ht, text]

end

/-- Accepted parameters are accepted with any other strings as well. -/
theorem exists_withStrings {m : ListEntry} {p : HttpSignatureParams} (h : tryFrom m = .ok p)
    (nonce alg keyid tag : Option SfString) :
    ∃ m', tryFrom m' = .ok { p with
      nonce := nonce.map SfString.text, alg := alg.map SfString.text
      keyid := keyid.map SfString.text, tag := tag.map SfString.text } := by
  obtain ⟨l, rfl⟩ := tryFrom_eq_ok h
  obtain ⟨ids, hids, hu, hneg, rfl⟩ := tryFrom_innerList_eq_ok.mp h
  let l' : InnerList := ⟨l.items, ⟨presentFields (withStrings l.params.entries nonce alg keyid tag),
    nodup_withStrings.sublist (map_fst_presentFields _)⟩⟩
  exact ⟨.innerList l', tryFrom_innerList_eq_ok.mpr
    ⟨ids, hids, hu, isNegative_withStrings hneg, (ofEntries_withStrings ids).symm⟩⟩

/-- The strings of accepted parameters are strings of a structured field. -/
theorem exists_strings {m : ListEntry} {p : HttpSignatureParams} (h : tryFrom m = .ok p) :
    ∃ nonce alg keyid tag : Option SfString, p.nonce = nonce.map SfString.text ∧ p.alg = alg.map SfString.text ∧
      p.keyid = keyid.map SfString.text ∧ p.tag = tag.map SfString.text := by
  obtain ⟨l, rfl⟩ := tryFrom_eq_ok h
  obtain ⟨ids, -, -, -, rfl⟩ := tryFrom_innerList_eq_ok.mp h
  have text : ∀ o : Option BareItem, o.bind asText = (o.bind BareItem.asString).map SfString.text := by
    rintro (_ | b) <;> rfl
  exact ⟨_, _, _, _, text _, text _, text _, text _⟩

/-- The strings among the parameters, in the order they are printed in. -/
def strings (p : HttpSignatureParams) : List Text := [p.nonce, p.alg, p.keyid, p.tag].reduceOption

/-- What is printed of the four strings. -/
def stringsText (nonce alg keyid tag : Option SfString) : Text :=
  paramText nonceKey.text (nonce.map fun s => quoted s.text) ++ (paramText algKey.text (alg.map fun s => quoted s.text) ++
    (paramText keyidKey.text (keyid.map fun s => quoted s.text) ++ paramText tagKey.text (tag.map fun s => quoted s.text)))

/-- Whatever carries two strings prints like something that carries one of them less. -/
theorem exists_same_toText {m : ListEntry} {p : HttpSignatureParams} (h : tryFrom m = .ok p) (hp : 1 < p.strings.length) :
    ∃ m' p', tryFrom m' = .ok p' ∧ p'.toText = p.toText ∧ p' ≠ p := by
  obtain ⟨nonce, alg, keyid, tag, hn, ha, hk, ht⟩ := exists_strings h
  rw [strings, hn, ha, hk, ht] at hp
  have other : ∀ nonce' alg' keyid' tag' : Option SfString,
      stringsText nonce' alg' keyid' tag' = stringsText nonce alg keyid tag →
      (alg'.isSome, keyid'.isSome, tag'.isSome) ≠ (alg.isSome, keyid.isSome, tag.isSome) →
      ∃ m' p', tryFrom m' = .ok p' ∧ p'.toText = p.toText ∧ p' ≠ p := by
    intro nonce' alg' keyid' tag' htext hne
    obtain ⟨m', hm'⟩ := exists_withStrings h nonce' alg' keyid' tag'
    refine ⟨m', _, hm', ?_, fun heq => hne ?_⟩
    · have htext : _ ++ (_ ++ (_ ++ _)) = _ ++ (_ ++ (_ ++ _)) := htext
      rw [toText_eq, toText_eq, hn, ha, hk, ht]
      simp only [Option.map_map]
      exact congrArg (fun t => _ ++ _ :: (_ ++ (_ ++ t))) htext
    · have ha' := (congrArg HttpSignatureParams.alg heq).trans ha
      have hk' := (congrArg HttpSignatureParams.keyid heq).trans hk
      have ht' := (congrArg HttpSignatureParams.tag heq).trans ht
      have some_iff : ∀ {o o' : Option SfString}, o.map SfString.text = o'.map SfString.text → o.isSome = o'.isSome := by
        intro o o' ho
        rw [← Option.isSome_map (f := SfString.text), ho, Option.isSome_map]
      rw [some_iff ha', some_iff hk', some_iff ht']
  -- The first string takes up the next one that is there.
  match nonce, alg, keyid, tag with
  | some n, some a, k, t => exact other (some (merged n algKey a)) none k t (by simp [stringsText]) (by simp)
  | some n, none, some k, t => exact other (some (merged n keyidKey k)) none none t (by simp [stringsText]) (by simp)
  | some n, none, none, some t => exact other (some (merged n tagKey t)) none none none (by simp [stringsText]) (by simp)
  | none, some a, some k, t => exact other none (some (merged a keyidKey k)) none t (by simp [stringsText]) (by simp)
  | none, some a, none, some t => exact other none (some (merged a tagKey t)) none none (by simp [stringsText]) (by simp)
  | none, none, some k, some t => exact other none none (some (merged k tagKey t)) none (by simp [stringsText]) (by simp)

/-- Parameters without a quote in any string are told apart by what is printed for them; a quote is what it
takes to print like other parameters, and whatever carries two strings can be printed like. -/
theorem toText_unambiguous {m : ListEntry} {p : HttpSignatureParams} (h : tryFrom m = .ok p) :
    (p.NoQuote → ∀ m' p', tryFrom m' = .ok p' → p'.NoQuote → p.toText = p'.toText → p = p') ∧
    (1 < p.strings.length → ∃ m' p', tryFrom m' = .ok p' ∧ p'.toText = p.toText ∧ p' ≠ p) :=
  ⟨fun hq _ _ h' hq' => eq_of_toText_eq h h' hq hq', exists_same_toText h⟩

/-- A covered method with a nonce and an algorithm. -/
def twoStrings : InnerList where
  items := [methodItem]
  params := .ofList [(nonceKey, stringOf "a".toList (by decide)), (algKey, stringOf "b".toList (by decide))]

/-- The same with one nonce that prints like both. -/
def oneString : InnerList where
  items := [methodItem]
  params := .ofList [(nonceKey, stringOf "a\";alg=\"b".toList (by decide))]

def twoStringsParams : HttpSignatureParams :=
  ⟨none, none, some "a".toList, some "b".toList, none, none, [⟨.derived .method, ∅⟩]⟩

def oneStringParams : HttpSignatureParams :=
  ⟨none, none, some "a\";alg=\"b".toList, none, none, none, [⟨.derived .method, ∅⟩]⟩

/-- Two accepted headers print alike and report different nonces. -/
theorem twoStrings_oneString :
    parseDictionaryField "sig1=(\"@method\");nonce=\"a\";alg=\"b\"".toList =
      some (.ofList [(keyOf "sig1".toList (by decide), .innerList twoStrings)]) ∧
    parseDictionaryField "sig1=(\"@method\");nonce=\"a\\\";alg=\\\"b\"".toList =
      some (.ofList [(keyOf "sig1".toList (by decide), .innerList oneString)]) ∧
    tryFrom (.innerList twoStrings) = .ok twoStringsParams ∧ tryFrom (.innerList oneString) = .ok oneStringParams ∧
    twoStringsParams.toText = oneStringParams.toText ∧ twoStringsParams.nonce ≠ oneStringParams.nonce := by
  refine ⟨?_, ?_, ?_, ?_, ?_, ?_⟩ <;> decide

theorem twoStringsParams_noQuote : twoStringsParams.NoQuote where
  ids := by
    intro id hid
    obtain rfl : id = _ := by simpa [twoStringsParams] using hid
    exact ⟨by decide, by simp⟩
  nonce := by
    rintro t ⟨⟩
    decide
  alg := by
    rintro t ⟨⟩
    decide
  keyid := nofun
  tag := nofun

/-- The parameters of the first header are told apart from any others without quotes, and printed like some
others with a quote. -/
theorem twoStrings_told :
    (∀ m p, tryFrom m = .ok p → p.NoQuote → twoStringsParams.toText = p.toText → twoStringsParams = p) ∧
    ∃ m' p', tryFrom m' = .ok p' ∧ p'.toText = twoStringsParams.toText ∧ p' ≠ twoStringsParams := by
  have h : tryFrom (.innerList twoStrings) = .ok twoStringsParams := by decide
  obtain ⟨htold, hlike⟩ := toText_unambiguous h
  exact ⟨htold twoStringsParams_noQuote, hlike (by decide)⟩

end HttpSignatureParams
end HttpSig
