import HttpSig.Sfv.RoundTrip

/-! Serializations are printable ASCII, and only strings bring quotes and backslashes into them. -/

namespace Sfv
open Rust

/-- Visible, and needing no escape in a string. -/
def isPlain (c : Char) : Bool := isPrintable c && c != ' ' && c != '"' && c != '\\'

theorem isPlain_iff {c : Char} : isPlain c = true ↔ isPrintable c = true ∧ c ≠ ' ' ∧ c ≠ '"' ∧ c ≠ '\\' := by
  simp only [isPlain, Bool.and_eq_true, bne_iff_ne]
  tauto

theorem isPrintable_iff {c : Char} : isPrintable c = true ↔ 0x20 ≤ c.toNat ∧ c.toNat ≤ 0x7e := by
  simp [isPrintable]

theorem isPlain_of_between {c : Char} (h : 0x21 ≤ c.toNat ∧ c.toNat ≤ 0x7e ∧ c.toNat ≠ 0x22 ∧ c.toNat ≠ 0x5c) :
    isPlain c = true := by
  refine isPlain_iff.mpr ⟨isPrintable_iff.mpr ⟨by omega, h.2.1⟩, ?_, ?_, ?_⟩
  · rintro rfl
    exact absurd h.1 (by decide)
  · rintro rfl
    exact h.2.2.1 rfl
  · rintro rfl
    exact h.2.2.2 rfl

/-- Of the printable characters only the space is white. -/
theorem isWhitespace_of_isPrintable {c : Char} (h : isPrintable c = true) (hsp : c ≠ ' ') : isWhitespace c = false := by
  rw [isPrintable_iff] at h
  have hne : c.toNat ≠ 0x20 := fun heq => hsp (Char.toNat_inj.mp (heq.trans (by decide)))
  simp only [isWhitespace, Bool.or_eq_false_iff, Bool.and_eq_false_iff, decide_eq_false_iff_not, beq_eq_false_iff_ne]
  omega

theorem isPlain_of_isTokenChar {c : Char} (h : isTokenChar c = true) : isPlain c = true := by
  simp only [isTokenChar, isTchar, Bool.or_eq_true, beq_iff_eq, List.contains_iff_mem] at h
  rcases h with (((h | h) | h) | rfl) | rfl
  · apply isPlain_of_between
    rw [isAlpha_iff] at h
    omega
  · apply isPlain_of_between
    rw [Char.isDigit_iff_toNat] at h
    have h0 : '0'.toNat = 48 := rfl
    have h9 : '9'.toNat = 57 := rfl
    omega
  · exact List.all_eq_true.mp (by decide) c h
  · decide
  · decide

theorem isPrintable_of_isPlain {c : Char} (h : isPlain c = true) : isPrintable c = true := (isPlain_iff.mp h).1

theorem isWhitespace_of_isPlain {c : Char} (h : isPlain c = true) : isWhitespace c = false :=
  isWhitespace_of_isPrintable (isPrintable_of_isPlain h) (isPlain_iff.mp h).2.1

theorem isPlain_of_isDigit {c : Char} (h : c.isDigit = true) : isPlain c = true :=
  isPlain_of_isTokenChar (isTokenChar_of_isDigit h)

theorem isPlain_of_isBase64Char {c : Char} (h : Base64.isBase64Char c = true) : isPlain c = true := by
  simp only [Base64.isBase64Char, Bool.or_eq_true, beq_iff_eq, List.contains_iff_mem] at h
  rw [Base64.alphabet_eq] at h
  rcases h with h | rfl
  · exact List.all_eq_true.mp (by decide) c h
  · decide

/-! ### Bare items -/

theorem isPlain_of_mem_intText {i : Int} {c : Char} (h : c ∈ intText i) : isPlain c = true := by
  unfold intText at h
  split at h
  · rcases List.mem_cons.mp h with rfl | h
    · decide
    · exact isPlain_of_isDigit (isDigit_of_mem_natText h)
  · exact isPlain_of_isDigit (isDigit_of_mem_natText h)

theorem isPlain_of_mem_serializeDecimal {d : Decimal} {c : Char} (h : c ∈ serializeDecimal d) : isPlain c = true := by
  have abs : c ∈ natText (d.thousandths.natAbs / 1000) ++ '.' :: fractionText (d.thousandths.natAbs % 1000) →
      isPlain c = true := by
    intro h
    rcases List.mem_append.mp h with h | h
    · exact isPlain_of_isDigit (isDigit_of_mem_natText h)
    · rcases List.mem_cons.mp h with rfl | h
      · decide
      · exact isPlain_of_isDigit (isDigit_of_mem_fractionText c h)
  unfold serializeDecimal at h
  dsimp only at h
  split at h
  · rcases List.mem_cons.mp h with rfl | h
    · decide
    · exact abs h
  · exact abs h

theorem isPrintable_of_mem_percentByte {b : UInt8} {c : Char} (h : c ∈ percentByte b) : isPrintable c = true := by
  have hex : ∀ n < 16, isPrintable (hexDigit n) = true := by decide
  have hb := b.toNat_lt
  unfold percentByte at h
  split at h
  · simp only [List.mem_cons, List.not_mem_nil, or_false] at h
    rcases h with rfl | rfl | rfl
    · decide
    · exact hex _ (by omega)
    · exact hex _ (Nat.mod_lt _ (by decide))
  · rename_i hn
    simp only [Bool.or_eq_true, beq_iff_eq, decide_eq_true_eq, not_or, UInt8.lt_iff_toNat_lt, not_lt] at hn
    obtain rfl : c = _ := by simpa using h
    have h₁ : 0x20 ≤ b.toNat := hn.1.2
    have h₂ : b.toNat ≤ 0x7e := hn.2
    simp only [isPrintable, toNat_ofNat_of_lt (show b.toNat < 0xd800 by omega), h₁, h₂, decide_true, Bool.and_self]

/-- An item that brings a quote: a string or a display string. -/
def BareItem.isQuoted : BareItem → Bool
  | string _ | displayString _ => true
  | _ => false

theorem mem_serializeBareItem_of_isQuoted {b : BareItem} (h : b.isQuoted = true) : '"' ∈ serializeBareItem b := by
  cases b <;> simp [BareItem.isQuoted] at h <;>
    simp [serializeBareItem, serializeString, serializeDisplayString]

theorem isPlain_of_mem_serializeBareItem {b : BareItem} (hb : b.isQuoted = false) {c : Char}
    (h : c ∈ serializeBareItem b) : isPlain c = true := by
  cases b with
  | integer i => exact isPlain_of_mem_intText h
  | decimal d => exact isPlain_of_mem_serializeDecimal h
  | string s => cases hb
  | token k => exact isPlain_of_isTokenChar (k.isTokenChar_of_mem c h)
  | byteSequence bs =>
    simp only [serializeBareItem, List.cons_append, List.mem_cons, List.mem_append, List.not_mem_nil, or_false] at h
    rcases h with rfl | h | rfl
    · decide
    · exact isPlain_of_isBase64Char (Base64.isBase64Char_of_mem_encode c h)
    · decide
  | boolean b =>
    cases b <;> simp only [serializeBareItem, List.mem_cons, List.not_mem_nil, or_false] at h <;>
      rcases h with rfl | rfl <;> decide
  | date i =>
    rcases List.mem_cons.mp h with rfl | h
    · decide
    · exact isPlain_of_mem_intText h
  | displayString s => cases hb

theorem isPrintable_of_mem_serializeBareItem {b : BareItem} {c : Char} (h : c ∈ serializeBareItem b) :
    isPrintable c = true := by
  cases hb : b.isQuoted
  · exact isPrintable_of_isPlain (isPlain_of_mem_serializeBareItem hb h)
  · cases b <;> simp only [BareItem.isQuoted, Bool.false_eq_true] at hb
    case string s =>
      simp only [serializeBareItem, serializeString, List.cons_append, List.mem_cons, List.mem_append, List.mem_flatMap,
        List.not_mem_nil, or_false] at h
      rcases h with rfl | ⟨d, hd, hc⟩ | rfl
      · decide
      · have hp := List.all_eq_true.mp s.valid d hd
        unfold escapeChar at hc
        split at hc <;> simp only [List.mem_cons, List.not_mem_nil, or_false] at hc
        · rcases hc with rfl | rfl
          · decide
          · exact hp
        · exact hc ▸ hp
      · decide
    case displayString s =>
      simp only [serializeBareItem, serializeDisplayString, List.cons_append, List.mem_cons, List.mem_append,
        List.mem_flatMap, List.not_mem_nil, or_false] at h
      rcases h with rfl | rfl | ⟨b, -, hc⟩ | rfl
      · decide
      · decide
      · exact isPrintable_of_mem_percentByte hc
      · decide

/-! ### Parameters, items and lists -/

theorem isPlain_of_mem_key {k : Key} {c : Char} (h : c ∈ k.text) : isPlain c = true :=
  isPlain_of_isTokenChar (isTokenChar_of_isKeyChar (k.isKeyChar_of_mem c h))

theorem mem_serializeParameter {k : Key} {b : BareItem} {c : Char} (h : c ∈ serializeParameter k b) :
    isPlain c = true ∨ c ∈ serializeBareItem b := by
  unfold serializeParameter at h
  split at h
  · rcases List.mem_cons.mp h with rfl | h
    · exact Or.inl (by decide)
    · exact Or.inl (isPlain_of_mem_key h)
  · simp only [List.cons_append, List.mem_cons, List.mem_append] at h
    rcases h with rfl | h | rfl | h
    · exact Or.inl (by decide)
    · exact Or.inl (isPlain_of_mem_key h)
    · exact Or.inl (by decide)
    · exact Or.inr h

theorem isPrintable_of_mem_serializeParameters {ps : Parameters} {c : Char} (h : c ∈ serializeParameters ps) :
    isPrintable c = true := by
  obtain ⟨e, -, h⟩ := List.mem_flatMap.mp h
  rcases mem_serializeParameter h with h | h
  · exact isPrintable_of_isPlain h
  · exact isPrintable_of_mem_serializeBareItem h

theorem isPrintable_of_mem_serializeItem {i : Item} {c : Char} (h : c ∈ serializeItem i) : isPrintable c = true := by
  rcases List.mem_append.mp h with h | h
  · exact isPrintable_of_mem_serializeBareItem h
  · exact isPrintable_of_mem_serializeParameters h

theorem isPrintable_of_mem_serializeInnerList {l : InnerList} {c : Char} (h : c ∈ serializeInnerList l) :
    isPrintable c = true := by
  simp only [serializeInnerList, List.cons_append, List.mem_cons, List.mem_append] at h
  rcases h with rfl | h | rfl | h
  · decide
  · refine forall_mem_join (p := fun c => isPrintable c = true) (List.all_eq_true.mp (by decide)) ?_ c h
    intro s hs c hc
    obtain ⟨i, -, rfl⟩ := List.mem_map.mp hs
    exact isPrintable_of_mem_serializeItem hc
  · decide
  · exact isPrintable_of_mem_serializeParameters h

theorem isPrintable_of_mem_serializeListEntry {e : ListEntry} {c : Char} (h : c ∈ serializeListEntry e) :
    isPrintable c = true := by
  cases e with
  | item i => exact isPrintable_of_mem_serializeItem h
  | innerList l => exact isPrintable_of_mem_serializeInnerList h

theorem isPrintable_of_mem_serializeMember {k : Key} {e : ListEntry} {c : Char} (h : c ∈ serializeMember k e) :
    isPrintable c = true := by
  have hval : ∀ {e : ListEntry}, c ∈ k.text ++ '=' :: serializeListEntry e → isPrintable c = true := by
    intro e h
    rcases List.mem_append.mp h with h | h
    · exact isPrintable_of_isPlain (isPlain_of_mem_key h)
    · rcases List.mem_cons.mp h with rfl | h
      · decide
      · exact isPrintable_of_mem_serializeListEntry h
  cases e with
  | item i =>
    rw [serializeMember_item] at h
    split at h
    · rcases List.mem_append.mp h with h | h
      · exact isPrintable_of_isPlain (isPlain_of_mem_key h)
      · exact isPrintable_of_mem_serializeParameters h
    · exact hval (e := .item i) h
  | innerList l => exact hval (e := .innerList l) h

theorem isPrintable_of_mem_separator : ∀ c ∈ [',', ' '], isPrintable c = true := List.all_eq_true.mp (by decide)

theorem isPrintable_of_mem_serializeList {l : SfList} {t : Text} (h : serializeList l = some t) :
    ∀ c ∈ t, isPrintable c = true := by
  unfold serializeList at h
  split at h
  · cases h
  · cases h
    refine forall_mem_join isPrintable_of_mem_separator ?_
    intro s hs c hc
    obtain ⟨e, -, rfl⟩ := List.mem_map.mp hs
    exact isPrintable_of_mem_serializeListEntry hc

theorem isPrintable_of_mem_serializeDictionary {d : Dictionary} {t : Text} (h : serializeDictionary d = some t) :
    ∀ c ∈ t, isPrintable c = true := by
  unfold serializeDictionary at h
  split at h
  · cases h
  · cases h
    refine forall_mem_join isPrintable_of_mem_separator ?_
    intro s hs c hc
    obtain ⟨e, -, rfl⟩ := List.mem_map.mp hs
    exact isPrintable_of_mem_serializeMember hc

/-- An item whose serialization has no quote has nothing in it that a string would escape. -/
theorem isPlain_of_mem_serializeItem {i : Item} (hq : '"' ∉ serializeItem i) {c : Char} (h : c ∈ serializeItem i) :
    isPlain c = true := by
  rw [serializeItem, List.mem_append, not_or] at hq
  have unquoted : ∀ {b : BareItem}, '"' ∉ serializeBareItem b → b.isQuoted = false := by
    intro b hb
    cases hbq : b.isQuoted
    · rfl
    · exact absurd (mem_serializeBareItem_of_isQuoted hbq) hb
  rcases List.mem_append.mp h with h | h
  · exact isPlain_of_mem_serializeBareItem (unquoted hq.1) h
  · obtain ⟨e, he, h⟩ := List.mem_flatMap.mp h
    rcases mem_serializeParameter h with hp | h
    · exact hp
    · refine isPlain_of_mem_serializeBareItem (unquoted fun hm => hq.2 (List.mem_flatMap.mpr ⟨e, he, ?_⟩)) h
      unfold serializeParameter
      split
      · rename_i hb
        rw [hb] at hm
        exact absurd hm (by decide)
      · simp [hm]

/-! ### No white space at the ends -/

theorem noEdge_of_isPlain {s : Text} (h : ∀ c ∈ s, isPlain c = true) : NoEdge s :=
  ⟨fun c hc => isWhitespace_of_isPlain (h c (List.mem_of_mem_head? hc)),
    fun c hc => isWhitespace_of_isPlain (h c (List.mem_of_mem_getLast? hc))⟩

theorem noEdge_quoted (a : Char) (s : Text) (ha : isWhitespace a = false) : NoEdge (a :: s ++ ['"']) := by
  refine ⟨?_, ?_⟩
  · intro c hc
    obtain rfl : a = c := by simpa using hc
    exact ha
  · intro c hc
    rw [List.getLast?_append] at hc
    obtain rfl : '"' = c := by simpa using hc
    decide

theorem noEdge_serializeBareItem (b : BareItem) : NoEdge (serializeBareItem b) := by
  cases hb : b.isQuoted
  · exact noEdge_of_isPlain fun c hc => isPlain_of_mem_serializeBareItem hb hc
  · cases b <;> simp only [BareItem.isQuoted, Bool.false_eq_true] at hb
    case string s => exact noEdge_quoted '"' _ (by decide)
    case displayString s => exact noEdge_quoted '%' ('"' :: _) (by decide)

theorem noEdge_serializeParameter (k : Key) (b : BareItem) : NoEdge (serializeParameter k b) := by
  have hk : ∀ c ∈ ';' :: k.text, isPlain c = true := by
    intro c hc
    rcases List.mem_cons.mp hc with rfl | hc
    · decide
    · exact isPlain_of_mem_key hc
  unfold serializeParameter
  split
  · exact noEdge_of_isPlain hk
  · refine (noEdge_of_isPlain hk).append (.append (s := ['=']) ?_ (noEdge_serializeBareItem b))
    exact noEdge_of_isPlain (List.all_eq_true.mp (by decide))

theorem noEdge_serializeParameters (ps : Parameters) : NoEdge (serializeParameters ps) := by
  unfold serializeParameters
  induction ps.entries with
  | nil => exact noEdge_of_isPlain (by simp)
  | cons e l ih => exact (noEdge_serializeParameter e.1 e.2).append ih

theorem noEdge_serializeItem (i : Item) : NoEdge (serializeItem i) :=
  (noEdge_serializeBareItem i.bareItem).append (noEdge_serializeParameters i.params)

end Sfv
