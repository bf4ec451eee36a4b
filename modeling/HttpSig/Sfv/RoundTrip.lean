import HttpSig.Sfv.Combine
import HttpSig.Sfv.Serialize

/-! Parsing what was serialized gives the value back, whatever may follow it in the input. -/

namespace Sfv
open Rust

/-! ### Numbers -/

theorem natText_takeWhile {n : Nat} {t : Text} (ht : ∀ c ∈ t.head?, c.isDigit = false) :
    (natText n ++ t).takeWhile Char.isDigit = natText n :=
  takeWhile_append_of_all (fun _ hc => isDigit_of_mem_natText hc) ht

theorem natText_dropWhile {n : Nat} {t : Text} (ht : ∀ c ∈ t.head?, c.isDigit = false) :
    (natText n ++ t).dropWhile Char.isDigit = t :=
  dropWhile_append_of_all (fun _ hc => isDigit_of_mem_natText hc) ht

theorem NoToken.ne_dot {t : Text} (ht : NoToken t) : ∀ r, t ≠ '.' :: r := by
  rintro r rfl
  have := ht '.' (by simp)
  revert this
  decide

theorem integerOf_natText {sign : Int} {i : Integer} {n : Nat} (hn : n < 10 ^ 15) (h : sign * n = i.val) :
    integerOf sign (natText n) = some (.integer i) := by
  have hlen := (natText_length_le (n := n) (k := 15) (by decide)).mpr hn
  rw [integerOf, if_neg (by omega), natText, Nat.ofDigitChars_ten_toDigits, h, Integer.ofInt?, dif_pos i.bound]
  rfl

theorem parseUnsigned_integer {sign : Int} {i : Integer} {n : Nat} {t : Text} (hn : n < 10 ^ 15) (h : sign * n = i.val)
    (ht : NoToken t) : parseUnsigned sign (natText n ++ t) = some (.integer i, t) := by
  have hdrop := natText_dropWhile (n := n) ht.digit
  rw [parseUnsigned_of_not_dot (by rw [hdrop]; exact ht.ne_dot), hdrop, natText_takeWhile ht.digit,
    integerOf_natText hn h]
  simp [natText_ne_nil]

theorem natText_ne_minus (n : Nat) (t : Text) : ∀ r, natText n ++ t ≠ '-' :: r := by
  intro r h
  cases hd : natText n with
  | nil => exact natText_ne_nil n hd
  | cons c s =>
    rw [hd] at h
    cases h
    have := isDigit_of_mem_natText (n := n) (c := '-') (by simp [hd])
    revert this
    decide

theorem parseNumber_intText (i : Integer) {t : Text} (ht : NoToken t) :
    parseNumber (intText i.val ++ t) = some (.integer i, t) := by
  have hb := i.bound
  simp only [maxInteger] at hb
  unfold intText
  split
  · rename_i hneg
    show parseUnsigned (-1) (natText i.val.natAbs ++ t) = _
    exact parseUnsigned_integer (by omega) (by omega) ht
  · rw [parseNumber_of_ne (natText_ne_minus _ t)]
    exact parseUnsigned_integer (by omega) (by omega) ht

theorem isDigit_digitChar : ∀ n < 10, (Nat.digitChar n).isDigit = true := by decide

theorem isDigit_of_mem_fractionText {n : Nat} : ∀ c ∈ fractionText n, c.isDigit = true := by
  have hd : ∀ k, (Nat.digitChar (n / 10 ^ k % 10)).isDigit = true := fun k => isDigit_digitChar _ (Nat.mod_lt _ (by decide))
  intro c hc
  unfold fractionText at hc
  split_ifs at hc <;> simp only [List.mem_cons, List.not_mem_nil, or_false] at hc
  · rw [hc]
    exact hd 2
  · rcases hc with rfl | rfl
    · exact hd 2
    · exact hd 1
  · rcases hc with rfl | rfl | rfl
    · exact hd 2
    · exact hd 1
    · exact hd 0

theorem ofDigitChars_digitChar_cons {d : Nat} (hd : d < 10) (s : Text) (k : Nat) :
    Nat.ofDigitChars 10 (Nat.digitChar d :: s) k = Nat.ofDigitChars 10 s (10 * k + d) :=
  Nat.ofDigitChars_cons_digitChar_of_lt_ten hd

theorem fractionText_value {n : Nat} (hn : n < 1000) :
    Nat.ofDigitChars 10 (fractionText n) 0 * 10 ^ (3 - (fractionText n).length) = n := by
  have hd : ∀ k, n / 10 ^ k % 10 < 10 := fun k => Nat.mod_lt _ (by decide)
  unfold fractionText
  split_ifs <;>
    simp only [ofDigitChars_digitChar_cons (hd _), Nat.ofDigitChars_nil, List.length_cons, List.length_nil] <;> omega

theorem decimalOf_text {sign : Int} {d : Decimal} {n : Nat} (hn : n < 10 ^ 15) (h : sign * n = d.thousandths) :
    decimalOf sign (natText (n / 1000)) (fractionText (n % 1000)) = some (.decimal d) := by
  have hlen := (natText_length_le (n := n / 1000) (k := 12) (by decide)).mpr (by omega)
  have hfl : (fractionText (n % 1000)).length ≤ 3 ∧ fractionText (n % 1000) ≠ [] := by
    unfold fractionText
    split_ifs <;> simp
  have hval := fractionText_value (n := n % 1000) (Nat.mod_lt _ (by decide))
  unfold decimalOf
  rw [if_neg (by simp [hfl.2]; omega)]
  simp only [hval, natText, Nat.ofDigitChars_ten_toDigits]
  rw [Nat.div_add_mod', h, Decimal.ofThousandths?, dif_pos d.bound]
  rfl

theorem parseUnsigned_decimal {sign : Int} {d : Decimal} {n : Nat} {t : Text} (hn : n < 10 ^ 15)
    (h : sign * n = d.thousandths) (ht : NoToken t) :
    parseUnsigned sign (natText (n / 1000) ++ '.' :: fractionText (n % 1000) ++ t) = some (.decimal d, t) := by
  have hdot : ∀ c ∈ ('.' :: (fractionText (n % 1000) ++ t)).head?, c.isDigit = false := by simp
  have hfrac := fun c hc => isDigit_of_mem_fractionText (n := n % 1000) c hc
  rw [List.append_assoc, List.cons_append, parseUnsigned_of_dot (natText_dropWhile hdot), natText_takeWhile hdot,
    takeWhile_append_of_all hfrac ht.digit, dropWhile_append_of_all hfrac ht.digit, decimalOf_text hn h]
  simp [natText_ne_nil]

theorem parseNumber_decimal (d : Decimal) {t : Text} (ht : NoToken t) :
    parseNumber (serializeDecimal d ++ t) = some (.decimal d, t) := by
  have hb := d.bound
  simp only [maxInteger] at hb
  unfold serializeDecimal
  dsimp only
  split
  · rename_i hneg
    exact @parseUnsigned_decimal (-1) d _ t (by omega) (by omega) ht
  · rw [List.append_assoc, parseNumber_of_ne (natText_ne_minus _ _), ← List.append_assoc]
    exact parseUnsigned_decimal (by omega) (by omega) ht

/-! ### Strings -/

theorem parseStringBody_flatMap (t : Text) : ∀ {s : Text}, s.all isPrintable = true →
    parseStringBody (s.flatMap escapeChar ++ '"' :: t) = some (s, t)
  | [], _ => rfl
  | c :: s, h => by
    rw [List.all_cons, Bool.and_eq_true] at h
    have ih := parseStringBody_flatMap t h.2
    rw [List.flatMap_cons, List.append_assoc]
    unfold escapeChar
    split
    · rename_i hc
      show parseStringBody ('\\' :: c :: (s.flatMap escapeChar ++ '"' :: t)) = _
      rw [parseStringBody_escape, if_pos hc, ih]
      rfl
    · rename_i hc
      simp only [Bool.or_eq_true, beq_iff_eq, not_or] at hc
      show parseStringBody (c :: (s.flatMap escapeChar ++ '"' :: t)) = _
      rw [parseStringBody_cons hc.1 hc.2, if_pos h.1, ih]
      rfl

theorem parseString_serialize (s : SfString) (t : Text) :
    parseString (s.text.flatMap escapeChar ++ '"' :: t) = some (.string s, t) := by
  unfold parseString
  rw [parseStringBody_flatMap t s.valid]
  show (SfString.ofText? s.text >>= fun str => some (BareItem.string str, t)) = _
  rw [SfString.ofText?, dif_pos s.valid]
  rfl

theorem hexValue_hexDigit : ∀ n < 16, hexValue (hexDigit n) = some n := by decide

/-- A byte is printed as itself, or as a percent sign with two hexadecimal digits. -/
theorem parseDisplayBody_percentByte (b : UInt8) (s : Text) :
    parseDisplayBody (percentByte b ++ s) = (parseDisplayBody s).map fun e => (b :: e.1, e.2) := by
  have hb := b.toNat_lt
  unfold percentByte
  split
  · show parseDisplayBody ('%' :: hexDigit (b.toNat / 16) :: hexDigit (b.toNat % 16) :: s) = _
    rw [parseDisplayBody, hexValue_hexDigit _ (by omega), hexValue_hexDigit _ (by omega)]
    cases parseDisplayBody s with
    | none => rfl
    | some e =>
      show some (UInt8.ofNat (b.toNat / 16 * 16 + b.toNat % 16) :: e.1, e.2) = some (b :: e.1, e.2)
      rw [Nat.div_add_mod', UInt8.ofNat_toNat]
  · rename_i hc
    simp only [Bool.or_eq_true, beq_iff_eq, decide_eq_true_eq, not_or, UInt8.not_lt, ← UInt8.toNat_inj,
      UInt8.le_iff_toNat_le] at hc
    obtain ⟨⟨⟨h1, h2⟩, h3⟩, h4⟩ := hc
    have h1 : b.toNat ≠ 37 := h1
    have h2 : b.toNat ≠ 34 := h2
    have h3 : 32 ≤ b.toNat := h3
    have h4 : b.toNat ≤ 126 := h4
    have hnat : (Char.ofNat b.toNat).toNat = b.toNat := toNat_ofNat_of_lt (by omega)
    have hne : ∀ c : Char, b.toNat ≠ c.toNat → Char.ofNat b.toNat ≠ c := by
      rintro c hc rfl
      exact hc hnat.symm
    show parseDisplayBody (Char.ofNat b.toNat :: s) = _
    rw [parseDisplayBody_cons (hne _ h2) (hne _ h1), if_pos (by simp [isPrintable, hnat, h3, h4]), hnat,
      UInt8.ofNat_toNat]

theorem parseDisplayBody_flatMap (t : Text) : ∀ bs : List UInt8,
    parseDisplayBody (bs.flatMap percentByte ++ '"' :: t) = some (bs, t)
  | [] => rfl
  | b :: bs => by
    rw [List.flatMap_cons, List.append_assoc, parseDisplayBody_percentByte, parseDisplayBody_flatMap t bs]
    rfl

/-! ### Bare items -/

/-- The first character of an item. -/
def isItemStart (c : Char) : Bool :=
  c == '-' || c.isDigit || c == '"' || isTokenStart c || c == ':' || c == '?' || c == '@' || c == '%'

theorem intText_ne_nil (i : Int) : intText i ≠ [] := by
  unfold intText
  split
  · simp
  · exact natText_ne_nil _

theorem natText_head {n : Nat} {t : Text} : ∀ c ∈ (natText n ++ t).head?, c.isDigit = true := by
  intro c hc
  cases h : natText n with
  | nil => exact absurd h (natText_ne_nil n)
  | cons a s =>
    obtain rfl : a = c := by simpa [h] using hc
    exact isDigit_of_mem_natText (n := n) (by simp [h])

theorem intText_head {i : Int} {t : Text} : ∀ c ∈ (intText i ++ t).head?, (c == '-' || c.isDigit) = true := by
  intro c hc
  unfold intText at hc
  split at hc
  · obtain rfl : '-' = c := by simpa using hc
    rfl
  · simp [natText_head c hc]

theorem serializeDecimal_head {d : Decimal} {t : Text} :
    ∀ c ∈ (serializeDecimal d ++ t).head?, (c == '-' || c.isDigit) = true := by
  intro c hc
  unfold serializeDecimal at hc
  dsimp only at hc
  split at hc
  · obtain rfl : '-' = c := by simpa using hc
    rfl
  · rw [List.append_assoc] at hc
    simp [natText_head c hc]

theorem parseBareItem_of_number {s : Text} (hs : s ≠ []) (h : ∀ c ∈ s.head?, (c == '-' || c.isDigit) = true) :
    parseBareItem s = parseNumber s := by
  cases s with
  | nil => exact absurd rfl hs
  | cons c s => rw [parseBareItem_cons, if_pos (h c (by simp))]

theorem isTokenStart_spec {c : Char} (h : isTokenStart c = true) : c.isDigit = false ∧ c ≠ '-' ∧ c ≠ '"' := by
  refine ⟨?_, ?_, ?_⟩
  · cases hd : c.isDigit
    · rfl
    · rw [Char.isDigit_iff_toNat] at hd
      rw [isTokenStart, Bool.or_eq_true, isAlpha_iff, beq_iff_eq] at h
      have h0 : '0'.toNat = 48 := rfl
      have h9 : '9'.toNat = 57 := rfl
      rcases h with (h | h) | rfl
      · omega
      · omega
      · revert hd
        decide
  · rintro rfl
    revert h
    decide
  · rintro rfl
    revert h
    decide

theorem parseBareItem_token (k : Token) {t : Text} (ht : NoToken t) :
    parseBareItem (k.text ++ t) = some (.token k, t) := by
  have hp : parseToken (k.text ++ t) = some (.token k, t) :=
    parseToken_eq_some.mpr ⟨k, rfl, takeWhile_append_of_all k.isTokenChar_of_mem ht,
      dropWhile_append_of_all k.isTokenChar_of_mem ht⟩
  cases hk : k.text with
  | nil =>
    have := k.valid
    simp [hk, isToken] at this
  | cons c s =>
    have hv := k.valid
    rw [hk, isToken, Bool.and_eq_true] at hv
    obtain ⟨hd, hm, hq⟩ := isTokenStart_spec hv.1
    rw [hk] at hp
    rw [List.cons_append, parseBareItem_cons, if_neg (by simp [hd, hm]), if_neg (by simp [hq]), if_pos hv.1]
    exact hp

theorem parseBareItem_serialize (b : BareItem) {t : Text} (ht : NoToken t) :
    parseBareItem (serializeBareItem b ++ t) = some (b, t) := by
  cases b with
  | integer i =>
    rw [serializeBareItem, parseBareItem_of_number (by simp [intText_ne_nil]) intText_head]
    exact parseNumber_intText i ht
  | decimal d =>
    have hne : serializeDecimal d ++ t ≠ [] := by
      unfold serializeDecimal
      dsimp only
      split <;> simp
    rw [serializeBareItem, parseBareItem_of_number hne serializeDecimal_head]
    exact parseNumber_decimal d ht
  | string s =>
    show parseBareItem ('"' :: (s.text.flatMap escapeChar ++ ['"'] ++ t)) = _
    rw [parseBareItem_cons, List.append_assoc]
    exact parseString_serialize s t
  | token k => exact parseBareItem_token k ht
  | byteSequence bs =>
    show parseBareItem (':' :: (Base64.encode bs ++ [':'] ++ t)) = _
    rw [parseBareItem_cons, List.append_assoc]
    refine parseByteSequence_eq_some.mpr ⟨Base64.encode bs, bs, rfl, ?_, Base64.decode_encode bs, rfl⟩
    intro hm
    have := Base64.isBase64Char_of_mem_encode ':' hm
    revert this
    decide
  | boolean b => cases b <;> rfl
  | date i =>
    show parseBareItem ('@' :: (intText i.val ++ t)) = _
    rw [parseBareItem_cons]
    exact parseDate_eq_some.mpr ⟨i, parseNumber_intText i ht, rfl⟩
  | displayString s =>
    show parseBareItem ('%' :: '"' :: ((utf8Bytes s).flatMap percentByte ++ ['"'] ++ t)) = _
    rw [parseBareItem_cons, List.append_assoc]
    exact parseDisplayString_eq_some.mpr ⟨_, utf8Bytes s, s, rfl, parseDisplayBody_flatMap t _, fromUtf8_utf8Bytes s, rfl⟩

theorem serializeBareItem_head (b : BareItem) : ∃ c s, serializeBareItem b = c :: s ∧ isItemStart c = true := by
  have number : ∀ {s : Text}, s ≠ [] → (∀ c ∈ (s ++ []).head?, (c == '-' || c.isDigit) = true) →
      ∃ c s', s = c :: s' ∧ isItemStart c = true := by
    intro s hs h
    cases s with
    | nil => exact absurd rfl hs
    | cons c s => exact ⟨c, s, rfl, by simp [isItemStart, h c (by simp)]⟩
  cases b with
  | integer i => exact number (intText_ne_nil _) intText_head
  | decimal d =>
    have hd : serializeDecimal d ≠ [] := by
      unfold serializeDecimal
      dsimp only
      split <;> simp
    exact number hd serializeDecimal_head
  | string s => exact ⟨_, _, rfl, rfl⟩
  | token k =>
    cases hk : k.text with
    | nil =>
      have := k.valid
      simp [hk, isToken] at this
    | cons c s =>
      have hv := k.valid
      rw [hk, isToken, Bool.and_eq_true] at hv
      exact ⟨c, s, hk, by simp [isItemStart, hv.1]⟩
  | byteSequence bs => exact ⟨_, _, rfl, rfl⟩
  | boolean b => exact ⟨_, _, rfl, rfl⟩
  | date i => exact ⟨_, _, rfl, rfl⟩
  | displayString s => exact ⟨_, _, rfl, rfl⟩

/-! ### Parameters -/

theorem dropSp_of_head {s : Text} (h : ∀ c ∈ s.head?, c ≠ ' ') : dropSp s = s := by
  cases s with
  | nil => rfl
  | cons c s => simp [dropSp, h c (by simp)]

theorem isKeyChar_ne_sp {c : Char} (h : isKeyChar c = true) : c ≠ ' ' := by
  rintro rfl
  revert h
  decide

theorem Key.head_ne_sp (k : Key) (t : Text) : ∀ c ∈ (k.text ++ t).head?, c ≠ ' ' := by
  intro c hc
  cases hk : k.text with
  | nil => exact absurd hk k.ne_nil
  | cons a s =>
    obtain rfl : a = c := by simpa [hk] using hc
    exact isKeyChar_ne_sp (k.isKeyChar_of_mem a (by simp [hk]))

/-- What follows a parameter: another one, or the end of the parameters. -/
theorem serializeParameters_noToken {t : Text} (ht : Stop t) (l : List (Key × BareItem)) :
    NoToken (l.flatMap (fun e => serializeParameter e.1 e.2) ++ t) ∧
      ∀ r, l.flatMap (fun e => serializeParameter e.1 e.2) ++ t ≠ '=' :: r := by
  cases l with
  | nil => exact ⟨ht.noToken, ht.ne (by decide)⟩
  | cons e l =>
    obtain ⟨s, hs⟩ : ∃ s, serializeParameter e.1 e.2 = ';' :: s := by
      unfold serializeParameter
      split
      · exact ⟨_, rfl⟩
      · exact ⟨_, rfl⟩
    rw [List.flatMap_cons, hs]
    exact ⟨NoToken.cons (by decide), by simp⟩

theorem parseParametersLoop_serialize {t : Text} (ht : Stop t) : ∀ (l : List (Key × BareItem)) (ps : Parameters),
    parseParametersLoop (l.length + 1) ps (l.flatMap (fun e => serializeParameter e.1 e.2) ++ t) = some (ps.extend l, t)
  | [], ps => parseParametersLoop_of_ne (ht.ne (by decide))
  | (k, b) :: l, ps => by
    have ih := parseParametersLoop_serialize ht l (ps.insert k b)
    obtain ⟨hno, hne⟩ := serializeParameters_noToken ht l
    rw [List.flatMap_cons, List.append_assoc, serializeParameter]
    split
    · rename_i hb
      rw [List.cons_append, List.length_cons, parseParametersLoop_semicolon, dropSp_of_head (k.head_ne_sp _),
        parseKey_text hno.key, Option.bind_some, parseParameterValue_of_ne hne, Option.bind_some, ← hb]
      exact ih
    · rw [List.append_assoc, List.cons_append, List.length_cons, parseParametersLoop_semicolon,
        dropSp_of_head (k.head_ne_sp _), List.cons_append, parseKey_text (by simp; decide), Option.bind_some]
      show ((parseBareItem (serializeBareItem b ++ _)).bind fun v => parseParametersLoop _ (ps.insert k v.1) v.2) = _
      rw [parseBareItem_serialize b hno]
      exact ih

theorem length_le_serializeParameters (l : List (Key × BareItem)) :
    l.length ≤ (l.flatMap fun e => serializeParameter e.1 e.2).length := by
  induction l with
  | nil => simp
  | cons e l ih =>
    have : 0 < (serializeParameter e.1 e.2).length := by
      unfold serializeParameter
      split <;> simp
    rw [List.flatMap_cons, List.length_append, List.length_cons]
    omega

theorem parseParameters_serialize (ps : Parameters) {t : Text} (ht : Stop t) :
    parseParameters (serializeParameters ps ++ t) = some (ps, t) := by
  have h := parseParametersLoop_serialize ht ps.entries ∅
  have hlen := length_le_serializeParameters ps.entries
  rw [show IndexMap.extend ∅ ps.entries = ps from IndexMap.ofList_entries ps] at h
  refine parseParametersLoop_mono ?_ h
  rw [List.length_append]
  unfold serializeParameters
  omega

theorem NoToken.parameters (ps : Parameters) {t : Text} (ht : Stop t) : NoToken (serializeParameters ps ++ t) :=
  (serializeParameters_noToken ht ps.entries).1

/-! ### Items and inner lists -/

theorem parseItem_serialize (i : Item) {t : Text} (ht : Stop t) : parseItem (serializeItem i ++ t) = some (i, t) := by
  rw [serializeItem, List.append_assoc]
  exact parseItem_eq_some.mpr ⟨_, parseBareItem_serialize i.bareItem (NoToken.parameters i.params ht),
    parseParameters_serialize i.params ht⟩

theorem parseItemField_serialize (i : Item) : parseItemField (serializeItem i) = some i := by
  have h := parseItem_serialize i Stop.nil
  rw [List.append_nil] at h
  obtain ⟨c, s, hc, hst⟩ := serializeBareItem_head i.bareItem
  have hsp : dropSp (serializeItem i) = serializeItem i := by
    apply dropSp_of_head
    intro d hd
    rw [serializeItem, hc] at hd
    obtain rfl : c = d := by simpa using hd
    rintro rfl
    revert hst
    decide
  unfold parseItemField
  rw [hsp, h]
  rfl

theorem serializeItem_head (i : Item) : ∃ c s, serializeItem i = c :: s ∧ isItemStart c = true := by
  obtain ⟨c, s, hc, hst⟩ := serializeBareItem_head i.bareItem
  exact ⟨c, s ++ serializeParameters i.params, by rw [serializeItem, hc]; rfl, hst⟩

theorem isItemStart_ne {c : Char} (h : isItemStart c = true) : c ≠ ' ' ∧ c ≠ ')' ∧ c ≠ '(' := by
  refine ⟨?_, ?_, ?_⟩ <;>
    · rintro rfl
      revert h
      decide

theorem parseInnerListLoop_serialize {ps : Parameters} {t : Text} (ht : Stop t) : ∀ (l items : List Item) (s : Text),
    dropSp s = join [' '] (l.map serializeItem) ++ ')' :: (serializeParameters ps ++ t) →
    parseInnerListLoop (l.length + 1) items s = some (⟨items ++ l, ps⟩, t)
  | [], items, s, h => by
    rw [parseInnerListLoop_close h, parseParameters_serialize ps ht]
    simp
  | i :: l, items, s, h => by
    obtain ⟨c, s', hc, hst⟩ := serializeItem_head i
    obtain ⟨hsp, hpar, -⟩ := isItemStart_ne hst
    -- What follows the item: the closing parenthesis, or a space and the other items.
    obtain ⟨u, hu, hstop, hst', hdrop⟩ : ∃ u, dropSp s = serializeItem i ++ u ∧ Stop u ∧
        (startsWith u ' ' || startsWith u ')') = true ∧
        dropSp u = join [' '] (l.map serializeItem) ++ ')' :: (serializeParameters ps ++ t) := by
      cases l with
      | nil =>
        refine ⟨')' :: (serializeParameters ps ++ t), ?_, Stop.cons (by simp), rfl, rfl⟩
        rw [h]
        simp
      | cons j l =>
        obtain ⟨d, s'', hd, hst''⟩ := serializeItem_head j
        refine ⟨' ' :: (join [' '] ((j :: l).map serializeItem) ++ ')' :: (serializeParameters ps ++ t)), ?_,
          Stop.cons (by simp), rfl, ?_⟩
        · rw [h, List.map_cons, List.map_cons, join_cons_cons]
          simp
        · show dropSp (join [' '] ((j :: l).map serializeItem) ++ _) = _
          apply dropSp_of_head
          intro e he
          have hhead : (join [' '] ((j :: l).map serializeItem)).head? = some d := by
            cases l with
            | nil => simp [hd]
            | cons k l => simp [hd]
          rw [List.head?_append, hhead] at he
          obtain rfl : d = e := by simpa using he
          exact (isItemStart_ne hst'').1
    have hitem := parseItem_serialize i hstop
    rw [hc, List.cons_append] at hu hitem
    rw [List.length_cons, parseInnerListLoop_item hu hpar, hitem, Option.bind_some, if_pos hst',
      parseInnerListLoop_serialize ht l (items ++ [i]) u hdrop]
    simp

theorem length_le_join (sep : Text) : ∀ {l : List Text}, (∀ s ∈ l, s ≠ []) → l.length ≤ (join sep l).length
  | [], _ => by simp
  | [s], h => by
    have := List.length_pos_iff.mpr (h s (by simp))
    rw [join_singleton, List.length_singleton]
    omega
  | s :: t :: l, h => by
    have h1 := List.length_pos_iff.mpr (h s (by simp))
    have h2 := length_le_join sep fun u hu => h u (List.mem_cons_of_mem _ hu)
    rw [join_cons_cons, List.length_append, List.length_append, List.length_cons]
    omega

theorem parseItemOrInnerList_serialize (e : ListEntry) {t : Text} (ht : Stop t) :
    parseItemOrInnerList (serializeListEntry e ++ t) = some (e, t) := by
  cases e with
  | item i =>
    obtain ⟨c, s, hc, hst⟩ := serializeItem_head i
    have hne : ∀ r, serializeItem i ++ t ≠ '(' :: r := by
      intro r h
      rw [hc] at h
      cases h
      exact (isItemStart_ne hst).2.2 rfl
    rw [serializeListEntry, parseItemOrInnerList_of_ne hne, parseItem_serialize i ht]
    rfl
  | innerList l =>
    show parseItemOrInnerList ('(' :: (join [' '] (l.items.map serializeItem) ++
      ')' :: serializeParameters l.params ++ t)) = _
    have hne : ∀ s ∈ l.items.map serializeItem, s ≠ [] := by
      intro s hs
      obtain ⟨i, -, rfl⟩ := List.mem_map.mp hs
      obtain ⟨c, s', hc, -⟩ := serializeItem_head i
      rw [hc]
      simp
    have hdrop : dropSp (join [' '] (l.items.map serializeItem) ++ ')' :: serializeParameters l.params ++ t) =
        join [' '] (l.items.map serializeItem) ++ ')' :: (serializeParameters l.params ++ t) := by
      rw [List.append_assoc, List.cons_append]
      apply dropSp_of_head
      intro d hd
      cases hl : l.items with
      | nil =>
        obtain rfl : ')' = d := by simpa [hl] using hd
        decide
      | cons i is =>
        obtain ⟨c, s', hc, hst⟩ := serializeItem_head i
        have hhead : (join [' '] ((i :: is).map serializeItem)).head? = some c := by
          cases is with
          | nil => simp [hc]
          | cons j js => simp [hc]
        rw [hl, List.head?_append, hhead] at hd
        obtain rfl : c = d := by simpa using hd
        exact (isItemStart_ne hst).1
    have hlen := length_le_join [' '] hne
    rw [List.length_map] at hlen
    rw [parseItemOrInnerList_paren, parseInnerListLoop_mono ?_ (parseInnerListLoop_serialize ht l.items [] _ hdrop)]
    · rfl
    · rw [List.length_append, List.length_append]
      omega

/-! ### Lists of one entry -/

/-- Nothing but white space follows the entry of a list that has only one. -/
theorem parseListField_eq_singleton {s : Text} {e : ListEntry} :
    parseListField s = some [e] ↔ ∃ r, parseItemOrInnerList (dropSp s) = some (e, r) ∧ dropOws r = [] := by
  rw [parseListField_eq]
  by_cases hs : dropSp s = []
  · rw [hs]
    constructor
    · intro h
      cases h
    · rintro ⟨r, he, -⟩
      cases he
  · constructor
    · intro h
      cases MemberParser.reads_of_members hs h with
      | last he hr => exact ⟨_, he, hr⟩
      | more _ _ hl => exact absurd rfl hl.ne_nil
    · rintro ⟨r, he, hr⟩
      exact (MemberParser.Reads.last he hr).members

theorem dropSp_serializeListEntry (e : ListEntry) : dropSp (serializeListEntry e) = serializeListEntry e := by
  apply dropSp_of_head
  intro d hd
  cases e with
  | item i =>
    obtain ⟨c, s, hc, hst⟩ := serializeItem_head i
    rw [serializeListEntry, hc] at hd
    cases hd
    exact (isItemStart_ne hst).1
  | innerList l =>
    cases hd
    decide

theorem parseListField_entry (e : ListEntry) : parseListField (serializeListEntry e) = some [e] := by
  have h := parseItemOrInnerList_serialize e Stop.nil
  rw [List.append_nil] at h
  exact parseListField_eq_singleton.mpr ⟨[], by rw [dropSp_serializeListEntry, h], rfl⟩

/-! ### Dictionaries -/

theorem serializeMember_item (k : Key) (i : Item) : serializeMember k (.item i) =
    if i.bareItem = .boolean true then k.text ++ serializeParameters i.params else k.text ++ '=' :: serializeItem i :=
  rfl

theorem serializeMember_innerList (k : Key) (l : InnerList) :
    serializeMember k (.innerList l) = k.text ++ '=' :: serializeInnerList l := rfl

theorem parseMember_serialize (k : Key) (e : ListEntry) {t : Text} (ht : Stop t) :
    ∃ r, parseKey (serializeMember k e ++ t) = some (k, r) ∧ parseMemberValue r = some (e, t) := by
  have hval : ∀ e, parseKey (k.text ++ '=' :: (serializeListEntry e ++ t)) = some (k, '=' :: (serializeListEntry e ++ t)) ∧
      parseMemberValue ('=' :: (serializeListEntry e ++ t)) = some (e, t) := fun e =>
    ⟨parseKey_text (by simp; decide), parseItemOrInnerList_serialize e ht⟩
  cases e with
  | item i =>
    rw [serializeMember_item]
    split
    · rename_i hb
      obtain ⟨hno, hne⟩ := serializeParameters_noToken ht i.params.entries
      refine ⟨serializeParameters i.params ++ t, ?_, ?_⟩
      · rw [List.append_assoc]
        exact parseKey_text hno.key
      · have hne : ∀ r, serializeParameters i.params ++ t ≠ '=' :: r := hne
        rw [parseMemberValue_of_ne hne, parseParameters_serialize i.params ht]
        cases i
        cases hb
        rfl
    · rw [List.append_assoc]
      exact ⟨_, hval (.item i)⟩
  | innerList l =>
    rw [serializeMember_innerList, List.append_assoc]
    exact ⟨_, hval (.innerList l)⟩

theorem parseDictionaryField_member (k : Key) (e : ListEntry) :
    parseDictionaryField (serializeMember k e) = some (IndexMap.ofList [(k, e)]) := by
  obtain ⟨r, hk, he⟩ := parseMember_serialize k e Stop.nil
  rw [List.append_nil] at hk
  have hsp : dropSp (serializeMember k e) = serializeMember k e := by
    apply dropSp_of_head
    intro c hc
    cases e with
    | item i =>
      rw [serializeMember_item] at hc
      split at hc
      · exact k.head_ne_sp _ c hc
      · exact k.head_ne_sp _ c hc
    | innerList l => exact k.head_ne_sp _ c hc
  have hmembers : dictionaryMember.members (serializeMember k e) = some [(k, e)] :=
    (MemberParser.Reads.last (parseMember_eq_some.mpr ⟨r, hk, he⟩) rfl).members
  rw [parseDictionaryField_eq, hsp, hmembers]
  rfl

/-- The entry of a list is read as the value of a key alike. -/
theorem parseDictionaryField_of_parseListField {k : Key} {s : Text} {e : ListEntry} (h : parseListField s = some [e])
    (hs : dropSp s = s) : parseDictionaryField (k.text ++ '=' :: s) = some (IndexMap.ofList [(k, e)]) := by
  obtain ⟨r, he, hr⟩ := parseListField_eq_singleton.mp h
  have hk : parseKey (k.text ++ '=' :: s) = some (k, '=' :: s) := parseKey_text (by simp; decide)
  have hvalue : parseMemberValue ('=' :: s) = some (e, r) := by
    rw [parseMemberValue_equals, ← hs]
    exact he
  have hmembers : dictionaryMember.members (k.text ++ '=' :: s) = some [(k, e)] :=
    (MemberParser.Reads.last (parseMember_eq_some.mpr ⟨_, hk, hvalue⟩) hr).members
  rw [parseDictionaryField_eq, dropSp_of_head (k.head_ne_sp _), hmembers]
  rfl

end Sfv
