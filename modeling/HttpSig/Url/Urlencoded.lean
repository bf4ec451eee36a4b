import HttpSig.Rust.Text

/-! `application/x-www-form-urlencoded`: the parameters of a query and the percent-encoded form of a text. Decoding never
fails: bytes that are no UTF-8 read as the replacement character. -/

namespace Url
open Rust

/-! ### UTF-8 with replacement -/

def isContinuation (b : UInt8) : Bool := 0x80 ≤ b && b ≤ 0xbf

/-- The least and the greatest byte that may follow a first byte, and how many bytes do. -/
def following (b : UInt8) : UInt8 × UInt8 × Nat :=
  if 0xc2 ≤ b && b ≤ 0xdf then (0x80, 0xbf, 1)
  else if b == 0xe0 then (0xa0, 0xbf, 2)
  else if b == 0xed then (0x80, 0x9f, 2)
  else if 0xe1 ≤ b && b ≤ 0xef then (0x80, 0xbf, 2)
  else if b == 0xf0 then (0x90, 0xbf, 3)
  else if 0xf1 ≤ b && b ≤ 0xf3 then (0x80, 0xbf, 3)
  else if b == 0xf4 then (0x80, 0x8f, 3)
  else (0x80, 0xbf, 0)

/-- How many bytes after a first byte go with it when they are not a whole character. -/
def brokenLength (b : UInt8) (bs : List UInt8) : Nat :=
  let (low, high, n) := following b
  match bs.take n with
  | [] => 0
  | c :: cs => if low ≤ c && c ≤ high then (cs.takeWhile isContinuation).length + 1 else 0

/-- The first character of a byte string. -/
def decodeChar? (bs : List UInt8) : Option Char := bs.toByteArray.utf8DecodeChar? 0

/-- Decoding with replacement, after bytes that are still to be skipped. -/
def utf8LossyFrom : Nat → List UInt8 → Text
  | _, [] => []
  | n + 1, _ :: bs => utf8LossyFrom n bs
  | 0, b :: bs =>
    match decodeChar? (b :: bs) with
    | some c => c :: utf8LossyFrom (c.utf8Size - 1) bs
    | none => '\uFFFD' :: utf8LossyFrom (brokenLength b bs) bs

def utf8Lossy (bs : List UInt8) : Text := utf8LossyFrom 0 bs

theorem utf8LossyFrom_append : ∀ (l bs : List UInt8), utf8LossyFrom l.length (l ++ bs) = utf8Lossy bs
  | [], _ => rfl
  | _ :: l, bs => utf8LossyFrom_append l bs

/-- What is UTF-8 is decoded without replacement. -/
theorem utf8Lossy_utf8Bytes (t : Text) : utf8Lossy (utf8Bytes t) = t := by
  induction t with
  | nil => rfl
  | cons c t ih =>
    have hbytes : utf8Bytes (c :: t) = String.utf8EncodeChar c ++ utf8Bytes t := rfl
    have hdecode : decodeChar? (String.utf8EncodeChar c ++ utf8Bytes t) = some c := by
      rw [decodeChar?, List.toByteArray_append]
      exact ByteArray.utf8DecodeChar?_utf8EncodeChar_append
    obtain ⟨b, bs, hbs⟩ := List.exists_cons_of_length_pos
      ((String.length_utf8EncodeChar c).symm ▸ c.utf8Size_pos : 0 < (String.utf8EncodeChar c).length)
    have hlength : c.utf8Size - 1 = bs.length := by
      rw [← String.length_utf8EncodeChar, hbs]
      rfl
    rw [hbs, List.cons_append] at hdecode
    rw [hbytes, hbs, List.cons_append, utf8Lossy, utf8LossyFrom, hdecode]
    dsimp only
    rw [hlength, utf8LossyFrom_append, ih]

/-! ### Percent-encoding -/

def hexDigits : Text := "0123456789ABCDEF".toList

def hexDigit (n : Nat) : Char := hexDigits.getD n '0'
def hexValue (c : Char) : Option Nat := hexDigits.idxOf? c.toUpper

theorem hexValue_hexDigit {n : Nat} (h : n < 16) : hexValue (hexDigit n) = some n := by
  have hall : ∀ m ∈ List.range 16, hexValue (hexDigit m) = some m := by decide
  exact hall n (List.mem_range.mpr h)

/-- The bytes of a text with `+` for a space and two hexadecimal digits after `%` for a byte; any other `%` is itself. -/
def decodeBytes : Text → List UInt8
  | [] => []
  | '%' :: a :: b :: s =>
    match hexValue a, hexValue b with
    | some x, some y => UInt8.ofNat (x * 16 + y) :: decodeBytes s
    | _, _ => 0x25 :: decodeBytes (a :: b :: s)
  | c :: s => (if c = '+' then [0x20] else String.utf8EncodeChar c) ++ decodeBytes s

def decode (s : Text) : Text := utf8Lossy (decodeBytes s)

/-- The characters that stand for themselves. -/
def isUnescaped (c : Char) : Bool := c.isAlphanum || c == '*' || c == '-' || c == '.' || c == '_'

def encodeByte (b : UInt8) : Text :=
  if isUnescaped (Char.ofNat b.toNat) then [Char.ofNat b.toNat]
  else ['%', hexDigit (b.toNat / 16), hexDigit (b.toNat % 16)]

/-- The percent-encoded form of a text. -/
def encode (t : Text) : Text := (utf8Bytes t).flatMap encodeByte

theorem decodeBytes_cons {c : Char} (h : c ≠ '%') (s : Text) :
    decodeBytes (c :: s) = (if c = '+' then [0x20] else String.utf8EncodeChar c) ++ decodeBytes s := by
  rw [decodeBytes]
  rintro a b s' rfl
  exact absurd rfl h

theorem lt_of_isUnescaped {c : Char} (h : isUnescaped c = true) : c.toNat < 128 ∧ c ≠ '%' ∧ c ≠ '+' := by
  refine ⟨?_, ?_, ?_⟩
  · have halphanum : c.isAlphanum = true ↔ c.isAlpha = true ∨ c.isDigit = true := Bool.or_eq_true_iff
    simp only [isUnescaped, Bool.or_eq_true, halphanum, isAlpha_iff, Char.isDigit_iff_toNat, beq_iff_eq] at h
    rcases h with ((((h | h) | rfl) | rfl) | rfl) | rfl
    · omega
    · exact Nat.lt_of_le_of_lt h.2 (by decide)
    all_goals decide
  · rintro rfl
    cases h
  · rintro rfl
    cases h

theorem decodeBytes_encodeByte (b : UInt8) (s : Text) : decodeBytes (encodeByte b ++ s) = b :: decodeBytes s := by
  unfold encodeByte
  split
  · rename_i h
    obtain ⟨hlt, hpercent, hplus⟩ := lt_of_isUnescaped h
    have hnat : (Char.ofNat b.toNat).toNat = b.toNat := toNat_ofNat_of_lt (by have := b.toNat_lt; omega)
    rw [List.singleton_append, decodeBytes_cons hpercent, if_neg hplus, utf8EncodeChar_of_lt hlt, hnat, UInt8.ofNat_toNat]
    rfl
  · have hb := b.toNat_lt
    show (match hexValue (hexDigit (b.toNat / 16)), hexValue (hexDigit (b.toNat % 16)) with
      | some x, some y => UInt8.ofNat (x * 16 + y) :: decodeBytes s
      | _, _ => 0x25 :: decodeBytes (_ :: _ :: s)) = _
    rw [hexValue_hexDigit (by omega), hexValue_hexDigit (by omega)]
    dsimp only
    rw [Nat.div_add_mod' b.toNat 16, UInt8.ofNat_toNat]

theorem decodeBytes_encode (t : Text) : decodeBytes (encode t) = utf8Bytes t := by
  have hbytes : ∀ bs : List UInt8, decodeBytes (bs.flatMap encodeByte) = bs := by
    intro bs
    induction bs with
    | nil => rfl
    | cons b bs ih => rw [List.flatMap_cons, decodeBytes_encodeByte, ih]
  exact hbytes (utf8Bytes t)

@[simp] theorem decode_encode (t : Text) : decode (encode t) = t := by
  rw [decode, decodeBytes_encode, utf8Lossy_utf8Bytes]

theorem mem_encodeByte {c : Char} {b : UInt8} (h : c ∈ encodeByte b) : c = '%' ∨ isUnescaped c = true := by
  have hdigit : ∀ m ∈ List.range 16, isUnescaped (hexDigit m) = true := by decide
  have hb := b.toNat_lt
  unfold encodeByte at h
  split at h
  · rename_i hc
    rw [List.mem_singleton.mp h]
    exact Or.inr hc
  · simp only [List.mem_cons, List.not_mem_nil, or_false] at h
    rcases h with rfl | rfl | rfl
    · exact Or.inl rfl
    · exact Or.inr (hdigit _ (List.mem_range.mpr (by omega)))
    · exact Or.inr (hdigit _ (List.mem_range.mpr (by omega)))

theorem mem_encode {c : Char} {t : Text} (h : c ∈ encode t) : c = '%' ∨ isUnescaped c = true := by
  obtain ⟨b, -, hc⟩ := List.mem_flatMap.mp h
  exact mem_encodeByte hc

/-! ### Parameters -/

/-- What stands between the ampersands of a query. -/
def parts (q : Text) : List Text := (q.splitOn '&').filter fun p => !p.isEmpty

/-- A name and, behind the first equals sign, a value. -/
def splitPart (part : Text) : Text × Text := (splitOnce '=' part).getD (part, [])

/-- The parameters of a query. -/
def parse (q : Text) : List (Text × Text) :=
  (parts q).map fun part => (decode (splitPart part).1, decode (splitPart part).2)

example : parse "a=x+y&&fa%C3%A7ade%22=%zz%ff&ok".toList =
    [("a".toList, "x y".toList), ("façade\"".toList, "%zz\uFFFD".toList), ("ok".toList, [])] := by decide

/-- A parameter in percent-encoded form. -/
def showParam (p : Text × Text) : Text := encode p.1 ++ '=' :: encode p.2

/-- A query with all its parameters in percent-encoded form. -/
def IsEncoded (q : Text) : Prop := ∀ part ∈ parts q, ∃ p, part = showParam p

theorem splitPart_showParam (p : Text × Text) : splitPart (showParam p) = (encode p.1, encode p.2) := by
  have hequals : '=' ∉ encode p.1 := by
    intro h
    rcases mem_encode h with h | h <;> cases h
  rw [splitPart, showParam, splitOnce_append hequals]
  rfl

/-- A query in percent-encoded form is given by its parameters. -/
theorem parts_eq_of_isEncoded {q : Text} (h : IsEncoded q) : parts q = (parse q).map showParam := by
  rw [parse, List.map_map]
  conv_lhs => rw [← List.map_id (parts q)]
  refine List.map_congr_left fun part hpart => ?_
  obtain ⟨p, rfl⟩ := h part hpart
  rw [Function.comp_apply, splitPart_showParam, decode_encode, decode_encode]
  rfl

end Url
