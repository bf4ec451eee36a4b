import HttpSig.Rust.Text

/-! Base64 with the standard alphabet. Encoding pads. One decoder takes the padding or its absence and ignores the bits
that no byte uses; the other wants the padding, and zeros for these bits. -/

namespace Rust
namespace Base64

def alphabet : Text := "ABCDEFGHIJKLMNOPQRSTUVWXYZabcdefghijklmnopqrstuvwxyz0123456789+/".toList

def encodeChar (n : Nat) : Char := alphabet.getD n '='
def decodeChar (c : Char) : Option Nat := alphabet.idxOf? c

/-- The six-bit groups of a byte string, the last one filled with zero bits. -/
def sextets : List UInt8 → List Nat
  | [] => []
  | [a] => [a.toNat / 4, a.toNat % 4 * 16]
  | [a, b] => [a.toNat / 4, a.toNat % 4 * 16 + b.toNat / 16, b.toNat % 16 * 4]
  | a :: b :: c :: bs =>
    a.toNat / 4 :: (a.toNat % 4 * 16 + b.toNat / 16) :: (b.toNat % 16 * 4 + c.toNat / 64) :: c.toNat % 64 :: sextets bs

def ofSextets : List Nat → Option (List UInt8)
  | [] => some []
  | [_] => none
  | [w, x] => some [UInt8.ofNat (w * 4 + x / 16)]
  | [w, x, y] => some [UInt8.ofNat (w * 4 + x / 16), UInt8.ofNat (x % 16 * 16 + y / 4)]
  | w :: x :: y :: z :: s => do
    let bs ← ofSextets s
    some (UInt8.ofNat (w * 4 + x / 16) :: UInt8.ofNat (x % 16 * 16 + y / 4) :: UInt8.ofNat (y % 4 * 64 + z) :: bs)

/-- How many pad characters complete `n` characters to a multiple of four. -/
def padLength (n : Nat) : Nat := (4 - n % 4) % 4

def encode (bs : List UInt8) : Text :=
  (sextets bs).map encodeChar ++ List.replicate (padLength (sextets bs).length) '='

def decode (s : Text) : Option (List UInt8) :=
  let data := s.takeWhile (· != '=')
  let pad := s.dropWhile (· != '=')
  if pad.all (· == '=') && pad.length ≤ padLength data.length then
    (data.mapM decodeChar).bind ofSextets
  else none

/-- `general_purpose::STANDARD`, which takes nothing but what encodes the bytes. -/
def decodeStandard (s : Text) : Option (List UInt8) := (decode s).filter fun bs => encode bs = s

theorem ofNat_eq_of_toNat {a : UInt8} {n : Nat} (h : n = a.toNat) : UInt8.ofNat n = a := by
  rw [h, UInt8.ofNat_toNat]

theorem ofSextets_sextets : ∀ bs : List UInt8, ofSextets (sextets bs) = some bs
  | [] => rfl
  | [a] => by
    have ha := a.toNat_lt
    rw [sextets, ofSextets, ofNat_eq_of_toNat (a := a) (by omega)]
  | [a, b] => by
    have ha := a.toNat_lt
    have hb := b.toNat_lt
    rw [sextets, ofSextets, ofNat_eq_of_toNat (a := a) (by omega), ofNat_eq_of_toNat (a := b) (by omega)]
  | a :: b :: c :: bs => by
    have ha := a.toNat_lt
    have hb := b.toNat_lt
    have hc := c.toNat_lt
    rw [sextets, ofSextets, ofSextets_sextets bs, ofNat_eq_of_toNat (a := a) (by omega),
      ofNat_eq_of_toNat (a := b) (by omega), ofNat_eq_of_toNat (a := c) (by omega)]
    rfl

theorem sextets_lt : ∀ {bs : List UInt8}, ∀ n ∈ sextets bs, n < 64
  | [], n, h => by cases h
  | [a], n, h => by
    have ha := a.toNat_lt
    simp only [sextets, List.mem_cons, List.not_mem_nil, or_false] at h
    omega
  | [a, b], n, h => by
    have ha := a.toNat_lt
    have hb := b.toNat_lt
    simp only [sextets, List.mem_cons, List.not_mem_nil, or_false] at h
    omega
  | a :: b :: c :: bs, n, h => by
    have ha := a.toNat_lt
    have hb := b.toNat_lt
    have hc := c.toNat_lt
    simp only [sextets, List.mem_cons] at h
    rcases h with h | h | h | h | h
    · omega
    · omega
    · omega
    · omega
    · exact sextets_lt n h

/-- The characters that an encoded text is made of. -/
def isBase64Char (c : Char) : Bool := alphabet.contains c || c == '='

theorem alphabet_eq : alphabet = ['A', 'B', 'C', 'D', 'E', 'F', 'G', 'H', 'I', 'J', 'K', 'L', 'M', 'N', 'O', 'P', 'Q', 'R',
    'S', 'T', 'U', 'V', 'W', 'X', 'Y', 'Z', 'a', 'b', 'c', 'd', 'e', 'f', 'g', 'h', 'i', 'j', 'k', 'l', 'm', 'n', 'o', 'p',
    'q', 'r', 's', 't', 'u', 'v', 'w', 'x', 'y', 'z', '0', '1', '2', '3', '4', '5', '6', '7', '8', '9', '+', '/'] :=
  String.toList_ofList

/-- The table of the alphabet, read through once. -/
theorem encodeChar_spec : ∀ n < 64, decodeChar (encodeChar n) = some n ∧ encodeChar n ≠ '=' ∧
    isBase64Char (encodeChar n) = true := by
  simp only [decodeChar, encodeChar, isBase64Char, alphabet_eq]
  decide

theorem decodeChar_encodeChar (n : Nat) (h : n < 64) : decodeChar (encodeChar n) = some n := (encodeChar_spec n h).1

theorem encodeChar_ne_pad (n : Nat) (h : n < 64) : encodeChar n ≠ '=' := (encodeChar_spec n h).2.1

theorem mapM_decodeChar : ∀ {l : List Nat}, (∀ n ∈ l, n < 64) → (l.map encodeChar).mapM decodeChar = some l
  | [], _ => rfl
  | n :: l, h => by
    rw [List.map_cons, List.mapM_cons, decodeChar_encodeChar n (h n (by simp)),
      mapM_decodeChar fun m hm => h m (List.mem_cons_of_mem _ hm)]
    rfl

theorem decode_encode (bs : List UInt8) : decode (encode bs) = some bs := by
  have hdata : ∀ c ∈ (sextets bs).map encodeChar, (c != '=') = true := by
    intro c hc
    obtain ⟨n, hn, rfl⟩ := List.mem_map.mp hc
    simpa using encodeChar_ne_pad n (sextets_lt n hn)
  have hpad : ∀ c ∈ (List.replicate (padLength (sextets bs).length) '=').head?, (c != '=') = false := by
    intro c hc
    have := List.mem_of_mem_head? hc
    simp [List.eq_of_mem_replicate this]
  unfold decode encode
  rw [takeWhile_append_of_all hdata hpad, dropWhile_append_of_all hdata hpad]
  simp [mapM_decodeChar fun n hn => sextets_lt n hn, ofSextets_sextets]

theorem decodeStandard_eq_some {s : Text} {bs : List UInt8} : decodeStandard s = some bs ↔ s = encode bs := by
  rw [decodeStandard, Option.filter_eq_some_iff, decide_eq_true_eq]
  constructor
  · rintro ⟨-, h⟩
    exact h.symm
  · rintro rfl
    exact ⟨decode_encode bs, rfl⟩

theorem isBase64Char_of_mem_encode {bs : List UInt8} : ∀ c ∈ encode bs, isBase64Char c = true := by
  intro c hc
  rw [encode, List.mem_append] at hc
  rcases hc with hc | hc
  · obtain ⟨n, hn, rfl⟩ := List.mem_map.mp hc
    exact (encodeChar_spec n (sextets_lt n hn)).2.2
  · rw [List.eq_of_mem_replicate hc]
    exact Bool.or_true _

end Base64
end Rust
