import HttpSig.Rust.Base64
import HttpSig.Sfv.Types

/-! Serializing structured field values (RFC 9651, section 4.1). -/

namespace Sfv
open Rust

def intText (i : Int) : Text := if i < 0 then '-' :: natText i.natAbs else natText i.natAbs

/-- The fraction of a decimal: at least one digit, no trailing zero after it. -/
def fractionText (n : Nat) : Text :=
  let digit (k : Nat) : Char := Nat.digitChar (n / 10 ^ k % 10)
  if n % 100 = 0 then [digit 2] else if n % 10 = 0 then [digit 2, digit 1] else [digit 2, digit 1, digit 0]

def serializeDecimal (d : Decimal) : Text :=
  let n := d.thousandths.natAbs
  let abs := natText (n / 1000) ++ '.' :: fractionText (n % 1000)
  if d.thousandths < 0 then '-' :: abs else abs

def escapeChar (c : Char) : Text := if c == '"' || c == '\\' then ['\\', c] else [c]

def serializeString (s : Text) : Text := '"' :: s.flatMap escapeChar ++ ['"']

def hexDigit (n : Nat) : Char := "0123456789abcdef".toList.getD n '0'

def percentByte (b : UInt8) : Text :=
  if b == 0x25 || b == 0x22 || b < 0x20 || 0x7e < b then ['%', hexDigit (b.toNat / 16), hexDigit (b.toNat % 16)]
  else [Char.ofNat b.toNat]

def serializeDisplayString (s : Text) : Text := '%' :: '"' :: (utf8Bytes s).flatMap percentByte ++ ['"']

def serializeBareItem : BareItem → Text
  | .integer i => intText i.val
  | .decimal d => serializeDecimal d
  | .string s => serializeString s.text
  | .token t => t.text
  | .byteSequence bs => ':' :: Base64.encode bs ++ [':']
  | .boolean b => ['?', if b then '1' else '0']
  | .date i => '@' :: intText i.val
  | .displayString s => serializeDisplayString s

def serializeParameter (k : Key) (b : BareItem) : Text :=
  if b = .boolean true then ';' :: k.text else ';' :: k.text ++ '=' :: serializeBareItem b

def serializeParameters (ps : Parameters) : Text := ps.entries.flatMap fun e => serializeParameter e.1 e.2

def serializeItem (i : Item) : Text := serializeBareItem i.bareItem ++ serializeParameters i.params

def serializeInnerList (l : InnerList) : Text :=
  '(' :: join [' '] (l.items.map serializeItem) ++ ')' :: serializeParameters l.params

def serializeListEntry : ListEntry → Text
  | .item i => serializeItem i
  | .innerList l => serializeInnerList l

/-- A list: an empty one has no serialization. -/
def serializeList (l : SfList) : Option Text :=
  if l.isEmpty then none else some (join [',', ' '] (l.map serializeListEntry))

theorem serializeList_singleton (e : ListEntry) : serializeList [e] = some (serializeListEntry e) := by
  simp [serializeList]

def serializeMember (k : Key) : ListEntry → Text
  | .item i =>
    if i.bareItem = .boolean true then k.text ++ serializeParameters i.params
    else k.text ++ '=' :: serializeItem i
  | .innerList l => k.text ++ '=' :: serializeInnerList l

/-- A dictionary: an empty one has no serialization. -/
def serializeDictionary (d : Dictionary) : Option Text :=
  if d.isEmpty then none else some (join [',', ' '] (d.entries.map fun e => serializeMember e.1 e.2))

end Sfv
