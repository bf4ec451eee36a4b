import HttpSig.Sfv.Types

/-! HTTP messages as the `http` crate presents them: header maps, methods, URIs and status codes. Every
type carries what the crate guarantees of its values. -/

namespace Http
open Rust

/-! ### Header fields -/

/-- A token character in lower case. -/
def isHeaderNameChar (c : Char) : Bool := Sfv.isTchar c && !c.isUpper

structure HeaderName where
  text : Text
  valid : (!text.isEmpty && text.all isHeaderNameChar) = true
  deriving DecidableEq

/-- `HeaderName::from_str`: names are kept in lower case. -/
def HeaderName.fromStr (s : Text) : Option HeaderName :=
  if h : (!(toAsciiLowercase s).isEmpty && (toAsciiLowercase s).all isHeaderNameChar) = true then
    some ⟨toAsciiLowercase s, h⟩
  else none

/-- A byte a header value may hold: visible ASCII, SP, HTAB or anything above DEL. -/
def isValidByte (b : UInt8) : Bool := (0x20 ≤ b && b != 0x7f) || b == 0x09

def isVisibleAscii (b : UInt8) : Bool := (0x20 ≤ b && b < 0x7f) || b == 0x09

structure HeaderValue where
  bytes : List UInt8
  valid : bytes.all isValidByte = true
  deriving DecidableEq

/-- `HeaderValue::to_str`: the value when all of it is visible ASCII. -/
def HeaderValue.toStr (v : HeaderValue) : Option Text :=
  if v.bytes.all isVisibleAscii then some (v.bytes.map fun b => Char.ofNat b.toNat) else none

/-- `HeaderValue::from_str`. -/
def HeaderValue.fromStr (s : Text) : Option HeaderValue :=
  if h : (utf8Bytes s).all isValidByte = true then some ⟨utf8Bytes s, h⟩ else none

/-- The header lines in the order they were appended. -/
structure HeaderMap where
  entries : List (HeaderName × HeaderValue)
  deriving DecidableEq

namespace HeaderMap

/-- `HeaderMap::get_all`: the lines of a field, its name compared without regard to case. -/
def getAll (m : HeaderMap) (name : Text) : List HeaderValue :=
  (m.entries.filter fun e => e.1.text = toAsciiLowercase name).map Prod.snd

def containsKey (m : HeaderMap) (name : Text) : Bool := m.entries.any fun e => e.1.text = toAsciiLowercase name

/-- `HeaderMap::get`: the first line of a field. -/
def get (m : HeaderMap) (name : Text) : Option HeaderValue := (m.getAll name).head?

def append (m : HeaderMap) (name : HeaderName) (value : HeaderValue) : HeaderMap := ⟨m.entries ++ [(name, value)]⟩

/-- The lines after `insert`: the first line of the field is replaced and its other lines are dropped. -/
def insertLine (name : HeaderName) (value : HeaderValue) : List (HeaderName × HeaderValue) → List (HeaderName × HeaderValue)
  | [] => [(name, value)]
  | e :: l => if e.1 = name then (name, value) :: l.filter (fun e => e.1 ≠ name) else e :: insertLine name value l

/-- `HeaderMap::insert`: one line for the field in place of all it had. -/
def insert (m : HeaderMap) (name : HeaderName) (value : HeaderValue) : HeaderMap := ⟨insertLine name value m.entries⟩

end HeaderMap

/-! ### Methods, URIs and status codes -/

structure Method where
  text : Text
  valid : (!text.isEmpty && text.all Sfv.isTchar) = true
  deriving DecidableEq

def Method.CONNECT : Method := ⟨"CONNECT".toList, by decide⟩
def Method.OPTIONS : Method := ⟨"OPTIONS".toList, by decide⟩

/-- What a URI is made of: no control character, no space, no fragment. -/
def isUriChar (c : Char) : Bool := 0x20 < c.toNat && c != '#'

structure UriText where
  text : Text
  valid : text.all isUriChar = true
  deriving DecidableEq

/-- A URI by its parts; the path as it was written, empty when it was left out. -/
structure Uri where
  scheme : Option UriText
  authority : Option UriText
  rawPath : UriText
  rawQuery : Option UriText
  deriving DecidableEq

namespace Uri

/-- `PathAndQuery` holds no text. -/
def noPathAndQuery (u : Uri) : Bool := u.rawPath.text.isEmpty && u.rawQuery.isNone

/-- `PathAndQuery::path`: an empty path reads as the root. -/
def pathOrRoot (u : Uri) : Text := if u.rawPath.text.isEmpty then ['/'] else u.rawPath.text

/-- `Uri::path`: empty only when the URI is a mere authority. -/
def path (u : Uri) : Text := if u.noPathAndQuery && u.scheme.isNone then [] else u.pathOrRoot

def query (u : Uri) : Option Text := u.rawQuery.map UriText.text

/-- A query as it follows its path. -/
def queryText (q : Option UriText) : Text :=
  match q with
  | some q => '?' :: q.text
  | none => []

/-- `Display for PathAndQuery`: what does not start at the root is shown from it. -/
def pathAndQueryText (u : Uri) : Text :=
  let data := u.rawPath.text ++ queryText u.rawQuery
  match data with
  | [] => ['/']
  | c :: _ => if c == '/' || c == '*' then data else '/' :: data

/-- `Uri::path_and_query`, displayed: none for a mere authority. -/
def pathAndQuery (u : Uri) : Option Text :=
  if u.scheme.isSome || u.authority.isNone then some u.pathAndQueryText else none

/-- `Display for Uri`. -/
def toText (u : Uri) : Text :=
  (match u.scheme with
    | some s => s.text ++ "://".toList
    | none => []) ++
  (match u.authority with
    | some a => a.text
    | none => []) ++
  u.path ++ queryText u.rawQuery

end Uri

structure StatusCode where
  code : Nat
  valid : 100 ≤ code ∧ code ≤ 999
  deriving DecidableEq

/-- `StatusCode::as_str`. -/
def StatusCode.asStr (s : StatusCode) : Text := natText s.code

/-! ### Messages -/

structure Request (β : Type) where
  method : Method
  uri : Uri
  headers : HeaderMap
  body : β

structure Response (β : Type) where
  status : StatusCode
  headers : HeaderMap
  body : β

/-! ### Reading header values -/

/-- A character of visible ASCII, or HTAB. -/
def isTextChar (c : Char) : Bool := (0x20 ≤ c.toNat && c.toNat < 0x7f) || c == '\t'

theorem isTextChar_iff {c : Char} : isTextChar c = true ↔ (0x20 ≤ c.toNat ∧ c.toNat < 0x7f) ∨ c.toNat = 9 := by
  simp only [isTextChar, Bool.or_eq_true, Bool.and_eq_true, decide_eq_true_eq, beq_iff_eq]
  exact or_congr_right ⟨fun h => h ▸ rfl, fun h => Char.toNat_inj.mp (h.trans (by decide))⟩

theorem isVisibleAscii_iff {b : UInt8} :
    isVisibleAscii b = true ↔ (0x20 ≤ b.toNat ∧ b.toNat < 0x7f) ∨ b.toNat = 9 := by
  simp only [isVisibleAscii, Bool.or_eq_true, Bool.and_eq_true, decide_eq_true_eq, beq_iff_eq, UInt8.le_iff_toNat_le,
    UInt8.lt_iff_toNat_lt]
  exact or_congr_right UInt8.toNat_inj.symm

theorem isValidByte_of_isVisibleAscii {b : UInt8} (h : isVisibleAscii b = true) : isValidByte b = true := by
  simp only [isVisibleAscii, isValidByte, Bool.or_eq_true, Bool.and_eq_true, decide_eq_true_eq, beq_iff_eq,
    bne_iff_ne] at h ⊢
  rcases h with ⟨h₁, h₂⟩ | h
  · exact Or.inl ⟨h₁, UInt8.ne_of_lt h₂⟩
  · exact Or.inr h

theorem lt_of_isTextChar {c : Char} (h : isTextChar c = true) : c.toNat < 128 := by
  have := isTextChar_iff.mp h
  omega

/-- The texts of header values and their bytes. -/
theorem utf8Bytes_map_ofNat {bs : List UInt8} (h : ∀ b ∈ bs, isVisibleAscii b = true) :
    utf8Bytes (bs.map fun b => Char.ofNat b.toNat) = bs := by
  have hnat : ∀ b ∈ bs, (Char.ofNat b.toNat).toNat = b.toNat := fun b hb =>
    toNat_ofNat_of_lt (by have := isVisibleAscii_iff.mp (h b hb); omega)
  rw [utf8Bytes_of_ascii, List.map_map]
  · conv_rhs => rw [← List.map_id bs]
    refine List.map_congr_left fun b hb => ?_
    rw [Function.comp_apply, hnat b hb, UInt8.ofNat_toNat]
    rfl
  · intro c hc
    obtain ⟨b, hb, rfl⟩ := List.mem_map.mp hc
    rw [hnat b hb]
    have := isVisibleAscii_iff.mp (h b hb)
    omega

/-- A value reads as a text when the text is visible ASCII and the value its encoding. -/
theorem HeaderValue.toStr_eq_some {v : HeaderValue} {s : Text} :
    v.toStr = some s ↔ v.bytes = utf8Bytes s ∧ ∀ c ∈ s, isTextChar c = true := by
  unfold toStr
  constructor
  · intro h
    split at h
    · rename_i hv
      have hv := List.all_eq_true.mp hv
      cases h
      refine ⟨(utf8Bytes_map_ofNat hv).symm, ?_⟩
      intro c hc
      obtain ⟨b, hb, rfl⟩ := List.mem_map.mp hc
      have := isVisibleAscii_iff.mp (hv b hb)
      rw [isTextChar_iff, toNat_ofNat_of_lt (by omega)]
      exact this
    · cases h
  · rintro ⟨hb, hc⟩
    have hv : ∀ b ∈ v.bytes, isVisibleAscii b = true := by
      rw [hb, utf8Bytes_of_ascii fun c h => lt_of_isTextChar (hc c h)]
      intro b hm
      obtain ⟨c, hcm, rfl⟩ := List.mem_map.mp hm
      have := isTextChar_iff.mp (hc c hcm)
      rw [isVisibleAscii_iff, UInt8.toNat_ofNat_of_lt' (by show c.toNat < 256; omega)]
      exact this
    rw [if_pos (List.all_eq_true.mpr hv), Option.some.injEq]
    exact utf8Bytes_injective ((utf8Bytes_map_ofNat hv).trans hb)

theorem HeaderValue.fromStr_eq_some {v : HeaderValue} {s : Text} : fromStr s = some v ↔ v.bytes = utf8Bytes s := by
  unfold fromStr
  split
  · obtain ⟨bs, h⟩ := v
    simp [eq_comm]
  · rename_i h
    simp only [reduceCtorEq, false_iff]
    intro hb
    exact h (hb ▸ v.valid)

/-- What is visible ASCII becomes a header value that reads as it was. -/
theorem HeaderValue.fromStr_of_text {s : Text} (h : ∀ c ∈ s, isTextChar c = true) :
    ∃ v, fromStr s = some v ∧ v.toStr = some s := by
  have hv : (utf8Bytes s).all isValidByte = true := by
    rw [List.all_eq_true, utf8Bytes_of_ascii fun c hc => lt_of_isTextChar (h c hc)]
    intro b hb
    obtain ⟨c, hc, rfl⟩ := List.mem_map.mp hb
    have := isTextChar_iff.mp (h c hc)
    apply isValidByte_of_isVisibleAscii
    rw [isVisibleAscii_iff, UInt8.toNat_ofNat_of_lt' (by show c.toNat < 256; omega)]
    exact this
  exact ⟨⟨_, hv⟩, fromStr_eq_some.mpr rfl, toStr_eq_some.mpr ⟨rfl, h⟩⟩

end Http
