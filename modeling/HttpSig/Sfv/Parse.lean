import HttpSig.Rust.Base64
import HttpSig.Sfv.Types

/-! Parsing structured field values (RFC 9651, section 4.2). A parser takes the input and gives a value
with the rest of the input, or fails.

The loops take a fuel: each round consumes a character, so one more than the length of the input is
enough (the `_fuel` lemmas of `Sfv/Extend.lean`). -/

namespace Sfv
open Rust

def isOws (c : Char) : Bool := c == ' ' || c == '\t'

def dropSp (s : Text) : Text := s.dropWhile (· == ' ')
def dropOws (s : Text) : Text := s.dropWhile isOws

def parseKey (s : Text) : Option (Key × Text) :=
  if h : isKey (s.takeWhile isKeyChar) = true then some (⟨_, h⟩, s.dropWhile isKeyChar) else none

/-! ### Bare items -/

def integerOf (sign : Int) (whole : Text) : Option BareItem :=
  if 15 < whole.length then none
  else (Integer.ofInt? (sign * Nat.ofDigitChars 10 whole 0)).map .integer

def decimalOf (sign : Int) (whole fraction : Text) : Option BareItem :=
  if 12 < whole.length || fraction.isEmpty || 3 < fraction.length then none
  else
    let n := Nat.ofDigitChars 10 whole 0 * 1000 + Nat.ofDigitChars 10 fraction 0 * 10 ^ (3 - fraction.length)
    (Decimal.ofThousandths? (sign * n)).map .decimal

/-- A number after its sign. -/
def parseUnsigned (sign : Int) (s : Text) : Option (BareItem × Text) :=
  let whole := s.takeWhile Char.isDigit
  if whole.isEmpty then none else
    match s.dropWhile Char.isDigit with
    | '.' :: rest =>
      (decimalOf sign whole (rest.takeWhile Char.isDigit)).map fun b => (b, rest.dropWhile Char.isDigit)
    | rest => (integerOf sign whole).map fun b => (b, rest)

def parseNumber : Text → Option (BareItem × Text)
  | '-' :: s => parseUnsigned (-1) s
  | s => parseUnsigned 1 s

/-- The characters of a string after its opening quote. -/
def parseStringBody : Text → Option (Text × Text)
  | [] => none
  | '"' :: s => some ([], s)
  | '\\' :: c :: s => if c == '"' || c == '\\' then (parseStringBody s).map fun (t, r) => (c :: t, r) else none
  | c :: s => if isPrintable c && c != '\\' then (parseStringBody s).map fun (t, r) => (c :: t, r) else none

def SfString.ofText? (t : Text) : Option SfString :=
  if h : t.all isPrintable = true then some ⟨t, h⟩ else none

def parseString (s : Text) : Option (BareItem × Text) := do
  let (t, r) ← parseStringBody s
  let str ← SfString.ofText? t
  some (.string str, r)

def parseToken (s : Text) : Option (BareItem × Text) :=
  if h : isToken (s.takeWhile isTokenChar) = true then some (.token ⟨_, h⟩, s.dropWhile isTokenChar) else none

/-- A byte sequence after its opening colon. -/
def parseByteSequence (s : Text) : Option (BareItem × Text) :=
  match s.dropWhile (· != ':') with
  | ':' :: r => (Base64.decode (s.takeWhile (· != ':'))).map fun bs => (.byteSequence bs, r)
  | _ => none

/-- A boolean after its question mark. -/
def parseBoolean : Text → Option (BareItem × Text)
  | '1' :: s => some (.boolean true, s)
  | '0' :: s => some (.boolean false, s)
  | _ => none

/-- A date after its at sign: an integer, not a decimal. -/
def parseDate (s : Text) : Option (BareItem × Text) :=
  match parseNumber s with
  | some (.integer i, r) => some (.date i, r)
  | _ => none

def hexValue (c : Char) : Option Nat := "0123456789abcdef".toList.idxOf? c

/-- The bytes of a display string after its opening quote. -/
def parseDisplayBody : Text → Option (List UInt8 × Text)
  | [] => none
  | '"' :: s => some ([], s)
  | '%' :: a :: b :: s => do
    let x ← hexValue a
    let y ← hexValue b
    let (bs, r) ← parseDisplayBody s
    some (UInt8.ofNat (x * 16 + y) :: bs, r)
  | c :: s => if isPrintable c && c != '%' then (parseDisplayBody s).map fun (bs, r) => (UInt8.ofNat c.toNat :: bs, r)
    else none

/-- A display string after its percent sign. -/
def parseDisplayString : Text → Option (BareItem × Text)
  | '"' :: s => do
    let (bs, r) ← parseDisplayBody s
    let t ← fromUtf8 bs
    some (.displayString t, r)
  | _ => none

def parseBareItem : Text → Option (BareItem × Text)
  | [] => none
  | c :: s =>
    if c == '-' || c.isDigit then parseNumber (c :: s)
    else if c == '"' then parseString s
    else if isTokenStart c then parseToken (c :: s)
    else if c == ':' then parseByteSequence s
    else if c == '?' then parseBoolean s
    else if c == '@' then parseDate s
    else if c == '%' then parseDisplayString s
    else none

/-! ### Parameters and items -/

/-- The value of a parameter after its key: true when there is none. -/
def parseParameterValue : Text → Option (BareItem × Text)
  | '=' :: s => parseBareItem s
  | s => some (.boolean true, s)

def parseParametersLoop : Nat → Parameters → Text → Option (Parameters × Text)
  | 0, _, _ => none
  | n + 1, ps, ';' :: s => do
    let (k, r) ← parseKey (dropSp s)
    let (b, r) ← parseParameterValue r
    parseParametersLoop n (ps.insert k b) r
  | _ + 1, ps, s => some (ps, s)

def parseParameters (s : Text) : Option (Parameters × Text) := parseParametersLoop (s.length + 1) ∅ s

def parseItem (s : Text) : Option (Item × Text) := do
  let (b, r) ← parseBareItem s
  let (ps, r) ← parseParameters r
  some (⟨b, ps⟩, r)

/-- The rest of an inner list after its opening parenthesis. -/
def parseInnerListLoop : Nat → List Item → Text → Option (InnerList × Text)
  | 0, _, _ => none
  | n + 1, items, s =>
    match dropSp s with
    | [] => none
    | ')' :: r => do
      let (ps, r) ← parseParameters r
      some (⟨items, ps⟩, r)
    | c :: r => do
      let (i, r) ← parseItem (c :: r)
      if startsWith r ' ' || startsWith r ')' then parseInnerListLoop n (items ++ [i]) r else none

def parseItemOrInnerList : Text → Option (ListEntry × Text)
  | '(' :: s => (parseInnerListLoop (s.length + 1) [] s).map fun (l, r) => (.innerList l, r)
  | s => (parseItem s).map fun (i, r) => (.item i, r)

/-! ### Lists and dictionaries -/

/-- What stands between two members: a comma with optional white space around it, and a member after it. -/
def parseSeparator (s : Text) : Option Text :=
  match dropOws s with
  | ',' :: r => if (dropOws r).isEmpty then none else some (dropOws r)
  | _ => none

def parseListLoop : Nat → SfList → Text → Option SfList
  | 0, _, _ => none
  | _ + 1, l, [] => some l
  | n + 1, l, s => do
    let (e, r) ← parseItemOrInnerList s
    if (dropOws r).isEmpty then some (l ++ [e]) else do
      let r ← parseSeparator r
      parseListLoop n (l ++ [e]) r

/-- The value of a dictionary member after its key. -/
def parseMemberValue : Text → Option (ListEntry × Text)
  | '=' :: s => parseItemOrInnerList s
  | s => (parseParameters s).map fun (ps, r) => (.item ⟨.boolean true, ps⟩, r)

def parseDictionaryLoop : Nat → Dictionary → Text → Option Dictionary
  | 0, _, _ => none
  | _ + 1, d, [] => some d
  | n + 1, d, s => do
    let (k, r) ← parseKey s
    let (e, r) ← parseMemberValue r
    if (dropOws r).isEmpty then some (d.insert k e) else do
      let r ← parseSeparator r
      parseDictionaryLoop n (d.insert k e) r

/-- `Parser::parse::<Item>`. -/
def parseItemField (s : Text) : Option Item := do
  let (i, r) ← parseItem (dropSp s)
  if (dropSp r).isEmpty then some i else none

/-- `Parser::parse::<List>`. -/
def parseListField (s : Text) : Option SfList := parseListLoop (s.length + 1) [] (dropSp s)

/-- `Parser::parse::<Dictionary>`. -/
def parseDictionaryField (s : Text) : Option Dictionary := parseDictionaryLoop (s.length + 1) ∅ (dropSp s)

end Sfv
