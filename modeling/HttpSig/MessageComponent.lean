import HttpSig.Error
import HttpSig.Sfv.Parse
import HttpSig.Sfv.Serialize

/-! Message components: what one line of a signature base names, how the name is read and printed, and how
the line's value is made from the values of its source. -/

namespace HttpSig
open Rust Sfv

/-! ### Names -/

inductive DerivedComponentName where
  | method
  | targetUri
  | authority
  | scheme
  | requestTarget
  | path
  | query
  | queryParam
  | status
  | signatureParams
  deriving DecidableEq

namespace DerivedComponentName

def asStr : DerivedComponentName → Text
  | method => "@method".toList
  | targetUri => "@target-uri".toList
  | authority => "@authority".toList
  | scheme => "@scheme".toList
  | requestTarget => "@request-target".toList
  | path => "@path".toList
  | query => "@query".toList
  | queryParam => "@query-param".toList
  | status => "@status".toList
  | signatureParams => "@signature-params".toList

/-- `From<&str>`: a name it does not know panics. -/
def fromText (s : Text) : HttpSigResult DerivedComponentName :=
  if s = "@method".toList then .ok method
  else if s = "@target-uri".toList then .ok targetUri
  else if s = "@authority".toList then .ok authority
  else if s = "@scheme".toList then .ok scheme
  else if s = "@request-target".toList then .ok requestTarget
  else if s = "@path".toList then .ok path
  else if s = "@query".toList then .ok query
  else if s = "@query-param".toList then .ok queryParam
  else if s = "@status".toList then .ok status
  else if s = "@signature-params".toList then .ok signatureParams
  else .panic

end DerivedComponentName

inductive HttpMessageComponentName where
  | httpField (name : Text)
  | derived (name : DerivedComponentName)
  deriving DecidableEq

namespace HttpMessageComponentName

/-- The source ends the text of the error with the `Debug` form of the item. -/
def tryFrom : BareItem → HttpSigResult HttpMessageComponentName
  | .string name =>
    if startsWith name.text '@' then do
      let derived ← DerivedComponentName.fromText name.text
      .ok (.derived derived)
    else .ok (.httpField name.text)
  | _ => .err (.invalidComponentName "Invalid http message component name: ".toList)

def isDerived : HttpMessageComponentName → Bool
  | httpField _ => false
  | derived _ => true

/-- The name between its quotes. -/
def inner : HttpMessageComponentName → Text
  | httpField val => val
  | derived val => val.asStr

def toText (n : HttpMessageComponentName) : Text := '"' :: n.inner ++ ['"']

end HttpMessageComponentName

/-! ### Parameters -/

inductive HttpMessageComponentParam where
  | sf
  | key (val : Text)
  | bs
  | tr
  | req
  | name (val : Text)
  deriving DecidableEq

namespace HttpMessageComponentParam

def toText : HttpMessageComponentParam → Text
  | sf => "sf".toList
  | key val => "key=\"".toList ++ val ++ ['"']
  | bs => "bs".toList
  | tr => "tr".toList
  | req => "req".toList
  | name val => "name=\"".toList ++ val ++ ['"']

def tryFrom (key : Text) (val : BareItem) : HttpSigResult HttpMessageComponentParam :=
  if key = "sf".toList then .ok sf
  else if key = "bs".toList then .ok bs
  else if key = "tr".toList then .ok tr
  else if key = "req".toList then .ok req
  else if key = "name".toList then do
    let s ← Outcome.okOr (.invalidComponentParam "Invalid http field param: name".toList) val.asString
    .ok (name s.text)
  else if key = "key".toList then do
    let s ← Outcome.okOr (.invalidComponentParam "Invalid http field param: key".toList) val.asString
    .ok (.key s.text)
  else .err (.invalidComponentParam ("Invalid http field param: ".toList ++ key))

def isName : HttpMessageComponentParam → Bool
  | name _ => true
  | _ => false

/-- What only a field may carry: `sf`, `key`, `bs` and `tr`. -/
def isFieldOnly : HttpMessageComponentParam → Bool
  | sf | key _ | bs | tr => true
  | _ => false

end HttpMessageComponentParam

abbrev HttpMessageComponentParams := IndexSet HttpMessageComponentParam

namespace HttpMessageComponentParams

def tryFrom (val : Parameters) : HttpSigResult HttpMessageComponentParams := do
  let hs ← val.entries.mapM fun e => HttpMessageComponentParam.tryFrom e.1.text e.2
  .ok (IndexSet.ofList hs)

def toText (ps : HttpMessageComponentParams) : Text :=
  if ps.items.isEmpty then [] else ';' :: join [';'] (ps.items.map HttpMessageComponentParam.toText)

def hasReq (ps : HttpMessageComponentParams) : Bool := .req ∈ ps.items

end HttpMessageComponentParams

/-! ### Identifiers -/

structure HttpMessageComponentId where
  name : HttpMessageComponentName
  params : HttpMessageComponentParams
  deriving DecidableEq

namespace HttpMessageComponentId

/-- `PartialEq`: parameters are compared as sets. -/
def beq (a b : HttpMessageComponentId) : Bool := a.name == b.name && a.params.beq b.params

def addReqParam (id : HttpMessageComponentId) : HttpMessageComponentId := { id with params := id.params.insert .req }

def toText (id : HttpMessageComponentId) : Text := id.name.toText ++ HttpMessageComponentParams.toText id.params

/-- The checks on an id after its name and its parameters are read. -/
def validate (res : HttpMessageComponentId) : HttpSigResult HttpMessageComponentId :=
  if res.params.items.any (·.isName) && res.name != .derived .queryParam then
    .err (.invalidComponentId ("Invalid http message component id: ".toList ++ res.toText))
  else if res.params.items.any (·.isFieldOnly) && res.name.isDerived then
    .err (.invalidComponentId ("Invalid http message component id: ".toList ++ res.toText))
  else .ok res

/-- The item an id is read from: a text without any quote is a bare name and gets quotes first. -/
def itemText (val : Text) : Text :=
  if !startsWith val '"' && !endsWith val '"' && !val.isEmpty && !val.contains '"' then '"' :: val ++ ['"'] else val

def tryFrom (val : Text) : HttpSigResult HttpMessageComponentId := do
  let item ← Outcome.okOr .parseSFVError (parseItemField (itemText (trim val)))
  let name ← HttpMessageComponentName.tryFrom item.bareItem
  let params ← HttpMessageComponentParams.tryFrom item.params
  validate ⟨name, params⟩

end HttpMessageComponentId

/-! ### Values -/

inductive HttpMessageComponentValue where
  | string (val : Text)
  | keyValue (key val : Text)
  deriving DecidableEq

namespace HttpMessageComponentValue

def toText : HttpMessageComponentValue → Text
  | string val => val
  | keyValue _ val => val

def key : HttpMessageComponentValue → Option Text
  | string _ => none
  | keyValue key _ => some key

end HttpMessageComponentValue

/-! ### Components -/

structure HttpMessageComponent where
  id : HttpMessageComponentId
  value : HttpMessageComponentValue
  deriving DecidableEq

/-- The line of the signature base. -/
def HttpMessageComponent.toText (c : HttpMessageComponent) : Text := c.id.toText ++ ':' :: ' ' :: c.value.toText

/-- `str::contains` for a text. -/
def containsText (s pattern : Text) : Bool := s.tails.any pattern.isPrefixOf

/-- A component from its line of a signature base. -/
def HttpMessageComponent.tryFromText (val : Text) : HttpSigResult HttpMessageComponent :=
  match splitOnce ':' val with
  | none => .err (.invalidComponent ("Invalid http message component: ".toList ++ val))
  | some (id, value) =>
    let id := trim id
    if !(startsWith id '"' && (endsWith id '"' || containsText id.tail "\";".toList)) then
      .err (.invalidComponentId ("Invalid http message component id: ".toList ++ id))
    else do
      let id ← HttpMessageComponentId.tryFrom id
      .ok ⟨id, .string (trim value)⟩

/-- The name that selects a query parameter. -/
def queryParamName (ps : HttpMessageComponentParams) : Option Text :=
  ps.items.findSome? fun
    | .name val => some val
    | _ => none

/-- The values of the query parameters of a name, among those written with an equals sign. -/
def queryParamValues (name : Text) (fieldValues : List Text) : List Text :=
  ((fieldValues.filterMap (splitOnce '=')).filter fun kv => kv.1 = name).map Prod.snd

/-- The value of a derived component; only query parameters look beyond the first value. -/
def derivedValue (name : DerivedComponentName) (params : HttpMessageComponentParams) (first : Text)
    (fieldValues : List Text) : HttpSigResult HttpMessageComponentValue :=
  match name with
  | .method => .ok (.string (toAsciiUppercase first))
  | .targetUri => .ok (.string first)
  | .authority => .ok (.string (toAsciiLowercase first))
  | .scheme => .ok (.string (toAsciiLowercase first))
  | .requestTarget => .ok (.string first)
  | .path => .ok (.string first)
  | .query => .ok (.string first)
  | .status => .ok (.string first)
  | .queryParam =>
    match queryParamName params with
    | none => .err (.invalidComponent "query-param derived component requires name parameter".toList)
    | some name => .ok (.string (join ", ".toList (queryParamValues name fieldValues)))
  | .signatureParams =>
    match splitOnce '=' (trim first) with
    | none => .err (.invalidComponent "invalid signature-params derived component".toList)
    | some (key, value) => .ok (.keyValue key value)

def isDerivedParam : HttpMessageComponentParam → Bool
  | .req | .name _ => true
  | _ => false

def buildDerivedComponent (id : HttpMessageComponentId) (fieldValues : List Text) : HttpSigResult HttpMessageComponent :=
  match id.name with
  | .httpField _ => .err (.invalidComponent "invalid http message component name as derived component".toList)
  | .derived derivedId =>
    match fieldValues with
    | [] => .err (.invalidComponent "derived component requires field values".toList)
    | first :: _ =>
      if !id.params.items.all isDerivedParam then
        .err (.invalidComponent "invalid parameter for derived component".toList)
      else do
        let value ← derivedValue derivedId id.params first fieldValues
        .ok ⟨id, value⟩

/-- One value under `sf`: read as a list, or else as a dictionary, and serialized again. -/
def reserialize (v : Text) : HttpSigResult Text :=
  match parseListField v with
  | some list => Outcome.okOr (.invalidComponentParam
      "Failed to parse structured field value: Failed to serialize structured field value for sf".toList)
      (serializeList list)
  | none =>
    match parseDictionaryField v with
    | some dict => Outcome.okOr (.invalidComponentParam
        "Failed to parse structured field value: Failed to serialize structured field value for sf".toList)
        (serializeDictionary dict)
    | none => .err (.invalidComponentParam
        "Failed to parse structured field value: invalid structured field value for sf".toList)

def handleParamsSf (fieldValues : List Text) : HttpSigResult (List Text) := fieldValues.mapM reserialize

/-- `Dictionary::get` by the text of a key. -/
def dictionaryGet (d : Dictionary) (key : Text) : Option ListEntry :=
  (d.entries.find? fun e => e.1.text = key).map Prod.snd

/-- The source ends the text of a failed parse with what the parser says. -/
def handleParamsKeyInto (fieldValues : List Text) (key : Text) : HttpSigResult (List Text) := do
  let dicts ← fieldValues.mapM fun v =>
    Outcome.okOr (.invalidComponentParam "Failed to parse structured field value: ".toList) (parseDictionaryField v)
  Outcome.okOr (.invalidComponentParam "Failed to serialize structured field value".toList)
    ((dicts.filterMap fun dict => (dictionaryGet dict key).map fun v => serializeList [v]).mapM id)

/-- What one parameter makes of the field values. -/
def handleParam (fieldValues : List Text) : HttpMessageComponentParam → HttpSigResult (List Text)
  | .sf => handleParamsSf fieldValues
  | .key key => handleParamsKeyInto fieldValues key
  | .bs => .err (.notYetImplemented "`bs` is not supported yet".toList)
  | .req => .ok fieldValues
  | .tr => .err (.notYetImplemented "`tr` is not supported yet".toList)
  | .name _ => .err (.notYetImplemented "`name` is only for derived component query-params".toList)

def buildHttpFieldComponent (id : HttpMessageComponentId) (fieldValues : List Text) :
    HttpSigResult HttpMessageComponent := do
  let fieldValues ← id.params.items.foldlM handleParam fieldValues
  .ok ⟨id, .string (join ", ".toList fieldValues)⟩

/-- A component from its id and the values of its source. -/
def HttpMessageComponent.tryFrom (id : HttpMessageComponentId) (fieldValues : List Text) :
    HttpSigResult HttpMessageComponent :=
  match id.name with
  | .httpField _ => buildHttpFieldComponent id fieldValues
  | .derived _ => buildDerivedComponent id fieldValues

/-! ### No build panics -/

namespace DerivedComponentName

theorem fromText_asStr (n : DerivedComponentName) : fromText n.asStr = .ok n := by
  cases n <;> decide +kernel

theorem fromText_of_ne {s : Text} (h : ∀ n : DerivedComponentName, s ≠ n.asStr) : fromText s = .panic := by
  have skip : ∀ (n : DerivedComponentName) {x : HttpSigResult DerivedComponentName}, x = .panic →
      (if s = n.asStr then .ok n else x) = .panic := fun n _ hx => (if_neg (h n)).trans hx
  exact skip method (skip targetUri (skip authority (skip scheme (skip requestTarget (skip path (skip query (skip queryParam
    (skip status (skip signatureParams rfl)))))))))

/-- A name is read from its own text only, and every other text panics. -/
theorem fromText_cases (s : Text) : (∃ n, s = asStr n ∧ fromText s = .ok n) ∨
    (∀ n : DerivedComponentName, s ≠ n.asStr) ∧ fromText s = .panic := by
  by_cases hs : ∃ n, s = asStr n
  · obtain ⟨n, rfl⟩ := hs
    exact Or.inl ⟨n, rfl, fromText_asStr n⟩
  · exact Or.inr ⟨not_exists.mp hs, fromText_of_ne (not_exists.mp hs)⟩

theorem fromText_eq_ok {s : Text} {n : DerivedComponentName} : fromText s = .ok n ↔ s = n.asStr := by
  constructor
  · intro h
    rcases fromText_cases s with ⟨m, rfl, hm⟩ | ⟨-, hpanic⟩
    · rw [h] at hm
      cases hm
      rfl
    · rw [h] at hpanic
      cases hpanic
  · rintro rfl
    exact fromText_asStr n

theorem fromText_ne_err {s : Text} (e : HttpSigError) : fromText s ≠ .err e := by
  rcases fromText_cases s with ⟨n, -, h⟩ | ⟨-, h⟩ <;> rw [h] <;> nofun

theorem fromText_eq_panic {s : Text} : fromText s = .panic ↔ ∀ n : DerivedComponentName, s ≠ n.asStr := by
  refine ⟨?_, fromText_of_ne⟩
  rintro h n rfl
  rw [fromText_asStr] at h
  cases h

theorem startsWith_asStr (n : DerivedComponentName) : startsWith n.asStr '@' = true := by
  cases n <;> rfl

theorem asStr_inj {m n : DerivedComponentName} (h : m.asStr = n.asStr) : m = n := by
  have hm := fromText_asStr m
  rw [h, fromText_asStr] at hm
  cases hm
  rfl

end DerivedComponentName

end HttpSig
