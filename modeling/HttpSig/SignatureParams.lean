import HttpSig.Crypto
import HttpSig.MessageComponent

/-! Signature parameters: how they are built, printed into a header, and read back from one. -/

namespace HttpSig
open Rust Sfv

structure HttpSignatureParams where
  created : Option UInt64
  expires : Option UInt64
  nonce : Option Text
  alg : Option Text
  keyid : Option Text
  tag : Option Text
  coveredComponents : List HttpMessageComponentId
  deriving DecidableEq

/-- `has_unique_elements`: every id is new to the set of those before it. -/
def hasUniqueElements : List HttpMessageComponentId → Bool :=
  go []
where
  go (uniq : List HttpMessageComponentId) : List HttpMessageComponentId → Bool
    | [] => true
    | x :: l => if uniq.any (x.beq ·) then false else go (x :: uniq) l

namespace HttpSignatureParams

/-- The parameters with nothing but covered components. -/
def ofComponents (coveredComponents : List HttpMessageComponentId) : HttpSignatureParams :=
  ⟨none, none, none, none, none, none, coveredComponents⟩

/-! ### Building -/

def tryNew (coveredComponents : List HttpMessageComponentId) (now : UInt64) : HttpSigResult HttpSignatureParams :=
  if !hasUniqueElements coveredComponents then
    .err (.invalidSignatureParams "duplicate covered component ids".toList)
  else .ok { ofComponents coveredComponents with created := some now }

def defaultDuration : UInt64 := 300

/-- The setters, each with its argument. -/
inductive Setter where
  | setCreated (created : UInt64)
  | setExpires (expires : UInt64)
  | setNonce (nonce : Text)
  | setAlg (alg : AlgorithmName)
  | setKeyid (keyid : Text)
  | setTag (tag : Text)
  /-- The id and the algorithm of the signing key. -/
  | setKeyInfo (keyId : Text) (alg : AlgorithmName)
  /-- The bytes drawn from the generator. -/
  | setRandomNonce (nonce : Bytes)
  | setExpiresWithDuration (durationSecs : Option UInt64)

/-- Adding a duration needs a creation time, and panics on an overflow where overflows are checked. -/
def setExpiresWithDuration (overflowChecks : Bool) (p : HttpSignatureParams) (durationSecs : Option UInt64) :
    HttpSigResult HttpSignatureParams :=
  match p.created with
  | none => .panic
  | some created =>
    let duration := durationSecs.getD defaultDuration
    if overflowChecks && 2 ^ 64 ≤ created.toNat + duration.toNat then .panic
    else .ok { p with expires := some (created + duration) }

def set (overflowChecks : Bool) (p : HttpSignatureParams) : Setter → HttpSigResult HttpSignatureParams
  | .setCreated created => .ok { p with created := some created }
  | .setExpires expires => .ok { p with expires := some expires }
  | .setNonce nonce => .ok { p with nonce := some nonce }
  | .setAlg alg => .ok { p with alg := some alg.asStr }
  | .setKeyid keyid => .ok { p with keyid := some keyid }
  | .setTag tag => .ok { p with tag := some tag }
  | .setKeyInfo keyId alg => .ok { p with keyid := some keyId, alg := some alg.asStr }
  | .setRandomNonce nonce => .ok { p with nonce := some (Base64.encode nonce) }
  | .setExpiresWithDuration durationSecs => setExpiresWithDuration overflowChecks p durationSecs

/-- Parameters made by `tryNew` and any sequence of setters. -/
inductive Built : HttpSignatureParams → Prop where
  | tryNew {coveredComponents : List HttpMessageComponentId} {now : UInt64} {p : HttpSignatureParams}
      (h : tryNew coveredComponents now = .ok p) : Built p
  | set {overflowChecks : Bool} {p q : HttpSignatureParams} (c : Setter) (hp : Built p)
      (h : p.set overflowChecks c = .ok q) : Built q

/-- Whether the parameters are past their expiry; without one they never are. -/
def isExpired (p : HttpSignatureParams) (now : UInt64) : Bool :=
  match p.expires with
  | some exp => exp < now
  | none => false

/-! ### Printing -/

def joinIds (ids : List HttpMessageComponentId) : Text :=
  ids.foldl (fun acc v => if acc.isEmpty then v.toText else acc ++ ' ' :: v.toText) []

/-- A parameter, when it is present, with its value as text. -/
def paramText (key : Text) : Option Text → Text
  | some value => ';' :: key ++ '=' :: value
  | none => []

/-- A string in quotes, as it is: nothing is escaped. -/
def quoted (s : Text) : Text := '"' :: s ++ ['"']

def toText (p : HttpSignatureParams) : Text :=
  '(' :: joinIds p.coveredComponents ++ ')' ::
    (paramText "created".toList (p.created.map fun n => natText n.toNat) ++
    (paramText "expires".toList (p.expires.map fun n => natText n.toNat) ++
    (paramText "nonce".toList (p.nonce.map quoted) ++
    (paramText "alg".toList (p.alg.map quoted) ++
    (paramText "keyid".toList (p.keyid.map quoted) ++
    paramText "tag".toList (p.tag.map quoted))))))

/-! ### Reading -/

/-- An integer narrowed to an unsigned one: a negative one panics. -/
def toU64 (b : BareItem) : HttpSigResult (Option UInt64) :=
  match b.asInteger with
  | none => .ok none
  | some i => if 0 ≤ i.val then .ok (some (UInt64.ofNat i.val.toNat)) else .panic

/-- What one parameter sets. A known one of the wrong type unsets; an unknown one is ignored. -/
def readParam (p : HttpSignatureParams) (key : Text) (bareItem : BareItem) : HttpSigResult HttpSignatureParams :=
  if key = "created".toList then do
    let n ← toU64 bareItem
    .ok { p with created := n }
  else if key = "expires".toList then do
    let n ← toU64 bareItem
    .ok { p with expires := n }
  else if key = "nonce".toList then .ok { p with nonce := bareItem.asString.map SfString.text }
  else if key = "alg".toList then .ok { p with alg := bareItem.asString.map SfString.text }
  else if key = "keyid".toList then .ok { p with keyid := bareItem.asString.map SfString.text }
  else if key = "tag".toList then .ok { p with tag := bareItem.asString.map SfString.text }
  else .ok p

/-- `TryFrom<&ListEntry>`: every id is serialized and read again as text. -/
def tryFrom : ListEntry → HttpSigResult HttpSignatureParams
  | .item _ => .err (.invalidSignatureParams "Invalid signature params".toList)
  | .innerList l => do
    let coveredComponents ← l.items.mapM fun v => HttpMessageComponentId.tryFrom (serializeItem v)
    if !hasUniqueElements coveredComponents then
      .err (.invalidSignatureParams "duplicate covered component ids".toList)
    else l.params.entries.foldlM (fun p e => p.readParam e.1.text e.2) (ofComponents coveredComponents)

/-- `TryFrom<&str>`. -/
def tryFromText (value : Text) : HttpSigResult HttpSignatureParams := do
  let parsed ← Outcome.okOr .parseSFVError (parseListField value)
  match parsed with
  | [.innerList l] => tryFrom (.innerList l)
  | _ => .err (.invalidSignatureParams "Invalid signature params".toList)

end HttpSignatureParams
end HttpSig
