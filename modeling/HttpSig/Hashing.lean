import HttpSig.Rust.HashSet
import HttpSig.SignatureParams

/-! Hashing ids, and the check for duplicates over a hash set. Names are hashed by derived code, the discriminant of a
variant and then its fields; parameters by code that sorts their texts, since their set compares without an order. -/

namespace HttpSig
open Rust

def DerivedComponentName.discriminant : DerivedComponentName → Int
  | method => 0
  | targetUri => 1
  | authority => 2
  | scheme => 3
  | requestTarget => 4
  | path => 5
  | query => 6
  | queryParam => 7
  | status => 8
  | signatureParams => 9

def DerivedComponentName.hash (n : DerivedComponentName) : List HashCall := [.writeIsize n.discriminant]

def HttpMessageComponentName.hash : HttpMessageComponentName → List HashCall
  | httpField name => [.writeIsize 0, .writeStr name]
  | derived name => .writeIsize 1 :: name.hash

/-- `Hash for HttpMessageComponentParams`: the sorted texts of the parameters. -/
def HttpMessageComponentParams.hash (ps : HttpMessageComponentParams) : List HashCall :=
  hashTexts (sortTexts (ps.items.map HttpMessageComponentParam.toText))

def HttpMessageComponentId.hash (id : HttpMessageComponentId) : List HashCall :=
  id.name.hash ++ HttpMessageComponentParams.hash id.params

/-- The tables that hold ids under a hasher. -/
abbrev IdTable (hasher : Hasher) := HashTable HttpMessageComponentId fun id => hasher.hash id.hash

/-- `has_unique_elements`, with the set it inserts into. -/
def hasUniqueElementsIn {hasher : Hasher} (uniq : IdTable hasher) (ids : List HttpMessageComponentId) : Bool :=
  uniq.allInserted HttpMessageComponentId.beq [] ids

end HttpSig
