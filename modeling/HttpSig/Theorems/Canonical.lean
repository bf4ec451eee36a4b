import HttpSig.Theorems.Printing

/-! The `@signature-params` line against the member it was read from. The parameters are printed in one fixed
order, without the ones the program does not know and without escapes, so only some members print as they
were received. -/

namespace HttpSig
open Rust Sfv
namespace HttpSignatureParams

/-- A member that prints as it was received: every id and every value canonical, no parameter but the six
known ones, and these in the order they are printed in. -/
structure RendersCanonically (m : InnerList) : Prop where
  items : ∀ i ∈ m.items, canonicalItem i = true
  order : (m.params.entries.map fun e => e.1.text).Sublist paramKeys
  values : ∀ e ∈ m.params.entries, canonicalValue e = true

/-- What a member prints as, with nothing but the printing left to compare. -/
theorem toText_ofEntries_eq_serialize {m : InnerList} {ids : List HttpMessageComponentId} (hids : ReadsIds m.items ids)
    (hneg : m.params.entries.any isNegative = false) :
    (ofEntries ids m.params.entries).toText = serializeInnerList m ↔ RendersCanonically m := by
  rw [toText_ofEntries, serializeInnerList, List.cons_append, List.cons_append, List.cons.injEq, eq_self, true_and,
    ids_align hids, serializeParameters, printedText_eq_serialize paramKeys_nodup isKeyChar_of_mem_paramKeys hneg]
  exact ⟨fun h => ⟨h.1, h.2.1, h.2.2⟩, fun h => ⟨h.items, h.order, h.values⟩⟩

/-- The parameters of an accepted member print as the member was received exactly when it is canonical. -/
theorem toText_eq_serializeInnerList {m : InnerList} {p : HttpSignatureParams} (h : tryFrom (.innerList m) = .ok p) :
    p.toText = serializeInnerList m ↔ RendersCanonically m := by
  obtain ⟨ids, hids, -, hneg, rfl⟩ := tryFrom_innerList_eq_ok.mp h
  exact toText_ofEntries_eq_serialize hids hneg

/-! ### A member on each side -/

def keyOf (s : Text) (h : isKey s = true) : Key := ⟨s, h⟩
def stringOf (s : Text) (h : s.all isPrintable = true) : BareItem := .string ⟨s, h⟩

def methodItem : Item := ⟨stringOf "@method".toList (by decide), ∅⟩

/-- `("@method")` with a creation time and a key id, in the order they are printed in. -/
def orderedMember : InnerList where
  items := [methodItem]
  params := .ofList [(createdKey, .integer ⟨1, by decide⟩), (keyidKey, stringOf "k".toList (by decide))]

/-- The same member with the key id first. -/
def reorderedMember : InnerList where
  items := [methodItem]
  params := .ofList [(keyidKey, stringOf "k".toList (by decide)), (createdKey, .integer ⟨1, by decide⟩)]

/-- What both of them convert to. -/
def memberParams : HttpSignatureParams :=
  ⟨some 1, none, none, none, some "k".toList, none, [⟨.derived .method, ∅⟩]⟩

theorem orderedMember_toText : memberParams.toText = serializeInnerList orderedMember :=
  (toText_eq_serializeInnerList (m := orderedMember) (p := memberParams) (by decide)).mpr
    ⟨by decide, by decide, by decide⟩

/-- A header with the key id first is accepted, and its line is not the one it was received with. -/
theorem reorderedMember_toText : parseDictionaryField "sig1=(\"@method\");keyid=\"k\";created=1".toList =
      some (.ofList [(keyOf "sig1".toList (by decide), .innerList reorderedMember)]) ∧
    tryFrom (.innerList reorderedMember) = .ok memberParams ∧
    memberParams.toText ≠ serializeInnerList reorderedMember := by
  refine ⟨?_, ?_, ?_⟩ <;> decide

end HttpSignatureParams
end HttpSig
