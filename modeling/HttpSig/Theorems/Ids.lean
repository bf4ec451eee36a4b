import HttpSig.MessageComponent
import HttpSig.Sfv.Printable

/-! Component ids: what is read from which item, which items make the reading panic, and what the printed
id looks like. -/

namespace HttpSig
open Rust Sfv

/-! ### Names -/

namespace DerivedComponentName

def all : List DerivedComponentName :=
  [method, targetUri, authority, scheme, requestTarget, path, query, queryParam, status, signatureParams]

theorem mem_all (n : DerivedComponentName) : n ∈ all := by
  cases n <;> decide

end DerivedComponentName

namespace HttpMessageComponentName

/-- Names as they are read: a field name never starts like a derived one. -/
def WellFormed : HttpMessageComponentName → Prop
  | httpField val => startsWith val '@' = false
  | derived _ => True

theorem inner_inj {m n : HttpMessageComponentName} (hm : m.WellFormed) (hn : n.WellFormed) (h : m.inner = n.inner) :
    m = n := by
  cases m with
  | httpField a =>
    cases n with
    | httpField b => exact congrArg httpField h
    | derived b =>
      have ha : startsWith a '@' = false := hm
      rw [show a = b.asStr from h, b.startsWith_asStr] at ha
      cases ha
  | derived a =>
    cases n with
    | httpField b =>
      have hb : startsWith b '@' = false := hn
      rw [show b = a.asStr from h.symm, a.startsWith_asStr] at hb
      cases hb
    | derived b => exact congrArg derived (DerivedComponentName.asStr_inj h)

theorem tryFrom_string (s : SfString) : tryFrom (.string s) =
    if startsWith s.text '@' then HttpMessageComponentName.derived <$> DerivedComponentName.fromText s.text
    else .ok (.httpField s.text) := by
  rw [tryFrom]
  split <;> rfl

theorem tryFrom_eq_ok {b : BareItem} {n : HttpMessageComponentName} :
    tryFrom b = .ok n ↔ n.WellFormed ∧ ∃ s, b = .string s ∧ n.inner = s.text := by
  constructor
  · intro h
    cases b
    case string s =>
      rw [tryFrom_string] at h
      split at h
      · obtain ⟨d, hd, rfl⟩ := Outcome.map_eq_ok.mp h
        exact ⟨trivial, s, rfl, (DerivedComponentName.fromText_eq_ok.mp hd).symm⟩
      · rename_i hs
        cases h
        exact ⟨Bool.eq_false_iff.mpr hs, s, rfl, rfl⟩
    all_goals cases h
  · rintro ⟨hn, s, rfl, hs⟩
    rw [tryFrom_string, ← hs]
    cases n with
    | httpField a =>
      rw [if_neg (by rw [inner, show startsWith a '@' = false from hn]; simp)]
      rfl
    | derived d =>
      rw [inner, if_pos d.startsWith_asStr, DerivedComponentName.fromText_asStr]
      rfl

/-- A string that starts like a derived name without being one. -/
def isUnknownDerived (s : Text) : Bool := startsWith s '@' && DerivedComponentName.all.all fun n => n.asStr ≠ s

theorem isUnknownDerived_iff {s : Text} :
    isUnknownDerived s = true ↔ startsWith s '@' = true ∧ ∀ n : DerivedComponentName, s ≠ n.asStr := by
  rw [isUnknownDerived, Bool.and_eq_true, List.all_eq_true]
  refine and_congr_right fun _ => ⟨fun h n => ?_, fun h n _ => decide_eq_true (h n).symm⟩
  exact (of_decide_eq_true (h n n.mem_all)).symm

theorem tryFrom_eq_panic {b : BareItem} : tryFrom b = .panic ↔ ∃ s, b = .string s ∧ isUnknownDerived s.text = true := by
  cases b
  case string s =>
    simp only [tryFrom_string, isUnknownDerived_iff, BareItem.string.injEq, exists_eq_left']
    split
    · rename_i hs
      rw [Outcome.map_eq_panic, DerivedComponentName.fromText_eq_panic, and_iff_right hs]
    · rename_i hs
      simp [hs]
  all_goals simp [tryFrom]

end HttpMessageComponentName

/-! ### Parameters -/

namespace HttpMessageComponentParam

/-- The key a parameter is printed with. -/
def keyText : HttpMessageComponentParam → Text
  | sf => "sf".toList
  | key _ => "key".toList
  | bs => "bs".toList
  | tr => "tr".toList
  | req => "req".toList
  | name _ => "name".toList

/-- The string a parameter carries. -/
def value : HttpMessageComponentParam → Option Text
  | key val | name val => some val
  | _ => none

/-- A string as it follows its key. -/
def valueTail : Option Text → Text
  | some v => '=' :: '"' :: v ++ ['"']
  | none => []

theorem toText_eq (p : HttpMessageComponentParam) : p.toText = p.keyText ++ valueTail p.value := by
  cases p <;> rfl

theorem isKeyChar_of_mem_keyText (p : HttpMessageComponentParam) : ∀ c ∈ p.keyText, isKeyChar c = true := by
  cases p <;> dsimp only [keyText] <;> exact List.all_eq_true.mp (by decide)

theorem eq_of_keyText_of_value {p q : HttpMessageComponentParam} (hk : p.keyText = q.keyText) (hv : p.value = q.value) :
    p = q := by
  cases p <;> cases q <;> dsimp only [keyText] at hk <;> first | rfl | (cases hv; rfl) | exact absurd hk (by decide)

/-- A parameter is read by its key; its value counts where it carries a string. -/
theorem tryFrom_eq_ok {k : Text} {v : BareItem} {p : HttpMessageComponentParam} :
    tryFrom k v = .ok p ↔ p.keyText = k ∧ ∀ t ∈ p.value, ∃ s, v = .string s ∧ s.text = t := by
  have string : ∀ {e : HttpSigError} {f : Text → HttpMessageComponentParam},
      (Outcome.okOr e v.asString >>= fun s => .ok (f s.text)) = .ok p → ∃ s : SfString, v = .string s ∧ f s.text = p := by
    intro e f h
    obtain ⟨s, hs, h⟩ := Outcome.bind_eq_ok.mp h
    cases h
    cases v <;> cases Outcome.okOr_eq_ok.mp hs
    exact ⟨s, rfl, rfl⟩
  constructor
  · intro h
    unfold tryFrom at h
    iterate 4
      split at h
      · rename_i hk
        cases h
        exact ⟨hk.symm, nofun⟩
    iterate 2
      split at h
      · rename_i hk
        obtain ⟨s, hv, rfl⟩ := string h
        refine ⟨hk.symm, ?_⟩
        rintro t ⟨⟩
        exact ⟨s, hv, rfl⟩
    cases h
  · rintro ⟨rfl, hv⟩
    cases p with
    | sf | bs | tr | req => rfl
    | key val | name val =>
      obtain ⟨s, rfl, rfl⟩ := hv val rfl
      rfl

theorem tryFrom_ne_panic (k : Text) (v : BareItem) : tryFrom k v ≠ .panic := by
  have string : ∀ {e : HttpSigError} {f : SfString → HttpMessageComponentParam},
      (Outcome.okOr e v.asString >>= fun s => .ok (f s)) ≠ (.panic : HttpSigResult _) := by
    intro e f
    cases v <;> nofun
  unfold tryFrom
  iterate 4
    split
    · nofun
  iterate 2
    split
    · exact string
  nofun

/-- Whether an entry of the parameters is read at all. -/
def isKnown (k : Text) (v : BareItem) : Bool :=
  ["sf".toList, "bs".toList, "tr".toList, "req".toList].contains k ||
    (["name".toList, "key".toList].contains k && v.asString.isSome)

theorem isKnown_iff {k : Text} {v : BareItem} : isKnown k v = true ↔ ∃ p, tryFrom k v = .ok p := by
  simp only [isKnown, Bool.or_eq_true, Bool.and_eq_true, List.contains_iff_mem, List.mem_cons, List.not_mem_nil,
    or_false]
  constructor
  · rintro ((rfl | rfl | rfl | rfl) | ⟨rfl | rfl, h⟩)
    · exact ⟨sf, rfl⟩
    · exact ⟨bs, rfl⟩
    · exact ⟨tr, rfl⟩
    · exact ⟨req, rfl⟩
    all_goals
      cases v <;> cases h
      exact ⟨_, rfl⟩
  · rintro ⟨p, h⟩
    obtain ⟨rfl, hv⟩ := tryFrom_eq_ok.mp h
    cases p with
    | sf | bs | tr | req => simp [keyText]
    | key val | name val =>
      obtain ⟨s, rfl, -⟩ := hv val rfl
      simp [keyText, BareItem.asString]

end HttpMessageComponentParam

namespace HttpMessageComponentParams

/-- Different keys make parameters of different keys. -/
theorem nodup_keyText {ps : Parameters} {l : List HttpMessageComponentParam}
    (h : List.Forall₂ (fun e p => HttpMessageComponentParam.tryFrom e.1.text e.2 = .ok p) ps.entries l) :
    (l.map HttpMessageComponentParam.keyText).Nodup := by
  have hkeys : l.map HttpMessageComponentParam.keyText = ps.entries.map fun e => e.1.text := by
    rw [← List.forall₂_eq_eq_eq, List.forall₂_map_left_iff, List.forall₂_map_right_iff]
    exact (h.imp fun _ _ h => (HttpMessageComponentParam.tryFrom_eq_ok.mp h).1).flip
  rw [hkeys]
  have := ps.nodup.map (f := Key.text) fun a b h => Key.ext h
  rwa [List.map_map] at this

/-- Parameters are read one by one, and none is lost. -/
theorem tryFrom_eq_ok {ps : Parameters} {s : HttpMessageComponentParams} : tryFrom ps = .ok s ↔
    List.Forall₂ (fun e p => HttpMessageComponentParam.tryFrom e.1.text e.2 = .ok p) ps.entries s.items := by
  rw [tryFrom, Outcome.bind_eq_ok]
  constructor
  · rintro ⟨l, hl, h⟩
    cases h
    have hl := Outcome.mapM_eq_ok.mp hl
    rwa [IndexSet.items_ofList (List.Nodup.of_map _ (nodup_keyText hl))]
  · intro h
    exact ⟨s.items, Outcome.mapM_eq_ok.mpr h, congrArg Outcome.ok (IndexSet.ext (IndexSet.items_ofList s.nodup))⟩

theorem tryFrom_ne_panic (ps : Parameters) : tryFrom ps ≠ .panic := by
  rw [tryFrom, Ne, Outcome.bind_eq_panic]
  rintro (h | ⟨l, -, h⟩)
  · obtain ⟨_, e, _, -, -, h⟩ := Outcome.mapM_eq_panic.mp h
    exact HttpMessageComponentParam.tryFrom_ne_panic _ _ h
  · cases h

theorem toText_eq (ps : HttpMessageComponentParams) : toText ps = ps.items.flatMap fun p => ';' :: p.toText := by
  unfold toText
  split
  · rename_i h
    rw [List.isEmpty_iff.mp h]
    rfl
  · rename_i h
    cases hl : ps.items with
    | nil => exact absurd (List.isEmpty_iff.mpr hl) h
    | cons p l =>
      clear h hl
      induction l generalizing p with
      | nil => simp
      | cons q l ih =>
        rw [List.flatMap_cons, ← ih q]
        simp

end HttpMessageComponentParams
/-! ### Ids -/

namespace HttpMessageComponentId

/-- An id as it is read from an item. -/
def readItem (i : Item) : HttpSigResult HttpMessageComponentId := do
  let name ← HttpMessageComponentName.tryFrom i.bareItem
  let params ← HttpMessageComponentParams.tryFrom i.params
  validate ⟨name, params⟩

theorem tryFrom_eq (val : Text) :
    tryFrom val = Outcome.okOr .parseSFVError (parseItemField (itemText (trim val))) >>= readItem := rfl

/-- What the checks on an id ask of it. -/
def Valid (id : HttpMessageComponentId) : Prop :=
  (id.params.items.any (·.isName) = true → id.name = .derived .queryParam) ∧
    (id.params.items.any (·.isFieldOnly) = true → id.name.isDerived = false)

theorem validate_eq_ok {id r : HttpMessageComponentId} : validate id = .ok r ↔ r = id ∧ id.Valid := by
  unfold validate Valid
  split
  · rename_i h
    rw [Bool.and_eq_true, bne_iff_ne] at h
    simp only [reduceCtorEq, false_iff, not_and]
    exact fun _ hv => absurd (hv h.1) h.2
  · rename_i h₁
    rw [Bool.and_eq_true, bne_iff_ne, not_and, not_not] at h₁
    split
    · rename_i h
      rw [Bool.and_eq_true] at h
      simp only [reduceCtorEq, false_iff, not_and]
      intro _ _ hv
      rw [hv h.1] at h
      exact absurd h.2 (by decide)
    · rename_i h₂
      rw [Bool.and_eq_true, not_and, Bool.not_eq_true] at h₂
      rw [Outcome.ok.injEq, eq_comm (a := id), and_iff_left (And.intro h₁ h₂)]

theorem validate_ne_panic (id : HttpMessageComponentId) : validate id ≠ .panic := by
  unfold validate
  split
  · exact Outcome.err_ne_panic _
  · split
    · exact Outcome.err_ne_panic _
    · exact Outcome.ok_ne_panic _

theorem readItem_eq_ok {i : Item} {id : HttpMessageComponentId} : readItem i = .ok id ↔
    HttpMessageComponentName.tryFrom i.bareItem = .ok id.name ∧
      HttpMessageComponentParams.tryFrom i.params = .ok id.params ∧ id.Valid := by
  rw [readItem, Outcome.bind_eq_ok]
  constructor
  · rintro ⟨n, hn, h⟩
    obtain ⟨ps, hps, h⟩ := Outcome.bind_eq_ok.mp h
    obtain ⟨rfl, hv⟩ := validate_eq_ok.mp h
    exact ⟨hn, hps, hv⟩
  · rintro ⟨hn, hps, hv⟩
    exact ⟨id.name, hn, Outcome.bind_eq_ok.mpr ⟨id.params, hps, validate_eq_ok.mpr ⟨rfl, hv⟩⟩⟩

theorem readItem_eq_panic {i : Item} : readItem i = .panic ↔
    ∃ s, i.bareItem = .string s ∧ HttpMessageComponentName.isUnknownDerived s.text = true := by
  rw [← HttpMessageComponentName.tryFrom_eq_panic, readItem, Outcome.bind_eq_panic, or_iff_left]
  rintro ⟨n, -, h⟩
  rcases Outcome.bind_eq_panic.mp h with h | ⟨ps, -, h⟩
  · exact HttpMessageComponentParams.tryFrom_ne_panic _ h
  · exact validate_ne_panic _ h

/-! ### Reading a serialized item -/

theorem itemText_of_mem {s : Text} (h : '"' ∈ s) : itemText s = s := by
  unfold itemText
  rw [if_neg]
  simp [h]

theorem itemText_of_notMem {s : Text} (h : '"' ∉ s) (hne : s ≠ []) : itemText s = '"' :: s ++ ['"'] := by
  have hs : startsWith s '"' = false := by
    rw [startsWith, beq_eq_false_iff_ne]
    exact fun he => h (List.mem_of_mem_head? he)
  have he : endsWith s '"' = false := by
    rw [endsWith, beq_eq_false_iff_ne]
    exact fun he => h (List.mem_of_mem_getLast? he)
  unfold itemText
  rw [if_pos]
  simp [hs, he, h, hne]

/-- Parsing undoes serializing, so a serialized item with a quote reads as the item itself. -/
theorem tryFrom_serializeItem_of_mem {i : Item} (h : '"' ∈ serializeItem i) : tryFrom (serializeItem i) = readItem i := by
  rw [tryFrom_eq, trim_of_noEdge (noEdge_serializeItem i), itemText_of_mem h, parseItemField_serialize]
  rfl

theorem serializeString_of_plain {s : Text} (h : ∀ c ∈ s, isPlain c = true) : serializeString s = '"' :: s ++ ['"'] := by
  have hesc : s.flatMap escapeChar = s := by
    induction s with
    | nil => rfl
    | cons c s ih =>
      obtain ⟨-, -, hq, hb⟩ := isPlain_iff.mp (h c (by simp))
      rw [List.flatMap_cons, ih fun d hd => h d (List.mem_cons_of_mem _ hd)]
      simp [escapeChar, hq, hb]
  rw [serializeString, hesc]

/-- A serialized item without a quote gets quotes, so it reads as the string of its own serialization. -/
def quotedItem (i : Item) : Item :=
  ⟨.string ⟨serializeItem i, List.all_eq_true.mpr fun _ hc => isPrintable_of_mem_serializeItem hc⟩, ∅⟩

theorem tryFrom_serializeItem_of_notMem {i : Item} (h : '"' ∉ serializeItem i) :
    tryFrom (serializeItem i) = readItem (quotedItem i) := by
  obtain ⟨c, s, hc, -⟩ := serializeItem_head i
  have hser : serializeItem (quotedItem i) = '"' :: serializeItem i ++ ['"'] := by
    show serializeString (serializeItem i) ++ [] = _
    rw [List.append_nil, serializeString_of_plain fun c hc => isPlain_of_mem_serializeItem h hc]
  rw [tryFrom_eq, trim_of_noEdge (noEdge_serializeItem i), itemText_of_notMem h (by rw [hc]; simp), ← hser,
    parseItemField_serialize]
  rfl

/-- The item that an id is really read from: a serialized item without a quote becomes a string. -/
def asRead (i : Item) : Item := if '"' ∈ serializeItem i then i else quotedItem i

theorem tryFrom_serializeItem (i : Item) : tryFrom (serializeItem i) = readItem (asRead i) := by
  unfold asRead
  split
  · rename_i h
    exact tryFrom_serializeItem_of_mem h
  · rename_i h
    exact tryFrom_serializeItem_of_notMem h

theorem asRead_string {i : Item} {s : SfString} (h : i.bareItem = .string s) : asRead i = i := by
  refine if_pos (List.mem_append_left _ ?_)
  rw [h]
  exact mem_serializeBareItem_of_isQuoted rfl

end HttpMessageComponentId
end HttpSig
