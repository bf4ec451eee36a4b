import HttpSig.Sfv.Bare

/-! Printed members read back, and what a list says about its reading as a dictionary: the members of a list that are
keys are the members of a dictionary, so the text they were read from does not matter. -/

namespace Sfv
open Rust

/-! ### Printed members -/

/-- A member parser undoes a printer when it reads a printed member before whatever stops it. -/
def MemberParser.Undoes {α : Type} (p : MemberParser α) (print : α → Text) : Prop :=
  ∀ (a : α) {t : Text}, Stop t → p.parse (print a ++ t) = some (a, t)

theorem listMember_undoes : listMember.Undoes serializeListEntry := fun e _ ht => parseItemOrInnerList_serialize e ht

theorem dictionaryMember_undoes : dictionaryMember.Undoes fun m => serializeMember m.1 m.2 :=
  fun m _ ht => parseMember_eq_some.mpr (parseMember_serialize m.1 m.2 ht)

namespace MemberParser
variable {α : Type} {p : MemberParser α} {s : Text} {l : List α}

theorem Reads.head (h : p.Reads s l) : ∀ c ∈ s.head?, isOws c = false := by
  intro c hc
  cases h with
  | last he _ => exact (p.start he c hc).1
  | more he _ _ => exact (p.start he c hc).1

theorem Reads.dropOws_eq (h : p.Reads s l) : dropOws s = s := by
  cases s with
  | nil => rfl
  | cons c s => exact List.dropWhile_cons_of_neg (by simp [h.head c rfl])

theorem Reads.dropSp_eq (h : p.Reads s l) : dropSp s = s := by
  refine dropSp_of_head fun c hc => ?_
  rintro rfl
  exact absurd (h.head ' ' hc) (by decide)

/-- The members of a printed list are those it was printed from. -/
theorem Undoes.reads_join {print : α → Text} (hp : p.Undoes print) : ∀ {l : List α}, l ≠ [] →
    p.Reads (join [',', ' '] (l.map print)) l
  | [], h => absurd rfl h
  | [a], _ => by
    have ha := hp a Stop.nil
    rw [List.append_nil] at ha
    rw [List.map_singleton, join_singleton]
    exact .last ha rfl
  | a :: b :: l, _ => by
    have hrest := hp.reads_join (List.cons_ne_nil b l)
    have hjoin : join [',', ' '] ((a :: b :: l).map print) = print a ++ ',' :: ' ' :: join [',', ' '] ((b :: l).map print) := by
      rw [List.map_cons, List.map_cons, join_cons_cons]
      simp
    rw [hjoin]
    refine .more (hp a (Stop.cons (by simp))) (parseSeparator_eq_some.mpr ⟨_, rfl, ?_, hrest.text_ne_nil⟩) hrest
    exact hrest.dropOws_eq

end MemberParser

theorem parseListField_serializeList {l : SfList} {t : Text} (h : serializeList l = some t) : parseListField t = some l := by
  unfold serializeList at h
  split at h
  · cases h
  · rename_i hne
    cases h
    have hread := listMember_undoes.reads_join fun hnil => hne (List.isEmpty_iff.mpr hnil)
    rw [parseListField_eq, hread.dropSp_eq, hread.members]

theorem parseDictionaryField_serializeDictionary {d : Dictionary} {t : Text} (h : serializeDictionary d = some t) :
    parseDictionaryField t = some d := by
  unfold serializeDictionary at h
  split at h
  · cases h
  · rename_i hne
    cases h
    have hread := dictionaryMember_undoes.reads_join fun hnil => hne (List.isEmpty_iff.mpr hnil)
    rw [parseDictionaryField_eq, hread.dropSp_eq, hread.members, Option.map_some, IndexMap.ofList_entries]

/-- The joined members of a dictionary are that dictionary, also when there are none. -/
theorem parseDictionaryField_join_members (d : Dictionary) :
    parseDictionaryField (join [',', ' '] (d.entries.map fun m => serializeMember m.1 m.2)) = some d := by
  by_cases hd : d.isEmpty = true
  · obtain rfl : d = ∅ := IndexMap.ext (List.isEmpty_iff.mp hd)
    rfl
  · exact parseDictionaryField_serializeDictionary (if_neg hd)

/-! ### Lists as dictionaries -/

/-- The dictionary member that a list entry reads as, when it is a key with parameters. -/
def bareMember : ListEntry → Option (Key × ListEntry)
  | .item ⟨.token k, ps⟩ => if h : isKey k.text = true then some (⟨k.text, h⟩, .item ⟨.boolean true, ps⟩) else none
  | _ => none

theorem bareMember_token (k : Key) (ps : Parameters) :
    bareMember (.item ⟨.token k.token, ps⟩) = some (k, .item ⟨.boolean true, ps⟩) := dif_pos k.valid

theorem bareMember_eq_some {e : ListEntry} {m : Key × ListEntry} (h : bareMember e = some m) :
    ∃ k ps, e = .item ⟨.token k.token, ps⟩ ∧ m = (k, .item ⟨.boolean true, ps⟩) := by
  unfold bareMember at h
  split at h
  · split at h
    · rename_i hk
      cases h
      exact ⟨⟨_, hk⟩, _, rfl, rfl⟩
    · cases h
  · cases h

theorem parseUnsigned_ne_token {sign : Int} {s r : Text} {k : Token} : parseUnsigned sign s ≠ some (.token k, r) := by
  intro h
  by_cases hdot : ∃ rest, s.dropWhile Char.isDigit = '.' :: rest
  · obtain ⟨rest, hrest⟩ := hdot
    rw [parseUnsigned_of_dot hrest] at h
    split at h
    · cases h
    · obtain ⟨b, hb, heq⟩ := Option.map_eq_some_iff.mp h
      cases heq
      unfold decimalOf at hb
      split at hb
      · cases hb
      · obtain ⟨d, -, heq⟩ := Option.map_eq_some_iff.mp hb
        cases heq
  · rw [parseUnsigned_of_not_dot (not_exists.mp hdot)] at h
    split at h
    · cases h
    · obtain ⟨b, hb, heq⟩ := Option.map_eq_some_iff.mp h
      cases heq
      unfold integerOf at hb
      split at hb
      · cases hb
      · obtain ⟨i, -, heq⟩ := Option.map_eq_some_iff.mp hb
        cases heq

/-- A bare item that is a token was read as one. -/
theorem parseToken_of_parseBareItem {s r : Text} {k : Token} (h : parseBareItem s = some (.token k, r)) :
    s.takeWhile isTokenChar = k.text ∧ s.dropWhile isTokenChar = r := by
  cases s with
  | nil => cases h
  | cons c s =>
    rw [parseBareItem_cons] at h
    split_ifs at h
    · unfold parseNumber at h
      split at h <;> exact absurd h parseUnsigned_ne_token
    · obtain ⟨e, -, h⟩ := Option.bind_eq_some_iff.mp h
      obtain ⟨str, -, h⟩ := Option.bind_eq_some_iff.mp h
      cases h
    · obtain ⟨k', hk, htext, hrest⟩ := parseToken_eq_some.mp h
      cases hk
      exact ⟨htext, hrest⟩
    · obtain ⟨d, bs, -, -, -, hb⟩ := parseByteSequence_eq_some.mp h
      cases hb
    · rcases parseBoolean_eq_some h with ⟨-, hb⟩ | ⟨-, hb⟩ <;> cases hb
    · obtain ⟨i, -, hb⟩ := parseDate_eq_some.mp h
      cases hb
    · obtain ⟨s', bs, t, -, -, -, hb⟩ := parseDisplayString_eq_some.mp h
      cases hb

/-- Where a key was read as a token, it is read as a key too, and ends there. -/
theorem parseKey_of_token {s r : Text} {k : Key} (h : parseBareItem s = some (.token k.token, r)) :
    parseKey s = some (k, r) ∧ NoToken r := by
  obtain ⟨htext, hrest⟩ := parseToken_of_parseBareItem h
  have hno : NoToken r := by
    intro c hc
    rw [← hrest] at hc
    have := List.head?_dropWhile_not isTokenChar s
    rw [hc] at this
    simpa using this
  have hs : s = k.text ++ r := by
    rw [← List.takeWhile_append_dropWhile (p := isTokenChar) (l := s), htext, hrest]
    rfl
  exact ⟨hs ▸ parseKey_text hno.key, hno⟩

/-- An entry that is a key with parameters reads as a member of a dictionary, with the same rest. -/
theorem parseMember_of_bareMember {s r : Text} {e : ListEntry} {m : Key × ListEntry}
    (he : parseItemOrInnerList s = some (e, r)) (hr : Ended r) (hm : bareMember e = some m) : parseMember s = some (m, r) := by
  obtain ⟨k, ps, rfl, rfl⟩ := bareMember_eq_some hm
  have hparen : ∀ t, s ≠ '(' :: t := by
    rintro t rfl
    rw [parseItemOrInnerList_paren] at he
    obtain ⟨l, -, heq⟩ := Option.map_eq_some_iff.mp he
    cases heq
  have hitem := he
  rw [parseItemOrInnerList_of_ne hparen] at hitem
  obtain ⟨⟨i, r'⟩, hi, heq⟩ := Option.map_eq_some_iff.mp hitem
  cases heq
  obtain ⟨q, hb, hps⟩ := parseItem_eq_some.mp hi
  obtain ⟨hk, hno⟩ := parseKey_of_token hb
  obtain ⟨hne, -⟩ := parseItemOrInnerList_bare hk hno he hr
  refine parseMember_eq_some.mpr ⟨q, hk, ?_⟩
  rw [parseMemberValue_of_ne hne, hps]
  rfl

/-- Where a member of a dictionary ends, the list entry there is that member. -/
theorem bareMember_of_parseMember {s r u : Text} {e : ListEntry} {m : Key × ListEntry}
    (he : parseItemOrInnerList s = some (e, r)) (hr : Ended r) (hm : parseMember s = some (m, u)) (hu : Ended u) :
    bareMember e = some m := by
  obtain ⟨k, v⟩ := m
  obtain ⟨q, hk, hv⟩ := parseMember_eq_some.mp hm
  obtain ⟨hne, ps, hps, rfl⟩ := parseItemOrInnerList_bare hk (noToken_of_parseMemberValue hv hu) he hr
  rw [parseMemberValue_of_ne hne, hps] at hv
  cases hv
  exact bareMember_token k ps

/-- A list is a dictionary exactly when all its entries are members of one. -/
theorem dictionaryMember_of_list {s : Text} {l : SfList} (h : listMember.Reads s l) :
    dictionaryMember.members s = l.mapM bareMember := by
  -- Without a member that ends there is no dictionary.
  have none_of : ∀ {s r : Text} {e : ListEntry}, parseItemOrInnerList s = some (e, r) → Ended r → bareMember e = none →
      dictionaryMember.members s = none := by
    intro s r e he hr hm
    by_contra hsome
    obtain ⟨ms, hms⟩ := Option.ne_none_iff_exists'.mp hsome
    have hend : ∀ {m u}, parseMember s = some (m, u) → Ended u → False := by
      intro m u hmem hu
      rw [bareMember_of_parseMember he hr hmem hu] at hm
      cases hm
    cases MemberParser.reads_of_members (listMember.parse_ne_nil he) hms with
    | last hmem hu => exact hend hmem (.of_nil hu)
    | more hmem hu _ => exact hend hmem (.of_separator hu)
  induction h with
  | @last s r e he hr =>
    cases hm : bareMember e with
    | none => rw [none_of he (.of_nil hr) hm, List.mapM_cons, hm]; rfl
    | some m =>
      have hmem := parseMember_of_bareMember he (.of_nil hr) hm
      rw [(MemberParser.Reads.last hmem hr).members, List.mapM_cons, hm]
      rfl
  | @more s r r' e l he hr _ ih =>
    cases hm : bareMember e with
    | none => rw [none_of he (.of_separator hr) hm, List.mapM_cons, hm]; rfl
    | some m =>
      have hmem := parseMember_of_bareMember he (.of_separator hr) hm
      obtain ⟨s', hs', -⟩ := parseSeparator_eq_some.mp hr
      rw [MemberParser.members_ne _ (dictionaryMember.parse_ne_nil hmem), show dictionaryMember.parse s = some (m, r) from hmem,
        Option.bind_some, if_neg (by rw [hs']; simp), hr, Option.bind_some, ih, List.mapM_cons, hm]
      cases l.mapM bareMember <;> rfl

/-! ### Dictionaries as lists -/

section
variable {d : Dictionary} {t : Text}

theorem reads_of_serializeDictionary (h : serializeDictionary d = some t) : dictionaryMember.Reads t d.entries := by
  unfold serializeDictionary at h
  split at h
  · cases h
  · rename_i hne
    cases h
    exact dictionaryMember_undoes.reads_join fun hnil => hne (List.isEmpty_iff.mpr hnil)

theorem reads_of_parseListField {l : SfList} (h : serializeDictionary d = some t) (hl : parseListField t = some l) :
    listMember.Reads t l := by
  have hd := reads_of_serializeDictionary h
  rw [parseListField_eq, hd.dropSp_eq] at hl
  exact MemberParser.reads_of_members hd.text_ne_nil hl

/-- What the list reading makes of a printed dictionary is printed as it was. -/
theorem serializeList_of_serializeDictionary {l : SfList} (h : serializeDictionary d = some t)
    (hl : parseListField t = some l) : serializeList l = some t := by
  have hlist := reads_of_parseListField h hl
  have hsame := serialize_members_eq hlist (reads_of_serializeDictionary h)
  unfold serializeDictionary at h
  split at h
  · cases h
  · rw [serializeList, if_neg (by simpa using hlist.ne_nil), hsame]
    exact h

end
end Sfv
