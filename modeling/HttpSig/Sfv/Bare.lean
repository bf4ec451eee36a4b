import HttpSig.Sfv.RoundTrip

/-! Texts that are a list and a dictionary at once. Every member of such a text is a key with parameters: a list takes the
key for a token, a dictionary gives it the value true. When the beginning of a text is the one and the whole text the
other, the beginning is both. -/

namespace Sfv
open Rust

/-- Nothing but white space follows, or a comma behind it. -/
def Ended (r : Text) : Prop := ∀ c ∈ (dropOws r).head?, c = ','

theorem Ended.of_nil {r : Text} (h : dropOws r = []) : Ended r := by simp [Ended, h]

theorem Ended.of_separator {r r' : Text} (h : parseSeparator r = some r') : Ended r := by
  obtain ⟨s', hs', -, -⟩ := parseSeparator_eq_some.mp h
  simp [Ended, hs']

theorem Ended.cons {c : Char} {r : Text} (h : Ended (c :: r)) (hc : isOws c = false) : c = ',' := by
  have hdrop : dropOws (c :: r) = c :: r := List.dropWhile_cons_of_neg (by simp [hc])
  exact h c (by rw [hdrop]; rfl)

/-! ### Keys as tokens -/

def Key.token (k : Key) : Token where
  text := k.text
  valid := by
    obtain ⟨t, h⟩ := k
    cases t with
    | nil => cases h
    | cons c t =>
      simp only [isKey, Bool.and_eq_true, List.all_eq_true] at h
      simp only [isToken, Bool.and_eq_true, List.all_eq_true]
      refine ⟨?_, fun d hd => isTokenChar_of_isKeyChar (h.2 d hd)⟩
      have hstart := h.1
      simp only [isKeyStart, isTokenStart, Bool.or_eq_true] at hstart ⊢
      exact hstart.imp_left fun hl => isAlpha_iff.mpr (Or.inr (isLower_iff.mp hl))

theorem Key.head_ne_paren (k : Key) (t : Text) : ∀ r, k.text ++ t ≠ '(' :: r := by
  intro r h
  cases hk : k.text with
  | nil => exact k.ne_nil hk
  | cons c s =>
    rw [hk, List.cons_append, List.cons.injEq] at h
    have hc := k.isKeyChar_of_mem c (by rw [hk]; exact List.mem_cons_self ..)
    rw [h.1] at hc
    exact absurd hc (by decide)

/-- A list takes a key for a token. -/
theorem parseItemOrInnerList_key {s q : Text} {k : Key} (hk : parseKey s = some (k, q)) (hq : NoToken q) :
    parseItemOrInnerList s = (parseParameters q).map fun e => (.item ⟨.token k.token, e.1⟩, e.2) := by
  obtain ⟨htext, hrest⟩ := parseKey_eq_some.mp hk
  have hs : s = k.text ++ q := by
    rw [← List.takeWhile_append_dropWhile (p := isKeyChar) (l := s), htext, hrest]
  have hbare : parseBareItem (k.text ++ q) = some (.token k.token, q) := parseBareItem_token k.token hq
  have hitem : parseItem (k.text ++ q) = (parseBareItem (k.text ++ q)).bind fun e => (parseParameters e.2).bind fun e' =>
    some ((⟨e.1, e'.1⟩ : Item), e'.2) := rfl
  rw [hs, parseItemOrInnerList_of_ne (k.head_ne_paren q), hitem, hbare, Option.bind_some]
  cases parseParameters q <;> rfl

/-- The key of a member that ends is not cut short of a token. -/
theorem noToken_of_parseMemberValue {q r : Text} {v : ListEntry} (h : parseMemberValue q = some (v, r)) (hr : Ended r) :
    NoToken q := by
  intro c hc
  cases q with
  | nil => cases hc
  | cons d q =>
    obtain rfl : d = c := by simpa using hc
    cases ht : isTokenChar d
    · rfl
    · have hne : d ≠ '=' ∧ d ≠ ';' ∧ d ≠ ',' ∧ isOws d = false := by
        refine ⟨?_, ?_, ?_, ?_⟩
        · rintro rfl
          exact absurd ht (by decide)
        · rintro rfl
          exact absurd ht (by decide)
        · rintro rfl
          exact absurd ht (by decide)
        · cases ho : isOws d
          · rfl
          · simp only [isOws, Bool.or_eq_true, beq_iff_eq] at ho
            rcases ho with rfl | rfl <;> exact absurd ht (by decide)
      -- Neither a value nor parameters follow, so the rest starts with the character itself.
      rw [parseMemberValue_of_ne fun r h => hne.1 (List.cons.inj h).1, parseParameters,
        parseParametersLoop_of_ne fun r h => hne.2.1 (List.cons.inj h).1] at h
      cases h
      exact absurd (hr.cons hne.2.2.2) hne.2.2.1

/-- The entry of a list that starts with a key is that key with parameters. -/
theorem parseItemOrInnerList_bare {s q r : Text} {k : Key} {e : ListEntry} (hk : parseKey s = some (k, q))
    (hq : NoToken q) (h : parseItemOrInnerList s = some (e, r)) (hr : Ended r) :
    (∀ q', q ≠ '=' :: q') ∧ ∃ ps, parseParameters q = some (ps, r) ∧ e = .item ⟨.token k.token, ps⟩ := by
  rw [parseItemOrInnerList_key hk hq] at h
  obtain ⟨⟨ps, r'⟩, hps, heq⟩ := Option.map_eq_some_iff.mp h
  cases heq
  refine ⟨?_, ps, hps, rfl⟩
  rintro q' rfl
  rw [parseParameters, parseParametersLoop_of_ne (by simp)] at hps
  cases hps
  exact absurd (hr.cons (by decide)) (by decide)

theorem NoToken.append {q t : Text} (hq : NoToken q) (ht : NoToken t) : NoToken (q ++ t) := by
  cases q with
  | nil => exact ht
  | cons c q => exact hq

theorem NoToken.of_append {q t : Text} (h : NoToken (q ++ t)) : NoToken q := by
  cases q with
  | nil => simp [NoToken]
  | cons c q => exact h

theorem serializeListEntry_bare (k : Key) (ps : Parameters) :
    serializeListEntry (.item ⟨.token k.token, ps⟩) = serializeMember k (.item ⟨.boolean true, ps⟩) := rfl

/-- A member of a dictionary that an entry of a longer list starts with. -/
theorem parseItemOrInnerList_of_append {s t r u : Text} {m : Key × ListEntry} {e : ListEntry}
    (hm : parseMember s = some (m, r)) (hr : Ended r) (ht : Stop t) (he : parseItemOrInnerList (s ++ t) = some (e, u))
    (hu : Ended u) : parseItemOrInnerList s = some (e, r) ∧ u = r ++ t ∧
      serializeListEntry e = serializeMember m.1 m.2 := by
  obtain ⟨k, v⟩ := m
  obtain ⟨q, hk, hv⟩ := parseMember_eq_some.mp hm
  have hq := noToken_of_parseMemberValue hv hr
  obtain ⟨hne, ps, hps, rfl⟩ := parseItemOrInnerList_bare (parseKey_extend hk ht.noToken) (hq.append ht.noToken) he hu
  rw [parseMemberValue_of_ne fun q' h => hne (q' ++ t) (by rw [h]; rfl)] at hv
  obtain ⟨⟨ps', r'⟩, hps', heq⟩ := Option.map_eq_some_iff.mp hv
  cases heq
  rw [parseParameters_extend hps' ht] at hps
  cases hps
  refine ⟨?_, rfl, serializeListEntry_bare k ps⟩
  rw [parseItemOrInnerList_key hk hq, hps']
  rfl

/-- An entry of a list that a member of a longer dictionary starts with. -/
theorem parseMember_of_append {s t r u : Text} {m : Key × ListEntry} {e : ListEntry}
    (he : parseItemOrInnerList s = some (e, r)) (hr : Ended r) (ht : Stop t) (hm : parseMember (s ++ t) = some (m, u))
    (hu : Ended u) : parseMember s = some (m, r) ∧ u = r ++ t := by
  obtain ⟨k, v⟩ := m
  obtain ⟨q', hk', hv⟩ := parseMember_eq_some.mp hm
  obtain ⟨htext, hrest⟩ := parseKey_eq_some.mp hk'
  rw [takeWhile_append_stop ht.noToken.key] at htext
  rw [dropWhile_append_stop ht.noToken.key] at hrest
  have hk : parseKey s = some (k, s.dropWhile isKeyChar) := parseKey_eq_some.mpr ⟨htext, rfl⟩
  rw [← hrest] at hv
  have hq := (noToken_of_parseMemberValue hv hu).of_append
  obtain ⟨hne, ps, hps, rfl⟩ := parseItemOrInnerList_bare hk hq he hr
  have hval : parseMemberValue (s.dropWhile isKeyChar) = some (.item ⟨.boolean true, ps⟩, r) := by
    rw [parseMemberValue_of_ne hne, hps]
    rfl
  rw [parseMemberValue_extend hval ht] at hv
  cases hv
  exact ⟨parseMember_eq_some.mpr ⟨_, hk, hval⟩, rfl⟩

/-! ### Lines -/

/-- What the second parser reads where the first has read the beginning, it reads of that beginning alone. -/
def MemberParser.Shares {α β : Type} (p : MemberParser α) (p' : MemberParser β) : Prop :=
  ∀ {s t r u : Text} {a : α} {b : β}, p.parse s = some (a, r) → Ended r → Stop t →
    p'.parse (s ++ t) = some (b, u) → Ended u → p'.parse s = some (b, r) ∧ u = r ++ t

theorem listMember_shares : listMember.Shares dictionaryMember := fun he hr ht hm hu => parseMember_of_append he hr ht hm hu

theorem dictionaryMember_shares : dictionaryMember.Shares listMember := by
  intro s t r u a b hm hr ht he hu
  obtain ⟨h, hrest, -⟩ := parseItemOrInnerList_of_append hm hr ht he hu
  exact ⟨h, hrest⟩

/-- A line that begins with all the members of another kind, up to a comma, has members there too. -/
theorem MemberParser.Shares.reads {α β : Type} {p : MemberParser α} {p' : MemberParser β} (h : p.Shares p') {s y : Text}
    {l : List α} {l' : List β} (hl : p.Reads s l) (hl' : p'.Reads (s ++ ',' :: y) l') : ∃ l'', p'.Reads s l'' := by
  have ht : Stop (',' :: y) := Stop.cons (by simp)
  induction hl generalizing l' with
  | @last s r a ha hr =>
    have hread : ∀ {b u}, p'.parse (s ++ ',' :: y) = some (b, u) → Ended u → ∃ l'', p'.Reads s l'' := by
      intro b u hb hu
      obtain ⟨hb', -⟩ := h ha (.of_nil hr) ht hb hu
      exact ⟨[b], .last hb' hr⟩
    cases hl' with
    | last hb hu => exact hread hb (.of_nil hu)
    | more hb hu _ => exact hread hb (.of_separator hu)
  | @more s r r' a l ha hr _ ih =>
    have hsep := parseSeparator_extend hr (',' :: y)
    cases hl' with
    | @last _ u b hb hu =>
      obtain ⟨-, rfl⟩ := h ha (.of_separator hr) ht hb (.of_nil hu)
      rw [parseSeparator, hu] at hsep
      cases hsep
    | @more _ u u' b l' hb hu hl' =>
      obtain ⟨hb', rfl⟩ := h ha (.of_separator hr) ht hb (.of_separator hu)
      obtain rfl : r' ++ ',' :: y = u' := Option.some.inj (hsep.symm.trans hu)
      obtain ⟨l'', hl''⟩ := ih hl'
      exact ⟨b :: l'', .more hb' hr hl''⟩

/-- Two lines that are not both of a kind are not of that kind as one line. -/
theorem MemberParser.Shares.members_join {α β : Type} {p : MemberParser α} {p' : MemberParser β} (h : p'.Shares p)
    {x y : Text} (hx : dropSp x ≠ []) (hy : dropSp y ≠ []) (hows : dropOws y = dropSp y)
    (hmem : p.members (dropSp x) ≠ none ∨ p'.members (dropSp x) ≠ none)
    (hnot : ¬(p.members (dropSp x) ≠ none ∧ p.members (dropSp y) ≠ none)) :
    p.members (dropSp (x ++ ',' :: ' ' :: y)) = none := by
  cases hl : p.members (dropSp x) with
  | some l =>
    have hnone : p.members (dropSp y) = none := by
      by_contra hl'
      exact hnot ⟨by simp [hl], hl'⟩
    rw [MemberParser.members_join hl hx, hows, if_neg hy, hnone]
    rfl
  | none =>
    obtain ⟨l', hl'⟩ := Option.ne_none_iff_exists'.mp (hmem.resolve_left fun hne => hne hl)
    have hdrop : dropSp (x ++ ',' :: ' ' :: y) = dropSp x ++ ',' :: ' ' :: y := dropWhile_append_of_ne_nil hx
    rw [hdrop]
    cases hjoin : p.members (dropSp x ++ ',' :: ' ' :: y) with
    | none => rfl
    | some l'' =>
      obtain ⟨l₀, hl₀⟩ := h.reads (reads_of_members hx hl')
        (reads_of_members (List.append_ne_nil_of_left_ne_nil hx _) hjoin)
      rw [hl₀.members] at hl
      cases hl

/-- A text that is both is printed alike member by member. -/
theorem serialize_members_eq {s : Text} {l : SfList} {ms : List (Key × ListEntry)} (hl : listMember.Reads s l)
    (hms : dictionaryMember.Reads s ms) : l.map serializeListEntry = ms.map fun m => serializeMember m.1 m.2 := by
  have hfirst : ∀ {s u r : Text} {e : ListEntry} {m : Key × ListEntry}, parseItemOrInnerList s = some (e, u) → Ended u →
      parseMember s = some (m, r) → Ended r → u = r ∧ serializeListEntry e = serializeMember m.1 m.2 := by
    intro s u r e m he hu hm hr
    have h := parseItemOrInnerList_of_append hm hr Stop.nil (by rw [List.append_nil]; exact he) hu
    rw [List.append_nil] at h
    exact h.2
  induction hl generalizing ms with
  | @last s u e he hu =>
    cases hms with
    | last hm hr =>
      obtain ⟨-, hprint⟩ := hfirst he (.of_nil hu) hm (.of_nil hr)
      rw [List.map_singleton, List.map_singleton, hprint]
    | more hm hr _ =>
      obtain ⟨rfl, -⟩ := hfirst he (.of_nil hu) hm (.of_separator hr)
      rw [parseSeparator, hu] at hr
      cases hr
  | @more s u u' e l he hu _ ih =>
    cases hms with
    | last hm hr =>
      obtain ⟨rfl, -⟩ := hfirst he (.of_separator hu) hm (.of_nil hr)
      rw [parseSeparator, hr] at hu
      cases hu
    | more hm hr hms =>
      obtain ⟨rfl, hprint⟩ := hfirst he (.of_separator hu) hm (.of_separator hr)
      obtain rfl := Option.some.inj (hu.symm.trans hr)
      rw [List.map_cons, List.map_cons, hprint, ih hms]

end Sfv
