import HttpSig.Sfv.Extend

/-! Lists and dictionaries over several field lines. Both are read member by member, so joining two lines with a comma
gives the members of the first line and after them those of the second. -/

namespace Sfv
open Rust

theorem parseMemberValue_equals (s : Text) : parseMemberValue ('=' :: s) = parseItemOrInnerList s := rfl

theorem parseMemberValue_of_ne {s : Text} (h : ∀ r, s ≠ '=' :: r) :
    parseMemberValue s = (parseParameters s).map fun e => (.item ⟨.boolean true, e.1⟩, e.2) := by
  unfold parseMemberValue
  split
  · exact absurd rfl (h _)
  · rfl

theorem parseMemberValue_length {s r : Text} {e : ListEntry} (h : parseMemberValue s = some (e, r)) :
    r.length ≤ s.length := by
  by_cases hs : ∃ s', s = '=' :: s'
  · obtain ⟨s', rfl⟩ := hs
    exact Nat.le_succ_of_le (parseItemOrInnerList_length h).le
  · rw [parseMemberValue_of_ne (not_exists.mp hs)] at h
    obtain ⟨⟨ps, r'⟩, hp, heq⟩ := Option.map_eq_some_iff.mp h
    cases heq
    exact parseParameters_length hp

theorem parseMemberValue_extend {s r t : Text} {e : ListEntry} (h : parseMemberValue s = some (e, r)) (ht : Stop t) :
    parseMemberValue (s ++ t) = some (e, r ++ t) := by
  by_cases hs : ∃ s', s = '=' :: s'
  · obtain ⟨s', rfl⟩ := hs
    exact parseItemOrInnerList_extend (s := s') h ht
  · rw [parseMemberValue_of_ne (not_exists.mp hs)] at h
    obtain ⟨⟨ps, r'⟩, hp, heq⟩ := Option.map_eq_some_iff.mp h
    cases heq
    have hne : ∀ r, s ++ t ≠ '=' :: r := ne_cons_append (not_exists.mp hs) (ht.ne (by decide))
    rw [parseMemberValue_of_ne hne, parseParameters_extend hp ht]
    rfl

/-- A member of a dictionary: its key and the value after it. -/
def parseMember (s : Text) : Option ((Key × ListEntry) × Text) :=
  (parseKey s).bind fun k => (parseMemberValue k.2).map fun e => ((k.1, e.1), e.2)

theorem parseMember_eq_some {s r : Text} {k : Key} {e : ListEntry} :
    parseMember s = some ((k, e), r) ↔ ∃ r', parseKey s = some (k, r') ∧ parseMemberValue r' = some (e, r) := by
  simp only [parseMember, Option.bind_eq_some_iff, Option.map_eq_some_iff, Prod.mk.injEq, Prod.exists]
  constructor
  · rintro ⟨_, r', hk, _, _, he, ⟨rfl, rfl⟩, rfl⟩
    exact ⟨r', hk, he⟩
  · rintro ⟨r', hk, he⟩
    exact ⟨k, r', hk, e, r, he, ⟨rfl, rfl⟩, rfl⟩

/-! ### Separators -/

theorem parseSeparator_eq_some {s r : Text} :
    parseSeparator s = some r ↔ ∃ s', dropOws s = ',' :: s' ∧ dropOws s' = r ∧ r ≠ [] := by
  unfold parseSeparator
  constructor
  · intro h
    split at h
    · rename_i s' hs
      split at h
      · cases h
      · rename_i hne
        cases h
        exact ⟨s', hs, rfl, by simpa using hne⟩
    · cases h
  · rintro ⟨s', hs, rfl, hne⟩
    rw [hs]
    simp [hne]

theorem parseSeparator_extend {s r : Text} (h : parseSeparator s = some r) (t : Text) :
    parseSeparator (s ++ t) = some (r ++ t) := by
  obtain ⟨s', hs, rfl, hne⟩ := parseSeparator_eq_some.mp h
  exact parseSeparator_eq_some.mpr ⟨s' ++ t, dropWhile_append_of_cons hs t, dropWhile_append_of_ne_nil hne, by simp [hne]⟩

theorem parseSeparator_length {s r : Text} (h : parseSeparator s = some r) : r.length < s.length := by
  obtain ⟨s', hs, rfl, -⟩ := parseSeparator_eq_some.mp h
  have h1 := length_dropWhile_le isOws s
  have h2 := length_dropWhile_le isOws s'
  rw [← dropOws, hs, List.length_cons] at h1
  show (s'.dropWhile isOws).length < s.length
  omega

theorem dropOws_append_comma {s t : Text} (h : dropOws s = []) : dropOws (s ++ ',' :: t) = ',' :: t := by
  rw [dropOws, dropWhile_append_stop (by simp [isOws]), ← dropOws, h, List.nil_append]

/-! ### Members -/

/-- A parser of one member, which does not look past the comma after it. -/
structure MemberParser (α : Type) where
  parse : Text → Option (α × Text)
  length : ∀ {s r : Text} {a : α}, parse s = some (a, r) → r.length < s.length
  extend : ∀ {s r t : Text} {a : α}, parse s = some (a, r) → Stop t → parse (s ++ t) = some (a, r ++ t)
  start : ∀ {s r : Text} {a : α}, parse s = some (a, r) → ∀ c ∈ s.head?, isOws c = false ∧ c ≠ ','

namespace MemberParser
variable {α : Type} (p : MemberParser α)

def loop : Nat → Text → Option (List α)
  | 0, _ => none
  | _ + 1, [] => some []
  | n + 1, s => (p.parse s).bind fun e =>
    if (dropOws e.2).isEmpty then some [e.1] else (parseSeparator e.2).bind fun r => (loop n r).map (e.1 :: ·)

/-- The members of a text. -/
def members (s : Text) : Option (List α) := p.loop (s.length + 1) s

theorem loop_ne {n : Nat} {s : Text} (h : s ≠ []) : p.loop (n + 1) s = (p.parse s).bind fun e =>
    if (dropOws e.2).isEmpty then some [e.1] else (parseSeparator e.2).bind fun r => (p.loop n r).map (e.1 :: ·) := by
  rw [loop]
  exact h

theorem loop_fuel {n m : Nat} {s : Text} (hn : s.length < n) (hm : s.length < m) : p.loop n s = p.loop m s := by
  induction n generalizing m s with
  | zero => omega
  | succ n ih =>
    obtain ⟨m, rfl⟩ : ∃ m', m = m' + 1 := ⟨m - 1, by omega⟩
    by_cases hs : s = []
    · subst hs
      rfl
    · rw [loop_ne p hs, loop_ne p hs]
      cases he : p.parse s with
      | none => rfl
      | some e =>
        rw [Option.bind_some, Option.bind_some]
        split
        · rfl
        · cases hr : parseSeparator e.2 with
          | none => rfl
          | some r =>
            have h₁ := p.length he
            have h₂ := parseSeparator_length hr
            rw [Option.bind_some, Option.bind_some, ih (m := m) (by omega) (by omega)]

theorem loop_dropSp (s : Text) : p.loop (s.length + 1) (dropSp s) = p.members (dropSp s) :=
  p.loop_fuel (Nat.lt_succ_of_le (length_dropWhile_le _ s)) (Nat.lt_succ_self _)

@[simp] theorem members_nil : p.members [] = some [] := rfl

theorem members_ne {s : Text} (h : s ≠ []) : p.members s = (p.parse s).bind fun e =>
    if (dropOws e.2).isEmpty then some [e.1] else (parseSeparator e.2).bind fun r => (p.members r).map (e.1 :: ·) := by
  rw [members, loop_ne p h]
  cases he : p.parse s with
  | none => rfl
  | some e =>
    rw [Option.bind_some, Option.bind_some]
    split
    · rfl
    · cases hr : parseSeparator e.2 with
      | none => rfl
      | some r =>
        have h₁ := p.length he
        have h₂ := parseSeparator_length hr
        rw [Option.bind_some, Option.bind_some, members, p.loop_fuel (by omega) (Nat.lt_succ_self _)]

/-- The members that a text holds: the last one, or one with a separator and the members behind it. -/
inductive Reads : Text → List α → Prop
  | last {s r : Text} {a : α} : p.parse s = some (a, r) → dropOws r = [] → Reads s [a]
  | more {s r r' : Text} {a : α} {l : List α} : p.parse s = some (a, r) → parseSeparator r = some r' → Reads r' l →
      Reads s (a :: l)

theorem parse_ne_nil {s r : Text} {a : α} (h : p.parse s = some (a, r)) : s ≠ [] := by
  rintro rfl
  exact absurd (p.length h) (Nat.not_lt_zero _)

variable {p}

theorem Reads.text_ne_nil {s : Text} {l : List α} (h : p.Reads s l) : s ≠ [] := by
  cases h with
  | last he _ => exact p.parse_ne_nil he
  | more he _ _ => exact p.parse_ne_nil he

theorem Reads.ne_nil {s : Text} {l : List α} (h : p.Reads s l) : l ≠ [] := by
  cases h with
  | last _ _ => exact List.cons_ne_nil _ _
  | more _ _ _ => exact List.cons_ne_nil _ _

theorem Reads.members {s : Text} {l : List α} (h : p.Reads s l) : p.members s = some l := by
  induction h with
  | last he hr => rw [members_ne p (p.parse_ne_nil he), he, Option.bind_some, if_pos (List.isEmpty_iff.mpr hr)]
  | more he hr _ ih =>
    obtain ⟨s', hs', -⟩ := parseSeparator_eq_some.mp hr
    rw [members_ne p (p.parse_ne_nil he), he, Option.bind_some, if_neg (by rw [hs']; simp), hr, Option.bind_some, ih]
    rfl

theorem reads_of_members {s : Text} {l : List α} (hs : s ≠ []) (h : p.members s = some l) : p.Reads s l := by
  induction hn : s.length using Nat.strong_induction_on generalizing s l with
  | _ n ih =>
    rw [members_ne p hs] at h
    obtain ⟨⟨a, r⟩, he, h⟩ := Option.bind_eq_some_iff.mp h
    split at h
    · rename_i hempty
      cases h
      exact .last he (List.isEmpty_iff.mp hempty)
    · obtain ⟨r', hr, h⟩ := Option.bind_eq_some_iff.mp h
      obtain ⟨l', hl, rfl⟩ := Option.map_eq_some_iff.mp h
      obtain ⟨-, -, -, hne⟩ := parseSeparator_eq_some.mp hr
      have hlt : r.length < s.length := p.length he
      have hlt' : r'.length < r.length := parseSeparator_length hr
      exact .more he hr (ih r'.length (by omega) hne hl rfl)

/-- Behind a text of members and a comma the members of the rest are read. -/
theorem Reads.members_append {s : Text} {l : List α} (h : p.Reads s l) (y : Text) :
    p.members (s ++ ',' :: y) = if dropOws y = [] then none else (p.members (dropOws y)).map (l ++ ·) := by
  have ht : Stop (',' :: y) := Stop.cons (by simp)
  induction h with
  | @last s r a he hr =>
    have hcomma := dropOws_append_comma (t := y) hr
    rw [members_ne p (List.append_ne_nil_of_left_ne_nil (p.parse_ne_nil he) _), p.extend he ht, Option.bind_some,
      if_neg (by rw [hcomma]; simp)]
    split
    · rename_i hy
      have hnone : parseSeparator (r ++ ',' :: y) = none := by
        rw [parseSeparator, hcomma]
        simp [hy]
      rw [hnone]
      rfl
    · rename_i hy
      rw [parseSeparator_eq_some.mpr ⟨y, hcomma, rfl, hy⟩, Option.bind_some]
      rfl
  | @more s r r' a l he hr _ ih =>
    obtain ⟨s', hs', -⟩ := parseSeparator_eq_some.mp hr
    have hne : ¬(dropOws (r ++ ',' :: y)).isEmpty = true := by
      rw [dropOws, dropWhile_append_of_cons hs']
      exact Bool.false_ne_true
    rw [members_ne p (List.append_ne_nil_of_left_ne_nil (p.parse_ne_nil he) _), p.extend he ht, Option.bind_some, if_neg hne,
      parseSeparator_extend hr, Option.bind_some, ih]
    split
    · rfl
    · rw [Option.map_map]
      rfl

/-- A line of members holds nothing but spaces before its first one. -/
theorem dropOws_eq_dropSp {y : Text} {l : List α} (h : p.members (dropSp y) = some l) : dropOws y = dropSp y := by
  have hstart : ∀ c ∈ (dropSp y).head?, isOws c = false := by
    intro c hc
    have hne : dropSp y ≠ [] := by
      intro hnil
      rw [hnil] at hc
      cases hc
    have hhead : ∀ {l : List α}, p.Reads (dropSp y) l → isOws c = false := by
      rintro l (⟨he, -⟩ | ⟨he, -, -⟩) <;> exact (p.start he c hc).1
    exact hhead (reads_of_members hne h)
  have hsp : ∀ c ∈ y.takeWhile (· == ' '), isOws c = true := by
    intro c hc
    have := List.mem_takeWhile_imp hc
    simp only [beq_iff_eq] at this
    rw [this]
    rfl
  calc dropOws y = (y.takeWhile (· == ' ') ++ dropSp y).dropWhile isOws := by
        rw [dropSp, List.takeWhile_append_dropWhile]
        rfl
    _ = dropSp y := dropWhile_append_of_all hsp hstart

/-- Joining a line of members with another line. -/
theorem members_join {x y : Text} {l : List α} (hl : p.members (dropSp x) = some l) (hx : dropSp x ≠ []) :
    p.members (dropSp (x ++ ',' :: ' ' :: y)) =
      if dropOws y = [] then none else (p.members (dropOws y)).map (l ++ ·) := by
  have hdrop : dropSp (x ++ ',' :: ' ' :: y) = dropSp x ++ ',' :: ' ' :: y := dropWhile_append_of_ne_nil hx
  have hows : dropOws (' ' :: y) = dropOws y := rfl
  rw [hdrop, (reads_of_members hx hl).members_append, hows]

/-- Two lines of members are one line of all of them. -/
theorem Reads.join {x y : Text} {l l' : List α} (h : p.Reads (dropSp x) l) (h' : p.Reads (dropSp y) l') :
    p.Reads (dropSp (x ++ ',' :: ' ' :: y)) (l ++ l') := by
  have hjoin : p.members (dropSp (x ++ ',' :: ' ' :: y)) = some (l ++ l') := by
    rw [members_join h.members h.text_ne_nil, dropOws_eq_dropSp h'.members, if_neg h'.text_ne_nil, h'.members]
    rfl
  refine reads_of_members ?_ hjoin
  intro hnil
  rw [hnil] at hjoin
  exact h.ne_nil (List.append_eq_nil_iff.mp (Option.some.inj hjoin).symm).1

/-- A line does not start with a comma. -/
theorem members_join_blank {x y : Text} (hx : dropSp x = []) : p.members (dropSp (x ++ ',' :: y)) = none := by
  have hdrop : dropSp (x ++ ',' :: y) = ',' :: y := by
    rw [dropSp, dropWhile_append_stop (by simp), ← dropSp, hx, List.nil_append]
  rw [hdrop, members_ne p (List.cons_ne_nil _ _)]
  cases he : p.parse (',' :: y) with
  | none => rfl
  | some e => exact absurd rfl (p.start he ',' rfl).2

end MemberParser

/-! ### Lists and dictionaries -/

def listMember : MemberParser ListEntry where
  parse := parseItemOrInnerList
  length := parseItemOrInnerList_length
  extend := parseItemOrInnerList_extend
  start := by
    intro s r e h c hc
    cases s with
    | nil => cases hc
    | cons d s =>
      obtain rfl : d = c := by simpa using hc
      refine ⟨?_, ?_⟩
      · cases ho : isOws d
        · rfl
        · simp only [isOws, Bool.or_eq_true, beq_iff_eq] at ho
          rcases ho with rfl | rfl <;> cases h
      · rintro rfl
        cases h

def dictionaryMember : MemberParser (Key × ListEntry) where
  parse := parseMember
  length := by
    rintro s r ⟨k, e⟩ h
    obtain ⟨r', hk, he⟩ := parseMember_eq_some.mp h
    exact Nat.lt_of_le_of_lt (parseMemberValue_length he) (parseKey_length hk)
  extend := by
    rintro s r t ⟨k, e⟩ h ht
    obtain ⟨r', hk, he⟩ := parseMember_eq_some.mp h
    exact parseMember_eq_some.mpr ⟨r' ++ t, parseKey_extend hk ht.noToken, parseMemberValue_extend he ht⟩
  start := by
    rintro s r ⟨k, e⟩ h c hc
    obtain ⟨r', hk, -⟩ := parseMember_eq_some.mp h
    obtain ⟨hk, -⟩ := parseKey_eq_some.mp hk
    cases s with
    | nil => cases hc
    | cons d s =>
      obtain rfl : d = c := by simpa using hc
      have hd : isKeyChar d = true := by
        cases hd : isKeyChar d
        · rw [List.takeWhile_cons_of_neg (by simp [hd])] at hk
          exact absurd hk.symm k.ne_nil
        · rfl
      refine ⟨?_, ?_⟩
      · cases ho : isOws d
        · rfl
        · simp only [isOws, Bool.or_eq_true, beq_iff_eq] at ho
          rcases ho with rfl | rfl <;> exact absurd hd (by decide)
      · rintro rfl
        exact absurd hd (by decide)

theorem parseListLoop_eq {n : Nat} {l : SfList} {s : Text} :
    parseListLoop n l s = (listMember.loop n s).map (l ++ ·) := by
  induction n generalizing l s with
  | zero => rfl
  | succ n ih =>
    cases s with
    | nil => simp [parseListLoop, MemberParser.loop]
    | cons c s =>
      show (parseItemOrInnerList (c :: s)).bind (fun e => if (dropOws e.2).isEmpty then some (l ++ [e.1])
        else (parseSeparator e.2).bind fun r => parseListLoop n (l ++ [e.1]) r) = _
      rw [MemberParser.loop_ne _ (List.cons_ne_nil _ _), Option.map_bind]
      congr 1
      funext e
      dsimp only [Function.comp_apply]
      split
      · rfl
      · rw [Option.map_bind]
        congr 1
        funext r
        rw [ih, Function.comp_apply, Option.map_map]
        congr 1
        funext l'
        simp

theorem parseDictionaryLoop_eq {n : Nat} {d : Dictionary} {s : Text} :
    parseDictionaryLoop n d s = (dictionaryMember.loop n s).map d.extend := by
  induction n generalizing d s with
  | zero => rfl
  | succ n ih =>
    cases s with
    | nil => rfl
    | cons c s =>
      rw [MemberParser.loop_ne _ (List.cons_ne_nil _ _)]
      show (parseKey (c :: s)).bind (fun k => (parseMemberValue k.2).bind fun e =>
        if (dropOws e.2).isEmpty then some (d.insert k.1 e.1)
        else (parseSeparator e.2).bind fun r => parseDictionaryLoop n (d.insert k.1 e.1) r) =
        (((parseKey (c :: s)).bind fun k => (parseMemberValue k.2).map fun e => ((k.1, e.1), e.2)).bind _).map _
      rw [Option.bind_assoc, Option.map_bind]
      congr 1
      funext k
      rw [Function.comp_apply, Option.bind_map, Option.map_bind]
      congr 1
      funext e
      dsimp only [Function.comp_apply]
      split
      · rfl
      · rw [Option.map_bind]
        congr 1
        funext r
        rw [ih, Function.comp_apply, Option.map_map]
        rfl

theorem parseListField_eq (s : Text) : parseListField s = listMember.members (dropSp s) := by
  rw [parseListField, parseListLoop_eq, MemberParser.loop_dropSp]
  exact Option.map_id'

theorem parseDictionaryField_eq (s : Text) :
    parseDictionaryField s = (dictionaryMember.members (dropSp s)).map IndexMap.ofList := by
  rw [parseDictionaryField, parseDictionaryLoop_eq, MemberParser.loop_dropSp]
  rfl

theorem dropSp_ne_nil_of_members {x : Text} {d : Dictionary} (h : parseDictionaryField x = some d) (hd : d.entries ≠ []) :
    dropSp x ≠ [] := by
  intro hnil
  rw [parseDictionaryField_eq, hnil] at h
  cases h
  exact hd rfl

theorem dropOws_head (y : Text) : ∀ c ∈ (dropOws y).head?, isOws c = false := by
  intro c hc
  have := List.head?_dropWhile_not isOws y
  rw [← dropOws, hc] at this
  simpa using this

theorem dropSp_dropOws (y : Text) : dropSp (dropOws y) = dropOws y := by
  have hhead := dropOws_head y
  cases hy : dropOws y with
  | nil => rfl
  | cons c s =>
    rw [hy] at hhead
    have hc := hhead c rfl
    refine List.dropWhile_cons_of_neg ?_
    rw [beq_iff_eq]
    rintro rfl
    cases hc

/-- Joining a line that holds a member with another line, whose white space in front is skipped as that of a member. -/
theorem parseDictionaryField_join {x y : Text} {d : Dictionary} (hx : parseDictionaryField x = some d) (hd : d.entries ≠ []) :
    parseDictionaryField (x ++ ',' :: ' ' :: y) = if dropOws y = [] then none
      else (parseDictionaryField (dropOws y)).map fun d' => d.extend d'.entries := by
  have hne := dropSp_ne_nil_of_members hx hd
  rw [parseDictionaryField_eq] at hx ⊢
  obtain ⟨l, hl, rfl⟩ := Option.map_eq_some_iff.mp hx
  rw [MemberParser.members_join hl hne, parseDictionaryField_eq, dropSp_dropOws]
  split
  · rfl
  · rw [Option.map_map, Option.map_map]
    congr 1
    funext l'
    rw [Function.comp_apply, Function.comp_apply, IndexMap.extend_entries_ofList, IndexMap.ofList, IndexMap.extend_append]
    rfl

/-- Joining two lines that each hold a member. -/
theorem parseDictionaryField_combine {x y : Text} {dx dy : Dictionary} (hx : parseDictionaryField x = some dx)
    (hy : parseDictionaryField y = some dy) (hx' : dx.entries ≠ []) (hy' : dy.entries ≠ []) :
    parseDictionaryField (x ++ ',' :: ' ' :: y) = some (dx.extend dy.entries) := by
  have hows : dropOws y = dropSp y := by
    obtain ⟨l, hl, -⟩ := Option.map_eq_some_iff.mp (parseDictionaryField_eq y ▸ hy)
    exact MemberParser.dropOws_eq_dropSp hl
  have hdrop : parseDictionaryField (dropOws y) = some dy := by
    rw [parseDictionaryField_eq, dropSp_dropOws, hows, ← parseDictionaryField_eq, hy]
  rw [parseDictionaryField_join hx hx', if_neg (hows ▸ dropSp_ne_nil_of_members hy hy'), hdrop, Option.map_some]

end Sfv
