import HttpSig.Sfv.Combine

/-! White space behind a text. No parser takes a space or a tab that stands at the very end into its value: it fails with
it as without it, or leaves it over (`_ows`). So a line has the same members whatever white space follows it. -/

namespace Sfv
open Rust

theorem isOws_iff {c : Char} : isOws c = true ↔ c = ' ' ∨ c = '\t' := by
  rw [isOws, Bool.or_eq_true, beq_iff_eq, beq_iff_eq]

theorem isTokenChar_of_isOws {c : Char} (h : isOws c = true) : isTokenChar c = false := by
  rcases isOws_iff.mp h with rfl | rfl <;> decide

/-- A result with one character more left over. -/
def leave {α : Type} (c : Char) (e : α × Text) : α × Text := (e.1, e.2 ++ [c])

section
variable {c : Char} (hc : isOws c = true)
include hc

theorem noToken_ows : NoToken [c] := NoToken.cons (isTokenChar_of_isOws hc)

theorem parseKey_ows (s : Text) : parseKey (s ++ [c]) = (parseKey s).map (leave c) := by
  have hstop := (noToken_ows hc).key
  unfold parseKey
  simp only [takeWhile_append_stop hstop, dropWhile_append_stop hstop]
  split <;> rfl

/-! ### Bare items -/

theorem parseUnsigned_ows (sign : Int) (s : Text) : parseUnsigned sign (s ++ [c]) = (parseUnsigned sign s).map (leave c) := by
  have hstop := (noToken_ows hc).digit
  by_cases hdot : ∃ rest, s.dropWhile Char.isDigit = '.' :: rest
  · obtain ⟨rest, hrest⟩ := hdot
    have hrest' : (s ++ [c]).dropWhile Char.isDigit = '.' :: (rest ++ [c]) := by
      rw [dropWhile_append_stop hstop, hrest]
      rfl
    rw [parseUnsigned_of_dot hrest, parseUnsigned_of_dot hrest', takeWhile_append_stop hstop, takeWhile_append_stop hstop,
      dropWhile_append_stop hstop]
    split
    · rfl
    · rw [Option.map_map]
      rfl
  · have hne : ∀ rest, (s ++ [c]).dropWhile Char.isDigit ≠ '.' :: rest := by
      rw [dropWhile_append_stop hstop]
      refine ne_cons_append (not_exists.mp hdot) ?_
      rintro rest ⟨⟩
      cases hc
    rw [parseUnsigned_of_not_dot (not_exists.mp hdot), parseUnsigned_of_not_dot hne, takeWhile_append_stop hstop,
      dropWhile_append_stop hstop]
    split
    · rfl
    · rw [Option.map_map]
      rfl

theorem parseNumber_ows (s : Text) : parseNumber (s ++ [c]) = (parseNumber s).map (leave c) := by
  by_cases hs : ∃ s', s = '-' :: s'
  · obtain ⟨s', rfl⟩ := hs
    exact parseUnsigned_ows hc (-1) s'
  · have hne : ∀ r, s ++ [c] ≠ '-' :: r := by
      refine ne_cons_append (not_exists.mp hs) ?_
      rintro r ⟨⟩
      cases hc
    rw [parseNumber_of_ne (not_exists.mp hs), parseNumber_of_ne hne, parseUnsigned_ows hc]

theorem parseStringBody_ows (s : Text) : parseStringBody (s ++ [c]) = (parseStringBody s).map (leave c) := by
  fun_induction parseStringBody s with
  | case1 => rcases isOws_iff.mp hc with rfl | rfl <;> rfl
  | case2 s => rfl
  | case3 d s hd ih =>
    rw [List.cons_append, List.cons_append, parseStringBody_escape, if_pos hd, ih, Option.map_map, Option.map_map]
    rfl
  | case4 d s hd =>
    rw [List.cons_append, List.cons_append, parseStringBody_escape, if_neg hd]
    rfl
  | case5 d s hq _ hp ih =>
    rw [Bool.and_eq_true, bne_iff_ne] at hp
    rw [List.cons_append, parseStringBody_cons hq hp.2, if_pos hp.1, ih, Option.map_map, Option.map_map]
    rfl
  | case6 d s hq hesc hp =>
    by_cases hb : d = '\\'
    · subst hb
      cases s with
      | nil => rcases isOws_iff.mp hc with rfl | rfl <;> rfl
      | cons e s => exact absurd rfl (hesc e s rfl)
    · rw [List.cons_append, parseStringBody_cons hq hb, if_neg]
      · rfl
      · simpa [hb] using hp

theorem parseString_ows (s : Text) : parseString (s ++ [c]) = (parseString s).map (leave c) := by
  have hstring : ∀ t, parseString t = (parseStringBody t).bind fun e =>
      (SfString.ofText? e.1).map fun str => (BareItem.string str, e.2) := by
    intro t
    show (parseStringBody t).bind _ = _
    congr 1
    funext ⟨u, r⟩
    show (SfString.ofText? u).bind _ = _
    cases SfString.ofText? u <;> rfl
  rw [hstring, hstring, parseStringBody_ows hc, Option.bind_map, Option.map_bind]
  congr 1
  funext e
  rw [Function.comp_apply, Function.comp_apply, Option.map_map]
  rfl

theorem parseToken_ows (s : Text) : parseToken (s ++ [c]) = (parseToken s).map (leave c) := by
  have hstop := noToken_ows hc
  unfold parseToken
  simp only [takeWhile_append_stop hstop, dropWhile_append_stop hstop]
  split <;> rfl

theorem parseByteSequence_ows (s : Text) : parseByteSequence (s ++ [c]) = (parseByteSequence s).map (leave c) := by
  cases h : parseByteSequence s with
  | some e => exact parseByteSequence_extend h [c]
  | none =>
    cases h' : parseByteSequence (s ++ [c]) with
    | none => rfl
    | some e =>
      obtain ⟨b, r⟩ := e
      obtain ⟨d, bs, hs, hd, hbs, hb⟩ := parseByteSequence_eq_some.mp h'
      -- The closing colon is not the last character, so it closes the text without that one too.
      rcases List.eq_nil_or_concat r with rfl | ⟨r, e, rfl⟩
      · obtain ⟨-, hlast⟩ := List.append_inj' hs rfl
        cases hlast
        cases hc
      · rw [List.concat_eq_append, ← List.cons_append, ← List.append_assoc] at hs
        obtain ⟨hs, -⟩ := List.append_inj' hs rfl
        rw [parseByteSequence_eq_some.mpr ⟨d, bs, hs, hd, hbs, hb⟩] at h
        cases h

theorem parseBoolean_ows (s : Text) : parseBoolean (s ++ [c]) = (parseBoolean s).map (leave c) := by
  match s with
  | [] => rcases isOws_iff.mp hc with rfl | rfl <;> rfl
  | d :: s =>
    by_cases h1 : d = '1'
    · subst h1
      rfl
    · by_cases h0 : d = '0'
      · subst h0
        rfl
      · have hnone : ∀ t, parseBoolean (d :: t) = none := by
          intro t
          unfold parseBoolean
          split
          · rename_i heq
            exact absurd (List.cons.inj heq).1 h1
          · rename_i heq
            exact absurd (List.cons.inj heq).1 h0
          · rfl
        rw [List.cons_append, hnone, hnone]
        rfl

theorem parseDate_ows (s : Text) : parseDate (s ++ [c]) = (parseDate s).map (leave c) := by
  unfold parseDate
  rw [parseNumber_ows hc]
  cases parseNumber s with
  | none => rfl
  | some e =>
    obtain ⟨b, r⟩ := e
    cases b <;> rfl

theorem hexValue_ows : hexValue c = none := by
  rcases isOws_iff.mp hc with rfl | rfl <;> decide

theorem parseDisplayBody_ows (s : Text) : parseDisplayBody (s ++ [c]) = (parseDisplayBody s).map (leave c) := by
  fun_induction parseDisplayBody s with
  | case1 => rcases isOws_iff.mp hc with rfl | rfl <;> rfl
  | case2 s => rfl
  | case3 a b s ih =>
    rw [List.cons_append, List.cons_append, List.cons_append, parseDisplayBody, ih]
    cases hexValue a with
    | none => rfl
    | some x =>
      cases hexValue b with
      | none => rfl
      | some y => cases parseDisplayBody s <;> rfl
  | case4 d s hq hpercent hp ih =>
    rw [Bool.and_eq_true, bne_iff_ne] at hp
    rw [List.cons_append, parseDisplayBody_cons hq hp.2, if_pos hp.1, ih, Option.map_map, Option.map_map]
    rfl
  | case5 d s hq hpercent hp =>
    by_cases hb : d = '%'
    · subst hb
      rcases s with _ | ⟨a, _ | ⟨b, s⟩⟩
      · rcases isOws_iff.mp hc with rfl | rfl <;> rfl
      · show parseDisplayBody ['%', a, c] = none
        rw [parseDisplayBody, hexValue_ows hc]
        cases hexValue a <;> rfl
      · exact absurd rfl (hpercent a b s rfl)
    · rw [List.cons_append, parseDisplayBody_cons hq hb, if_neg]
      · rfl
      · simpa [hb] using hp

theorem parseDisplayString_ows (s : Text) : parseDisplayString (s ++ [c]) = (parseDisplayString s).map (leave c) := by
  have hquote : ∀ t, parseDisplayString ('"' :: t) = (parseDisplayBody t).bind fun e =>
      (fromUtf8 e.1).map fun u => (BareItem.displayString u, e.2) := by
    intro t
    show (parseDisplayBody t).bind _ = _
    congr 1
    funext ⟨bs, r⟩
    show (fromUtf8 bs).bind _ = _
    cases fromUtf8 bs <;> rfl
  have hother : ∀ {t : Text}, (∀ r, t ≠ '"' :: r) → parseDisplayString t = none := by
    intro t ht
    unfold parseDisplayString
    split
    · exact absurd rfl (ht _)
    · rfl
  by_cases hs : ∃ s', s = '"' :: s'
  · obtain ⟨s', rfl⟩ := hs
    rw [List.cons_append, hquote, hquote, parseDisplayBody_ows hc, Option.bind_map, Option.map_bind]
    congr 1
    funext e
    rw [Function.comp_apply, Function.comp_apply, Option.map_map]
    rfl
  · have hne : ∀ r, s ++ [c] ≠ '"' :: r := by
      refine ne_cons_append (not_exists.mp hs) ?_
      rintro r ⟨⟩
      cases hc
    rw [hother (not_exists.mp hs), hother hne]
    rfl

theorem parseBareItem_ows (s : Text) : parseBareItem (s ++ [c]) = (parseBareItem s).map (leave c) := by
  cases s with
  | nil => rcases isOws_iff.mp hc with rfl | rfl <;> rfl
  | cons d s =>
    rw [List.cons_append, parseBareItem_cons, parseBareItem_cons]
    split_ifs
    · exact parseNumber_ows hc (d :: s)
    · exact parseString_ows hc s
    · exact parseToken_ows hc (d :: s)
    · exact parseByteSequence_ows hc s
    · exact parseBoolean_ows hc s
    · exact parseDate_ows hc s
    · exact parseDisplayString_ows hc s
    · rfl

/-! ### Parameters and items -/

theorem ows_ne {d : Char} (hd : isOws d = false) : ∀ r : Text, [c] ≠ d :: r := by
  rintro r ⟨⟩
  rw [hc] at hd
  cases hd

theorem parseParameterValue_ows (s : Text) : parseParameterValue (s ++ [c]) = (parseParameterValue s).map (leave c) := by
  by_cases hs : ∃ s', s = '=' :: s'
  · obtain ⟨s', rfl⟩ := hs
    exact parseBareItem_ows hc s'
  · rw [parseParameterValue_of_ne (not_exists.mp hs),
      parseParameterValue_of_ne (ne_cons_append (not_exists.mp hs) (ows_ne hc (by decide)))]
    rfl

/-- The spaces in front of a text take in a space behind it only when there is nothing else. -/
theorem dropSp_ows (s : Text) : dropSp (s ++ [c]) = dropSp s ++ [c] ∨ (dropSp s = [] ∧ dropSp (s ++ [c]) = []) := by
  by_cases hs : dropSp s = []
  · rw [dropSp, List.dropWhile_append, ← dropSp, hs]
    rcases isOws_iff.mp hc with rfl | rfl
    · exact Or.inr ⟨rfl, rfl⟩
    · exact Or.inl rfl
  · exact Or.inl (dropWhile_append_of_ne_nil hs)

theorem parseKey_dropSp_ows (s : Text) : parseKey (dropSp (s ++ [c])) = (parseKey (dropSp s)).map (leave c) := by
  rcases dropSp_ows hc s with h | ⟨h, h'⟩
  · rw [h, parseKey_ows hc]
  · rw [h, h']
    rfl

theorem parseParametersLoop_ows (n : Nat) (ps : Parameters) (s : Text) :
    parseParametersLoop n ps (s ++ [c]) = (parseParametersLoop n ps s).map (leave c) := by
  induction n generalizing ps s with
  | zero => rfl
  | succ n ih =>
    by_cases hs : ∃ s', s = ';' :: s'
    · obtain ⟨s', rfl⟩ := hs
      rw [List.cons_append, parseParametersLoop_semicolon, parseParametersLoop_semicolon, parseKey_dropSp_ows hc,
        Option.bind_map, Option.map_bind]
      congr 1
      funext e
      rw [Function.comp_apply, Function.comp_apply, leave, parseParameterValue_ows hc, Option.bind_map, Option.map_bind]
      congr 1
      funext v
      exact ih _ _
    · rw [parseParametersLoop_of_ne (not_exists.mp hs),
        parseParametersLoop_of_ne (ne_cons_append (not_exists.mp hs) (ows_ne hc (by decide)))]
      rfl

theorem parseParameters_ows (s : Text) : parseParameters (s ++ [c]) = (parseParameters s).map (leave c) := by
  have hfuel : s.length < (s ++ [c]).length + 1 := by
    rw [List.length_append]
    omega
  rw [parseParameters, parseParametersLoop_ows hc, parseParameters, parseParametersLoop_fuel hfuel (Nat.lt_succ_self _)]

theorem parseItem_ows (s : Text) : parseItem (s ++ [c]) = (parseItem s).map (leave c) := by
  have hitem : ∀ t, parseItem t = (parseBareItem t).bind fun b =>
      (parseParameters b.2).map fun ps => ((⟨b.1, ps.1⟩ : Item), ps.2) := by
    intro t
    show (parseBareItem t).bind _ = _
    congr 1
    funext ⟨b, r⟩
    show (parseParameters r).bind _ = _
    cases parseParameters r <;> rfl
  rw [hitem, hitem, parseBareItem_ows hc, Option.bind_map, Option.map_bind]
  congr 1
  funext b
  rw [Function.comp_apply, Function.comp_apply, leave, parseParameters_ows hc, Option.map_map, Option.map_map]
  rfl

/-! ### Inner lists -/

theorem parseInnerListLoop_blank {n : Nat} {items : List Item} {s : Text} (hs : dropSp s = [] ∨ dropSp s = [c]) :
    parseInnerListLoop n items s = none := by
  cases n with
  | zero => rfl
  | succ n =>
    rcases hs with hs | hs
    · exact parseInnerListLoop_nil hs
    · have hitem : parseItem [c] = none := parseItem_ows hc []
      rw [parseInnerListLoop_item hs (by rintro rfl; cases hc), hitem]
      rfl

theorem parseInnerListLoop_ows (n : Nat) (items : List Item) (s : Text) :
    parseInnerListLoop n items (s ++ [c]) = (parseInnerListLoop n items s).map (leave c) := by
  induction n generalizing items s with
  | zero => rfl
  | succ n ih =>
    rcases dropSp_cases s with hs | ⟨r, hs⟩ | ⟨d, r, hs, hd⟩
    · have hs' : dropSp (s ++ [c]) = [] ∨ dropSp (s ++ [c]) = [c] := by
        rcases dropSp_ows hc s with h | ⟨-, h⟩
        · exact Or.inr (by rw [h, hs]; rfl)
        · exact Or.inl h
      rw [parseInnerListLoop_blank hc hs', parseInnerListLoop_nil hs]
      rfl
    · have hs' : dropSp (s ++ [c]) = ')' :: (r ++ [c]) := dropWhile_append_of_cons hs [c]
      rw [parseInnerListLoop_close hs, parseInnerListLoop_close hs', parseParameters_ows hc, Option.map_map, Option.map_map]
      rfl
    · have hs' : dropSp (s ++ [c]) = d :: (r ++ [c]) := dropWhile_append_of_cons hs [c]
      rw [parseInnerListLoop_item hs hd, parseInnerListLoop_item hs' hd, ← List.cons_append, parseItem_ows hc,
        Option.bind_map, Option.map_bind]
      congr 1
      funext e
      obtain ⟨i, u⟩ := e
      rw [Function.comp_apply, Function.comp_apply, leave]
      dsimp only
      cases u with
      | nil =>
        -- The item was the last thing in the text, so the list is not closed.
        have hblank : dropSp [c] = [] ∨ dropSp [c] = [c] := by
          rcases isOws_iff.mp hc with rfl | rfl
          · exact Or.inl rfl
          · exact Or.inr rfl
        rw [List.nil_append, parseInnerListLoop_blank hc hblank, ite_self]
        rfl
      | cons e u =>
        show (if startsWith (e :: u) ' ' || startsWith (e :: u) ')' then _ else none) = _
        split
        · exact ih _ _
        · rfl

theorem parseItemOrInnerList_ows (s : Text) :
    parseItemOrInnerList (s ++ [c]) = (parseItemOrInnerList s).map (leave c) := by
  by_cases hs : ∃ s', s = '(' :: s'
  · obtain ⟨s', rfl⟩ := hs
    have hfuel : s'.length < (s' ++ [c]).length + 1 := by
      rw [List.length_append]
      omega
    rw [List.cons_append, parseItemOrInnerList_paren, parseItemOrInnerList_paren, parseInnerListLoop_ows hc,
      parseInnerListLoop_fuel hfuel (Nat.lt_succ_self _), Option.map_map, Option.map_map]
    rfl
  · rw [parseItemOrInnerList_of_ne (not_exists.mp hs),
      parseItemOrInnerList_of_ne (ne_cons_append (not_exists.mp hs) (ows_ne hc (by decide))), parseItem_ows hc,
      Option.map_map, Option.map_map]
    rfl

theorem parseMemberValue_ows (s : Text) : parseMemberValue (s ++ [c]) = (parseMemberValue s).map (leave c) := by
  by_cases hs : ∃ s', s = '=' :: s'
  · obtain ⟨s', rfl⟩ := hs
    exact parseItemOrInnerList_ows hc s'
  · rw [parseMemberValue_of_ne (not_exists.mp hs),
      parseMemberValue_of_ne (ne_cons_append (not_exists.mp hs) (ows_ne hc (by decide))), parseParameters_ows hc,
      Option.map_map, Option.map_map]
    rfl

theorem parseMember_ows (s : Text) : parseMember (s ++ [c]) = (parseMember s).map (leave c) := by
  rw [parseMember, parseMember, parseKey_ows hc, Option.bind_map, Option.map_bind]
  congr 1
  funext k
  rw [Function.comp_apply, Function.comp_apply, leave, parseMemberValue_ows hc, Option.map_map, Option.map_map]
  rfl

/-! ### Members -/

theorem dropOws_ows (s : Text) : dropOws (s ++ [c]) = [] ↔ dropOws s = [] := by
  have hblank : dropOws [c] = [] := List.dropWhile_cons_of_pos hc
  rw [dropOws, List.dropWhile_append, ← dropOws, ← dropOws, hblank]
  split
  · rename_i h
    exact iff_of_true rfl (List.isEmpty_iff.mp h)
  · rename_i h
    exact iff_of_false (by simp) fun hnil => h (List.isEmpty_iff.mpr hnil)

theorem parseSeparator_ows (s : Text) : parseSeparator (s ++ [c]) = (parseSeparator s).map (· ++ [c]) := by
  cases h : parseSeparator s with
  | some r => exact parseSeparator_extend h [c]
  | none =>
    cases h' : parseSeparator (s ++ [c]) with
    | none => rfl
    | some r =>
      obtain ⟨s', hs', rfl, hne⟩ := parseSeparator_eq_some.mp h'
      have hdrop : dropOws s ≠ [] := fun hnil => by
        rw [(dropOws_ows hc s).mpr hnil] at hs'
        cases hs'
      obtain ⟨d, u, hu⟩ := List.exists_cons_of_ne_nil hdrop
      rw [dropOws, dropWhile_append_of_ne_nil hdrop, ← dropOws, hu, List.cons_append, List.cons.injEq] at hs'
      obtain ⟨rfl, rfl⟩ := hs'
      rw [parseSeparator_eq_some.mpr ⟨u, hu, rfl, fun hnil => hne ((dropOws_ows hc u).mpr hnil)⟩] at h
      cases h

/-- A member parser that leaves white space over. -/
def MemberParser.LeavesOws {α : Type} (p : MemberParser α) : Prop :=
  ∀ {c : Char}, isOws c = true → ∀ s, p.parse (s ++ [c]) = (p.parse s).map (leave c)

theorem MemberParser.LeavesOws.members_ows {α : Type} {p : MemberParser α} (hp : p.LeavesOws) {s : Text} (hs : s ≠ []) :
    p.members (s ++ [c]) = p.members s := by
  induction hn : s.length using Nat.strong_induction_on generalizing s with
  | _ n ih =>
    rw [members_ne p hs, members_ne p (List.append_ne_nil_of_left_ne_nil hs _), hp hc]
    cases he : p.parse s with
    | none => rfl
    | some e =>
      rw [Option.map_some, Option.bind_some, Option.bind_some, leave]
      dsimp only
      by_cases hr : dropOws e.2 = []
      · rw [if_pos (List.isEmpty_iff.mpr ((dropOws_ows hc _).mpr hr)), if_pos (List.isEmpty_iff.mpr hr)]
      · have hr' : ¬dropOws (e.2 ++ [c]) = [] := fun h => hr ((dropOws_ows hc _).mp h)
        rw [if_neg (by rwa [List.isEmpty_iff]), if_neg (by rwa [List.isEmpty_iff]), parseSeparator_ows hc]
        cases hsep : parseSeparator e.2 with
        | none => rfl
        | some r =>
          obtain ⟨-, -, -, hne⟩ := parseSeparator_eq_some.mp hsep
          have hlt : e.2.length < s.length := p.length he
          have hlt' : r.length < e.2.length := parseSeparator_length hsep
          rw [Option.map_some, Option.bind_some, Option.bind_some, ih r.length (by omega) hne rfl]

end

theorem listMember_leavesOws : listMember.LeavesOws := fun hc s => parseItemOrInnerList_ows hc s

theorem dictionaryMember_leavesOws : dictionaryMember.LeavesOws := fun hc s => parseMember_ows hc s

/-- White space behind a text does not change its members. -/
theorem MemberParser.LeavesOws.members_append {α : Type} {p : MemberParser α} (hp : p.LeavesOws) :
    ∀ {q s : Text}, (∀ c ∈ q, isOws c = true) → s ≠ [] → p.members (s ++ q) = p.members s
  | [], s, _, _ => by rw [List.append_nil]
  | c :: q, s, hq, hs => by
    rw [List.forall_mem_cons] at hq
    rw [List.append_cons, hp.members_append hq.2 (List.append_ne_nil_of_left_ne_nil hs _), hp.members_ows hq.1 hs]

end Sfv
