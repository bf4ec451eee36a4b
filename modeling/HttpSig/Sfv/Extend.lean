import HttpSig.Sfv.BareItems

/-! Parsing items, lists and dictionaries is local (`_extend`), and a loop that succeeds with some fuel
does the same with more (`_mono`); with more fuel than the input is long it never runs out (`_fuel`). -/

namespace Sfv
open Rust

/-! ### Parameters -/

theorem parseParameterValue_of_ne {s : Text} (h : ∀ r, s ≠ '=' :: r) : parseParameterValue s = some (.boolean true, s) := by
  unfold parseParameterValue
  split
  · exact absurd rfl (h _)
  · rfl

theorem parseParameterValue_length {s r : Text} {b : BareItem} (h : parseParameterValue s = some (b, r)) :
    r.length ≤ s.length := by
  unfold parseParameterValue at h
  split at h
  · exact Nat.le_succ_of_le (parseBareItem_length h).le
  · cases h
    exact Nat.le_refl _

theorem ne_cons_append {c : Char} {s t : Text} (hs : ∀ r, s ≠ c :: r) (ht : ∀ r, t ≠ c :: r) : ∀ r, s ++ t ≠ c :: r := by
  cases s with
  | nil => exact ht
  | cons d s =>
    intro r h
    rw [List.cons_append] at h
    cases h
    exact hs s rfl

theorem Stop.ne {t : Text} (h : Stop t) {c : Char} (hc : c ≠ ' ' ∧ c ≠ '\t' ∧ c ≠ ')' ∧ c ≠ ',') : ∀ r, t ≠ c :: r := by
  rintro r rfl
  rcases h c (by simp) with h | h | h | h
  · exact hc.1 h
  · exact hc.2.1 h
  · exact hc.2.2.1 h
  · exact hc.2.2.2 h

theorem parseParameterValue_extend {s r t : Text} {b : BareItem} (h : parseParameterValue s = some (b, r)) (ht : Stop t) :
    parseParameterValue (s ++ t) = some (b, r ++ t) := by
  by_cases hs : ∃ s', s = '=' :: s'
  · obtain ⟨s', rfl⟩ := hs
    exact parseBareItem_extend (s := s') h ht.noToken
  · rw [parseParameterValue_of_ne (not_exists.mp hs)] at h
    cases h
    exact parseParameterValue_of_ne (ne_cons_append (not_exists.mp hs) (ht.ne (by decide)))

theorem parseParametersLoop_semicolon (n : Nat) (ps : Parameters) (s : Text) :
    parseParametersLoop (n + 1) ps (';' :: s) =
      (parseKey (dropSp s)).bind fun e => (parseParameterValue e.2).bind fun v =>
        parseParametersLoop n (ps.insert e.1 v.1) v.2 := rfl

theorem parseParametersLoop_of_ne {n : Nat} {ps : Parameters} {s : Text} (h : ∀ r, s ≠ ';' :: r) :
    parseParametersLoop (n + 1) ps s = some (ps, s) := by
  rw [parseParametersLoop]
  exact h

theorem parseParametersLoop_mono {n m : Nat} (hnm : n ≤ m) {ps qs : Parameters} {s r : Text}
    (h : parseParametersLoop n ps s = some (qs, r)) : parseParametersLoop m ps s = some (qs, r) := by
  induction n generalizing m ps s with
  | zero => cases h
  | succ n ih =>
    obtain ⟨m, rfl⟩ : ∃ m', m = m' + 1 := ⟨m - 1, by omega⟩
    by_cases hs : ∃ s', s = ';' :: s'
    · obtain ⟨s', rfl⟩ := hs
      rw [parseParametersLoop_semicolon] at h ⊢
      obtain ⟨e, he, h⟩ := Option.bind_eq_some_iff.mp h
      obtain ⟨v, hv, h⟩ := Option.bind_eq_some_iff.mp h
      rw [he, Option.bind_some, hv, Option.bind_some]
      exact ih (by omega) h
    · rw [parseParametersLoop_of_ne (not_exists.mp hs)] at h ⊢
      exact h

theorem parseParametersLoop_extend {n : Nat} {ps qs : Parameters} {s r t : Text}
    (h : parseParametersLoop n ps s = some (qs, r)) (ht : Stop t) :
    parseParametersLoop n ps (s ++ t) = some (qs, r ++ t) := by
  induction n generalizing ps s with
  | zero => cases h
  | succ n ih =>
    by_cases hs : ∃ s', s = ';' :: s'
    · obtain ⟨s', rfl⟩ := hs
      rw [parseParametersLoop_semicolon] at h
      rw [List.cons_append, parseParametersLoop_semicolon]
      obtain ⟨e, he, h⟩ := Option.bind_eq_some_iff.mp h
      obtain ⟨v, hv, h⟩ := Option.bind_eq_some_iff.mp h
      have hdrop : dropSp (s' ++ t) = dropSp s' ++ t := dropWhile_append_of_ne_nil (parseKey_ne_nil he)
      rw [hdrop, parseKey_extend he ht.noToken, Option.bind_some, parseParameterValue_extend hv ht, Option.bind_some]
      exact ih h
    · rw [parseParametersLoop_of_ne (not_exists.mp hs)] at h
      cases h
      exact parseParametersLoop_of_ne (ne_cons_append (not_exists.mp hs) (ht.ne (by decide)))

/-- Each round of the loop shortens the input, so the fuel does not matter once it exceeds the length. -/
theorem parseParametersLoop_fuel {n m : Nat} {ps : Parameters} {s : Text} (hn : s.length < n) (hm : s.length < m) :
    parseParametersLoop n ps s = parseParametersLoop m ps s := by
  induction n generalizing m ps s with
  | zero => omega
  | succ n ih =>
    obtain ⟨m, rfl⟩ : ∃ m', m = m' + 1 := ⟨m - 1, by omega⟩
    by_cases hs : ∃ s', s = ';' :: s'
    · obtain ⟨s', rfl⟩ := hs
      rw [parseParametersLoop_semicolon, parseParametersLoop_semicolon]
      cases he : parseKey (dropSp s') with
      | none => rfl
      | some e =>
        cases hv : parseParameterValue e.2 with
        | none => simp [hv]
        | some v =>
          have h1 := parseKey_length he
          have h2 := parseParameterValue_length hv
          have h3 := length_dropWhile_le (· == ' ') s'
          simp only [List.length_cons, dropSp] at hn hm h1
          simp only [Option.bind_some, hv]
          exact ih (by omega) (by omega)
    · rw [parseParametersLoop_of_ne (not_exists.mp hs), parseParametersLoop_of_ne (not_exists.mp hs)]

theorem parseParametersLoop_length {n : Nat} {ps qs : Parameters} {s r : Text}
    (h : parseParametersLoop n ps s = some (qs, r)) : r.length ≤ s.length := by
  induction n generalizing ps s with
  | zero => cases h
  | succ n ih =>
    by_cases hs : ∃ s', s = ';' :: s'
    · obtain ⟨s', rfl⟩ := hs
      rw [parseParametersLoop_semicolon] at h
      obtain ⟨e, he, h⟩ := Option.bind_eq_some_iff.mp h
      obtain ⟨v, hv, h⟩ := Option.bind_eq_some_iff.mp h
      have h1 := parseKey_length he
      have h2 := parseParameterValue_length hv
      have h3 := length_dropWhile_le (· == ' ') s'
      have h4 := ih h
      simp only [List.length_cons, dropSp] at h1 ⊢
      omega
    · rw [parseParametersLoop_of_ne (not_exists.mp hs)] at h
      cases h
      exact Nat.le_refl _

theorem parseParameters_extend {s r t : Text} {ps : Parameters} (h : parseParameters s = some (ps, r)) (ht : Stop t) :
    parseParameters (s ++ t) = some (ps, r ++ t) :=
  parseParametersLoop_mono (by simp) (parseParametersLoop_extend h ht)

theorem parseParameters_length {s r : Text} {ps : Parameters} (h : parseParameters s = some (ps, r)) :
    r.length ≤ s.length := parseParametersLoop_length h

/-! ### Items and inner lists -/

theorem parseItem_eq_some {s r : Text} {i : Item} :
    parseItem s = some (i, r) ↔ ∃ r', parseBareItem s = some (i.bareItem, r') ∧ parseParameters r' = some (i.params, r) := by
  constructor
  · intro h
    obtain ⟨⟨b, r'⟩, hb, h⟩ := Option.bind_eq_some_iff.mp h
    obtain ⟨⟨ps, r''⟩, hp, h⟩ := Option.bind_eq_some_iff.mp h
    cases h
    exact ⟨r', hb, hp⟩
  · rintro ⟨r', hb, hp⟩
    unfold parseItem
    rw [hb]
    show (parseParameters r' >>= fun v => some (Item.mk i.bareItem v.1, v.2)) = _
    rw [hp]
    rfl

theorem parseItem_length {s r : Text} {i : Item} (h : parseItem s = some (i, r)) : r.length < s.length := by
  obtain ⟨r', hb, hp⟩ := parseItem_eq_some.mp h
  exact Nat.lt_of_le_of_lt (parseParameters_length hp) (parseBareItem_length hb)

theorem parseItem_extend {s r t : Text} {i : Item} (h : parseItem s = some (i, r)) (ht : Stop t) :
    parseItem (s ++ t) = some (i, r ++ t) := by
  obtain ⟨r', hb, hp⟩ := parseItem_eq_some.mp h
  exact parseItem_eq_some.mpr ⟨r' ++ t, parseBareItem_extend hb ht.noToken, parseParameters_extend hp ht⟩

theorem parseInnerListLoop_close {n : Nat} {items : List Item} {s r : Text} (h : dropSp s = ')' :: r) :
    parseInnerListLoop (n + 1) items s = (parseParameters r).map fun e => (⟨items, e.1⟩, e.2) := by
  rw [parseInnerListLoop, h]
  cases hp : parseParameters r <;> simp [hp]

theorem parseInnerListLoop_item {n : Nat} {items : List Item} {s : Text} {c : Char} {s' : Text} (h : dropSp s = c :: s')
    (hc : c ≠ ')') : parseInnerListLoop (n + 1) items s = (parseItem (c :: s')).bind fun e =>
      if startsWith e.2 ' ' || startsWith e.2 ')' then parseInnerListLoop n (items ++ [e.1]) e.2 else none := by
  rw [parseInnerListLoop, h]
  split
  · rename_i heq
    cases heq
  · rename_i heq
    cases heq
    exact absurd rfl hc
  · rename_i heq
    cases heq
    rfl

theorem startsWith_append {s t : Text} {c : Char} (h : startsWith s c = true) : startsWith (s ++ t) c = true := by
  cases s with
  | nil => cases h
  | cons d s => exact h

theorem parseInnerListLoop_nil {n : Nat} {items : List Item} {s : Text} (h : dropSp s = []) :
    parseInnerListLoop (n + 1) items s = none := by
  rw [parseInnerListLoop, h]

/-- The three ways a round of the inner-list loop goes on. -/
theorem dropSp_cases (s : Text) : dropSp s = [] ∨ (∃ r, dropSp s = ')' :: r) ∨ ∃ c r, dropSp s = c :: r ∧ c ≠ ')' := by
  cases h : dropSp s with
  | nil => exact Or.inl rfl
  | cons c r =>
    by_cases hc : c = ')'
    · exact Or.inr (Or.inl ⟨r, by rw [hc]⟩)
    · exact Or.inr (Or.inr ⟨c, r, rfl, hc⟩)

theorem parseInnerListLoop_mono {n m : Nat} (hnm : n ≤ m) {items : List Item} {s r : Text} {l : InnerList}
    (h : parseInnerListLoop n items s = some (l, r)) : parseInnerListLoop m items s = some (l, r) := by
  induction n generalizing m items s with
  | zero => cases h
  | succ n ih =>
    obtain ⟨m, rfl⟩ : ∃ m', m = m' + 1 := ⟨m - 1, by omega⟩
    rcases dropSp_cases s with hs | ⟨r', hs⟩ | ⟨c, r', hs, hc⟩
    · rw [parseInnerListLoop_nil hs] at h
      cases h
    · rw [parseInnerListLoop_close hs] at h ⊢
      exact h
    · rw [parseInnerListLoop_item hs hc] at h ⊢
      obtain ⟨e, he, h⟩ := Option.bind_eq_some_iff.mp h
      rw [he, Option.bind_some]
      split at h
      · rename_i hst
        rw [if_pos hst]
        exact ih (by omega) h
      · cases h

theorem parseInnerListLoop_extend {n : Nat} {items : List Item} {s r t : Text} {l : InnerList}
    (h : parseInnerListLoop n items s = some (l, r)) (ht : Stop t) :
    parseInnerListLoop n items (s ++ t) = some (l, r ++ t) := by
  induction n generalizing items s with
  | zero => cases h
  | succ n ih =>
    rcases dropSp_cases s with hs | ⟨r', hs⟩ | ⟨c, r', hs, hc⟩
    · rw [parseInnerListLoop_nil hs] at h
      cases h
    · have hst : dropSp (s ++ t) = ')' :: (r' ++ t) := dropWhile_append_of_cons hs t
      rw [parseInnerListLoop_close hs] at h
      rw [parseInnerListLoop_close hst]
      obtain ⟨⟨ps, r''⟩, hp, heq⟩ := Option.map_eq_some_iff.mp h
      cases heq
      rw [parseParameters_extend hp ht]
      rfl
    · have hst : dropSp (s ++ t) = c :: (r' ++ t) := dropWhile_append_of_cons hs t
      rw [parseInnerListLoop_item hs hc] at h
      rw [parseInnerListLoop_item hst hc]
      obtain ⟨e, he, h⟩ := Option.bind_eq_some_iff.mp h
      rw [← List.cons_append, parseItem_extend he ht, Option.bind_some]
      split at h
      · rename_i hsp
        have hsp' : (startsWith (e.2 ++ t) ' ' || startsWith (e.2 ++ t) ')') = true := by
          rw [Bool.or_eq_true] at hsp ⊢
          exact hsp.imp startsWith_append startsWith_append
        rw [if_pos hsp']
        exact ih h
      · cases h

theorem parseInnerListLoop_fuel {n m : Nat} {items : List Item} {s : Text} (hn : s.length < n) (hm : s.length < m) :
    parseInnerListLoop n items s = parseInnerListLoop m items s := by
  induction n generalizing m items s with
  | zero => omega
  | succ n ih =>
    obtain ⟨m, rfl⟩ : ∃ m', m = m' + 1 := ⟨m - 1, by omega⟩
    rcases dropSp_cases s with hs | ⟨r', hs⟩ | ⟨c, r', hs, hc⟩
    · rw [parseInnerListLoop_nil hs, parseInnerListLoop_nil hs]
    · rw [parseInnerListLoop_close hs, parseInnerListLoop_close hs]
    · rw [parseInnerListLoop_item hs hc, parseInnerListLoop_item hs hc]
      cases he : parseItem (c :: r') with
      | none => rfl
      | some e =>
        have h1 := parseItem_length he
        have h2 := length_dropWhile_le (· == ' ') s
        rw [← dropSp, hs] at h2
        simp only [Option.bind_some]
        split
        · exact ih (by omega) (by omega)
        · rfl

theorem parseInnerListLoop_length {n : Nat} {items : List Item} {s r : Text} {l : InnerList}
    (h : parseInnerListLoop n items s = some (l, r)) : r.length < s.length := by
  induction n generalizing items s with
  | zero => cases h
  | succ n ih =>
    have h2 := length_dropWhile_le (· == ' ') s
    rw [← dropSp] at h2
    rcases dropSp_cases s with hs | ⟨r', hs⟩ | ⟨c, r', hs, hc⟩
    · rw [parseInnerListLoop_nil hs] at h
      cases h
    · rw [parseInnerListLoop_close hs] at h
      obtain ⟨⟨ps, r''⟩, hp, heq⟩ := Option.map_eq_some_iff.mp h
      cases heq
      have h1 := parseParameters_length hp
      rw [hs, List.length_cons] at h2
      show r''.length < s.length
      omega
    · rw [parseInnerListLoop_item hs hc] at h
      obtain ⟨e, he, h⟩ := Option.bind_eq_some_iff.mp h
      have h1 := parseItem_length he
      rw [hs] at h2
      split at h
      · have := ih h
        omega
      · cases h

theorem parseItemOrInnerList_paren (s : Text) : parseItemOrInnerList ('(' :: s) =
    (parseInnerListLoop (s.length + 1) [] s).map fun e => (.innerList e.1, e.2) := rfl

theorem parseItemOrInnerList_of_ne {s : Text} (h : ∀ r, s ≠ '(' :: r) :
    parseItemOrInnerList s = (parseItem s).map fun e => (.item e.1, e.2) := by
  unfold parseItemOrInnerList
  split
  · exact absurd rfl (h _)
  · rfl

theorem parseItemOrInnerList_length {s r : Text} {e : ListEntry} (h : parseItemOrInnerList s = some (e, r)) :
    r.length < s.length := by
  by_cases hs : ∃ s', s = '(' :: s'
  · obtain ⟨s', rfl⟩ := hs
    rw [parseItemOrInnerList_paren] at h
    obtain ⟨⟨l, r'⟩, hl, heq⟩ := Option.map_eq_some_iff.mp h
    cases heq
    exact Nat.lt_succ_of_lt (parseInnerListLoop_length hl)
  · rw [parseItemOrInnerList_of_ne (not_exists.mp hs)] at h
    obtain ⟨⟨i, r'⟩, hi, heq⟩ := Option.map_eq_some_iff.mp h
    cases heq
    exact parseItem_length hi

theorem parseItemOrInnerList_extend {s r t : Text} {e : ListEntry} (h : parseItemOrInnerList s = some (e, r))
    (ht : Stop t) : parseItemOrInnerList (s ++ t) = some (e, r ++ t) := by
  by_cases hs : ∃ s', s = '(' :: s'
  · obtain ⟨s', rfl⟩ := hs
    rw [parseItemOrInnerList_paren] at h
    obtain ⟨⟨l, r'⟩, hl, heq⟩ := Option.map_eq_some_iff.mp h
    cases heq
    rw [List.cons_append, parseItemOrInnerList_paren,
      parseInnerListLoop_mono (by simp) (parseInnerListLoop_extend hl ht)]
    rfl
  · rw [parseItemOrInnerList_of_ne (not_exists.mp hs)] at h
    obtain ⟨⟨i, r'⟩, hi, heq⟩ := Option.map_eq_some_iff.mp h
    cases heq
    have hne : ∀ r, s ++ t ≠ '(' :: r := ne_cons_append (not_exists.mp hs) (ht.ne (by decide))
    rw [parseItemOrInnerList_of_ne hne, parseItem_extend hi ht]
    rfl

end Sfv
