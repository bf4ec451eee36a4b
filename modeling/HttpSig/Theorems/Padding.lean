import HttpSig.Sfv.Blank
import HttpSig.Theorems.Joining

/-! White space around field lines. Nothing strips a line before it is used: without parameters every space goes into
the value, and under `sf` and `key` the parser skips it, except for a tab before the first member. -/

namespace HttpSig
open Rust Sfv

/-! ### Stripped lines -/

/-- A line without the spaces and tabs at its ends. -/
def stripOws (v : Text) : Text := (dropOws v).rdropWhile isOws

/-- A tab in the white space before the text of a line. -/
def TabBefore (v : Text) : Prop := '\t' ∈ v.takeWhile isOws

instance (v : Text) : Decidable (TabBefore v) := inferInstanceAs (Decidable (_ ∈ _))

theorem count_stripOws {d : Char} (hd : isOws d = false) (v : Text) : (stripOws v).count d = v.count d := by
  rw [stripOws, count_rdropWhile hd, dropOws, count_dropWhile hd]

/-- A stripped line starts with its text, when it has one. -/
theorem dropSp_stripOws (v : Text) : dropSp (stripOws v) = stripOws v := by
  refine dropSp_of_head fun c hc => ?_
  rintro rfl
  have hhead : ' ' ∈ (dropOws v).head? := by
    obtain ⟨t, ht⟩ := List.rdropWhile_prefix isOws (dropOws v)
    rw [← ht]
    rw [stripOws] at hc
    cases hr : (dropOws v).rdropWhile isOws with
    | nil =>
      rw [hr] at hc
      cases hc
    | cons d s =>
      rw [hr] at hc
      exact hc
  exact absurd (dropOws_head v ' ' hhead) (by decide)

/-- Without a tab in front a line loses the same to either kind of skipping. -/
theorem dropSp_eq_dropOws {v : Text} (h : ¬TabBefore v) : dropSp v = dropOws v := by
  have hsp : ∀ c ∈ v.takeWhile isOws, (c == ' ') = true := by
    intro c hc
    rcases isOws_iff.mp (List.mem_takeWhile_imp hc) with rfl | rfl
    · rfl
    · exact absurd hc h
  have hstop : ∀ c ∈ (dropOws v).head?, (c == ' ') = false := by
    intro c hc
    have := dropOws_head v c hc
    rw [beq_eq_false_iff_ne]
    rintro rfl
    cases this
  calc dropSp v = (v.takeWhile isOws ++ dropOws v).dropWhile (· == ' ') := by
        rw [dropOws, List.takeWhile_append_dropWhile]
        rfl
    _ = dropOws v := dropWhile_append_of_all hsp hstop

/-- The members of a line are those of its text, unless there is a tab before it. -/
theorem members_dropSp {α : Type} {p : MemberParser α} (hp : p.LeavesOws) (v : Text) :
    p.members (dropSp v) = if TabBefore v then none else p.members (stripOws v) := by
  split
  · rename_i htab
    by_contra hsome
    obtain ⟨l, hl⟩ := Option.ne_none_iff_exists'.mp hsome
    have hdrop : v.takeWhile isOws = v.takeWhile (· == ' ') := by
      have hsplit : v.takeWhile isOws ++ dropOws v = v.takeWhile (· == ' ') ++ dropSp v := by
        rw [dropOws, dropSp, List.takeWhile_append_dropWhile, List.takeWhile_append_dropWhile]
      rw [MemberParser.dropOws_eq_dropSp hl] at hsplit
      exact List.append_cancel_right hsplit
    rw [TabBefore, hdrop] at htab
    exact absurd (List.mem_takeWhile_imp htab) (by decide)
  · rename_i htab
    rw [dropSp_eq_dropOws htab]
    have hsplit : stripOws v ++ (dropOws v).rtakeWhile isOws = dropOws v := List.rdropWhile_append_rtakeWhile
    have hows : ∀ c ∈ (dropOws v).rtakeWhile isOws, isOws c = true := fun c hc => List.mem_rtakeWhile_imp hc
    by_cases hs : stripOws v = []
    · have hblank : dropOws v = [] := by
        cases hd : dropOws v with
        | nil => rfl
        | cons c t =>
          rw [hs, List.nil_append, hd] at hsplit
          rw [hd, hsplit] at hows
          have hc := dropOws_head v c (by rw [hd]; rfl)
          rw [hows c (List.mem_cons_self ..)] at hc
          cases hc
      rw [hs, hblank]
    · rw [← hsplit, hp.members_append hows hs]

theorem parseListField_stripOws (v : Text) :
    parseListField v = if TabBefore v then none else parseListField (stripOws v) := by
  rw [parseListField_eq, parseListField_eq, members_dropSp listMember_leavesOws, dropSp_stripOws]

theorem parseDictionaryField_stripOws (v : Text) :
    parseDictionaryField v = if TabBefore v then none else parseDictionaryField (stripOws v) := by
  rw [parseDictionaryField_eq, parseDictionaryField_eq, members_dropSp dictionaryMember_leavesOws, dropSp_stripOws]
  split <;> rfl

theorem reserialize_stripOws (v : Text) :
    (reserialize v).ok? = if TabBefore v then none else (reserialize (stripOws v)).ok? := by
  rw [reserialize, reserialize, parseListField_stripOws, parseDictionaryField_stripOws]
  by_cases h : TabBefore v
  · rw [if_pos h, if_pos h, if_pos h]
    rfl
  · rw [if_neg h, if_neg h, if_neg h]

/-! ### Lists of lines -/

/-- Lines that differ in the white space at their ends. -/
abbrev Repadded (vs ws : List Text) : Prop := List.Forall₂ (fun v w => stripOws v = stripOws w) vs ws

theorem mapM_stripOws {α : Type} {f g : Text → Option α} (h : ∀ v, f v = if TabBefore v then none else g (stripOws v)) :
    ∀ vs : List Text, vs.mapM f = if ∃ v ∈ vs, TabBefore v then none else (vs.map stripOws).mapM g
  | [] => by simp
  | v :: vs => by
    rw [List.mapM_cons, h, mapM_stripOws h vs, List.map_cons, List.mapM_cons]
    simp only [List.exists_mem_cons_iff]
    by_cases hv : TabBefore v
    · rw [if_pos hv, if_pos (Or.inl hv)]
      rfl
    · rw [if_neg hv]
      by_cases hvs : ∃ v ∈ vs, TabBefore v
      · rw [if_pos hvs, if_pos (Or.inr hvs)]
        cases g (stripOws v) <;> rfl
      · rw [if_neg hvs, if_neg (not_or.mpr ⟨hv, hvs⟩)]

/-- What is made of every line's text does not change, but for a tab before one of the texts. -/
theorem mapM_repadded_iff {α β : Type} {f : Text → Option α} (g : Text → Option α)
    (h : ∀ v, f v = if TabBefore v then none else g (stripOws v)) {vs ws : List Text} (hvw : Repadded vs ws)
    (k : List α → β) : (vs.mapM f).map k = (ws.mapM f).map k ↔
      (∃ v ∈ vs, g (stripOws v) = none) ∨ ((∃ v ∈ vs, TabBefore v) ↔ ∃ w ∈ ws, TabBefore w) := by
  have hmap : ws.map stripOws = vs.map stripOws := by
    rw [← List.forall₂_eq_eq_eq, List.forall₂_map_left_iff, List.forall₂_map_right_iff]
    exact hvw.flip.imp fun _ _ h => h.symm
  have hnone : (vs.map stripOws).mapM g = none ↔ ∃ v ∈ vs, g (stripOws v) = none := by
    rw [mapM_eq_none]
    simp only [List.mem_map, exists_exists_and_eq_and]
  rw [mapM_stripOws h, mapM_stripOws h, hmap, ← hnone]
  cases (vs.map stripOws).mapM g with
  | none => simp
  | some as => by_cases hv : ∃ v ∈ vs, TabBefore v <;> by_cases hw : ∃ w ∈ ws, TabBefore w <;> simp [hv, hw]

/-! ### Joined lines -/

/-- What follows a line in a value: nothing, or a comma. -/
def CommaOrNil (r : Text) : Prop := ∀ c ∈ r.head?, c = ','

theorem eq_of_append_comma {v w r r' : Text} (hs : stripOws v = stripOws w) (hr : CommaOrNil r) (hr' : CommaOrNil r')
    (h : v ++ r = w ++ r') : v = w ∧ r = r' := by
  have hcount : v.count ',' = w.count ',' := by
    rw [← count_stripOws (by decide) v, hs, count_stripOws (by decide)]
  -- Whichever line is longer goes on with a comma that the other does not have.
  have longer : ∀ {v w r r' x : Text}, v.count ',' = w.count ',' → CommaOrNil r → w = v ++ x → r = x ++ r' → x = [] := by
    rintro v w r r' x hcount hr rfl rfl
    cases x with
    | nil => rfl
    | cons c x =>
      obtain rfl : c = ',' := hr c rfl
      rw [List.count_append, List.count_cons_self] at hcount
      omega
  rcases List.append_eq_append_iff.mp h with ⟨x, hw, hx⟩ | ⟨x, hv, hx⟩
  · obtain rfl := longer hcount hr hw hx
    exact ⟨by rw [hw, List.append_nil], hx⟩
  · obtain rfl := longer hcount.symm hr' hv hx
    exact ⟨by rw [hv, List.append_nil], hx.symm⟩

theorem commaOrNil_flatMap (l : List Text) : CommaOrNil (l.flatMap (", ".toList ++ ·)) := by
  cases l with
  | nil => rintro c ⟨⟩
  | cons v l =>
    rintro c hc
    cases hc
    rfl

theorem eq_of_flatMap_comma {vs ws : List Text} (h : Repadded vs ws)
    (heq : vs.flatMap (", ".toList ++ ·) = ws.flatMap (", ".toList ++ ·)) : vs = ws := by
  induction h with
  | nil => rfl
  | @cons v w vs ws hs _ ih =>
    rw [List.flatMap_cons, List.flatMap_cons, List.append_assoc, List.append_assoc, List.append_cancel_left_eq] at heq
    obtain ⟨rfl, hrest⟩ := eq_of_append_comma hs (commaOrNil_flatMap vs) (commaOrNil_flatMap ws) heq
    rw [ih hrest]

/-- No white space is lost when lines are joined. -/
theorem join_repadded_iff {vs ws : List Text} (h : Repadded vs ws) : join ", ".toList vs = join ", ".toList ws ↔ vs = ws := by
  refine ⟨fun heq => ?_, fun h => by rw [h]⟩
  cases h with
  | nil => rfl
  | @cons v w vs ws hs h =>
    rw [join_cons, join_cons] at heq
    obtain ⟨rfl, hrest⟩ := eq_of_append_comma hs (commaOrNil_flatMap vs) (commaOrNil_flatMap ws) heq
    rw [eq_of_flatMap_comma h hrest]

/-! ### Components -/

/-- Without parameters a component changes with any white space. Under `sf` and `key` it changes only with a tab before
the text of a line, where it had a value before. -/
theorem buildHttpFieldComponent_repadded (id : HttpMessageComponentId) {vs ws : List Text} (h : Repadded vs ws) :
    (id.params.readings = [] → (SameOutcome (buildHttpFieldComponent id vs) (buildHttpFieldComponent id ws) ↔ vs = ws)) ∧
    (id.params.readings = [.sf] → (SameOutcome (buildHttpFieldComponent id vs) (buildHttpFieldComponent id ws) ↔
      (∃ v ∈ vs, ¬IsStructured (stripOws v)) ∨ ((∃ v ∈ vs, TabBefore v) ↔ ∃ w ∈ ws, TabBefore w))) ∧
    ∀ key, id.params.readings = [.key key] →
      (SameOutcome (buildHttpFieldComponent id vs) (buildHttpFieldComponent id ws) ↔
        (∃ v ∈ vs, parseDictionaryField (stripOws v) = none) ∨ ((∃ v ∈ vs, TabBefore v) ↔ ∃ w ∈ ws, TabBefore w)) := by
  refine ⟨fun hps => ?_, fun hps => ?_, fun key hps => ?_⟩
  · rw [sameOutcome_build_iff, fieldValue_plain hps, fieldValue_plain hps, Option.some.injEq, join_repadded_iff h]
  · rw [sameOutcome_build_iff, fieldValue_sf hps, fieldValue_sf hps,
      mapM_repadded_iff (fun v => (reserialize v).ok?) reserialize_stripOws h]
    simp only [reserialize_eq_none]
  · rw [sameOutcome_build_iff, fieldValue_key hps, fieldValue_key hps,
      mapM_repadded_iff parseDictionaryField parseDictionaryField_stripOws h]

def examplePlain : HttpMessageComponentId := ⟨.httpField "example-header".toList, ∅⟩

/-- Spaces around a dictionary and a tab behind it. -/
theorem paddedDictionary_same : SameOutcome (buildHttpFieldComponent exampleSf ["  a=1 \t".toList])
    (buildHttpFieldComponent exampleSf ["a=1".toList]) := by
  have hrepad : Repadded ["  a=1 \t".toList] ["a=1".toList] := .cons (by decide) .nil
  refine ((buildHttpFieldComponent_repadded exampleSf hrepad).2.1 rfl).mpr (Or.inr ?_)
  decide

/-- A space around a plain value, and a tab before a dictionary. -/
theorem padded_differs :
    buildHttpFieldComponent examplePlain [" a".toList] = .ok ⟨examplePlain, .string " a".toList⟩ ∧
    buildHttpFieldComponent examplePlain ["a".toList] = .ok ⟨examplePlain, .string "a".toList⟩ ∧
    buildHttpFieldComponent exampleSf ["\ta=1".toList] = .err (.invalidComponentParam
      "Failed to parse structured field value: invalid structured field value for sf".toList) ∧
    buildHttpFieldComponent exampleSf ["a=1".toList] = .ok ⟨exampleSf, .string "a=1".toList⟩ := by
  decide

end HttpSig
