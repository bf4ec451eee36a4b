import HttpSig.Sfv.Bare
import HttpSig.Theorems.Components

/-! Two lines of a field against the one line that an intermediary makes of them. Without parameters the component is the
same. Under `sf` and `key` every line is parsed by itself, and what is lost is what only the whole field shows: a key
that both lines have, and a value that runs over the comma. -/

namespace HttpSig
open Rust Sfv

/-- Two field lines in one. -/
def joinLines (v w : Text) : Text := v ++ ',' :: ' ' :: w

/-- The same value, or an error in both cases. -/
def SameOutcome {ε α : Type} (x y : Outcome ε α) : Prop :=
  (∃ a, x = .ok a ∧ y = .ok a) ∨ ∃ e e', x = .err e ∧ y = .err e'

theorem sameOutcome_iff {ε α : Type} {x y : Outcome ε α} (hx : x ≠ .panic) (hy : y ≠ .panic) :
    SameOutcome x y ↔ x.ok? = y.ok? := by
  cases x with
  | panic => exact absurd rfl hx
  | ok a =>
    cases y with
    | panic => exact absurd rfl hy
    | ok b => simp [SameOutcome, eq_comm]
    | err e => simp [SameOutcome]
  | err e =>
    cases y with
    | panic => exact absurd rfl hy
    | ok b => simp [SameOutcome]
    | err e' => simp [SameOutcome]

/-! ### One parameter -/

/-- The parameters that say how field lines are read. -/
def HttpMessageComponentParams.readings (ps : HttpMessageComponentParams) : List HttpMessageComponentParam :=
  ps.items.filter (· ≠ .req)

theorem foldlM_readings (l : List HttpMessageComponentParam) (vs : List Text) :
    l.foldlM handleParam vs = (l.filter (· ≠ .req)).foldlM handleParam vs := by
  induction l generalizing vs with
  | nil => rfl
  | cons p l ih =>
    by_cases hp : p = .req
    · subst hp
      rw [List.filter_cons_of_neg (by simp), List.foldlM_cons, ← ih]
      rfl
    · rw [List.filter_cons_of_pos (by simpa using hp), List.foldlM_cons, List.foldlM_cons]
      congr 1
      funext ws
      exact ih ws

/-- The value of a component, when it has one. -/
def fieldValue (ps : HttpMessageComponentParams) (vs : List Text) : Option Text :=
  ((ps.readings.foldlM handleParam vs).ok?).map (join ", ".toList)

theorem sameOutcome_build_iff {id : HttpMessageComponentId} {vs ws : List Text} :
    SameOutcome (buildHttpFieldComponent id vs) (buildHttpFieldComponent id ws) ↔
      fieldValue id.params vs = fieldValue id.params ws := by
  have hvalue : ∀ us, (buildHttpFieldComponent id us).ok? =
      (fieldValue id.params us).map fun t => (⟨id, .string t⟩ : HttpMessageComponent) := by
    intro us
    rw [buildHttpFieldComponent, Outcome.ok?_bind, foldlM_readings, fieldValue, Option.map_map]
    exact Option.map_eq_bind.symm
  rw [sameOutcome_iff (buildHttpFieldComponent_ne_panic id vs) (buildHttpFieldComponent_ne_panic id ws), hvalue, hvalue]
  refine ⟨fun h => Option.map_injective ?_ h, fun h => by rw [h]⟩
  intro s t hst
  injection hst with _ hst
  injection hst

/-! ### Lines of a list -/

section
variable {α : Type}

theorem mapM_eq_none {f : Text → Option α} {l : List Text} : l.mapM f = none ↔ ∃ u ∈ l, f u = none := by
  induction l with
  | nil => simp
  | cons u l ih =>
    rw [List.mapM_cons, List.exists_mem_cons_iff, ← ih]
    cases f u with
    | none => simp
    | some a => cases l.mapM f <;> simp

theorem mapM_eq_some {β : Type} {f : α → Option β} {l : List α} {bs : List β} :
    l.mapM f = some bs ↔ List.Forall₂ (fun a b => f a = some b) l bs := by
  induction l generalizing bs with
  | nil => simp [List.forall₂_nil_left_iff, eq_comm]
  | cons a l ih =>
    rw [List.mapM_cons]
    simp only [Option.bind_eq_bind, Option.bind_eq_some_iff, ih, List.forall₂_cons_left_iff, Option.pure_def, Option.some.injEq]
    constructor
    · rintro ⟨b, hb, bs', hbs', rfl⟩
      exact ⟨b, bs', hb, hbs', rfl⟩
    · rintro ⟨b, bs', hb, hbs', rfl⟩
      exact ⟨b, hb, bs', hbs', rfl⟩

/-- With two lines in one, either another line fails or it is the two lines alone that matter. -/
theorem mapM_lines_cases (f : Text → Option α) (pre post : List Text) (v w : Text) :
    ((∃ u ∈ pre ++ post, f u = none) ∧ (pre ++ v :: w :: post).mapM f = none ∧
      (pre ++ joinLines v w :: post).mapM f = none) ∨
    ((∀ u ∈ pre ++ post, f u ≠ none) ∧ ∃ as bs,
      (pre ++ v :: w :: post).mapM f = ((f v).bind fun a => (f w).map fun b => as ++ a :: b :: bs) ∧
      (pre ++ joinLines v w :: post).mapM f = (f (joinLines v w)).map fun a => as ++ a :: bs) := by
  by_cases h : ∃ u ∈ pre ++ post, f u = none
  · have hnone : ∀ mid, (pre ++ (mid ++ post)).mapM f = none := by
      intro mid
      obtain ⟨u, hu, hfail⟩ := h
      refine mapM_eq_none.mpr ⟨u, ?_, hfail⟩
      rcases List.mem_append.mp hu with hu | hu
      · exact List.mem_append_left _ hu
      · exact List.mem_append_right _ (List.mem_append_right _ hu)
    exact Or.inl ⟨h, hnone [v, w], hnone [joinLines v w]⟩
  · have hall : ∀ u ∈ pre ++ post, f u ≠ none := fun u hu hnone => h ⟨u, hu, hnone⟩
    have hsome : ∀ {l : List Text}, (∀ u ∈ l, f u ≠ none) → ∃ as, l.mapM f = some as := by
      intro l hl
      refine Option.ne_none_iff_exists'.mp fun hnone => ?_
      obtain ⟨u, hu, hfail⟩ := mapM_eq_none.mp hnone
      exact hl u hu hfail
    obtain ⟨as, has⟩ := hsome fun u hu => hall u (List.mem_append_left post hu)
    obtain ⟨bs, hbs⟩ := hsome fun u hu => hall u (List.mem_append_right pre hu)
    refine Or.inr ⟨hall, as, bs, ?_, ?_⟩
    · rw [List.mapM_append, List.mapM_cons, List.mapM_cons, has, hbs]
      cases f v with
      | none => rfl
      | some a => cases f w <;> rfl
    · rw [List.mapM_append, List.mapM_cons, has, hbs]
      cases f (joinLines v w) <;> rfl

end

theorem fieldValue_plain {ps : HttpMessageComponentParams} (h : ps.readings = []) (vs : List Text) :
    fieldValue ps vs = some (join ", ".toList vs) := by
  rw [fieldValue, h]
  rfl

theorem fieldValue_single {ps : HttpMessageComponentParams} {p : HttpMessageComponentParam} (h : ps.readings = [p])
    (vs : List Text) : fieldValue ps vs = ((handleParam vs p).ok?).map (join ", ".toList) := by
  have hone : [p].foldlM handleParam vs = handleParam vs p := bind_pure (handleParam vs p)
  rw [fieldValue, h, hone]

theorem join_joinLines (pre post : List Text) (v w : Text) :
    join ", ".toList (pre ++ joinLines v w :: post) = join ", ".toList (pre ++ v :: w :: post) := by
  have hsep : ", ".toList = [',', ' '] := rfl
  rw [join_append_cons, join_append_cons, List.flatMap_cons, joinLines, hsep]
  simp

/-! ### `sf` -/

/-- A line that is a list or a dictionary, and not blank. -/
def IsStructured (v : Text) : Prop := dropSp v ≠ [] ∧ (parseListField v ≠ none ∨ parseDictionaryField v ≠ none)

/-- Two lines that keep all their members in one: two lists, or two dictionaries without a key in common. A line that is
a list as well shows all its members, so there it must not repeat one either. -/
def KeepsMembers (v w : Text) : Prop :=
  (parseListField v ≠ none ∧ parseListField w ≠ none) ∨
  ∃ d d', parseDictionaryField v = some d ∧ parseDictionaryField w = some d' ∧ (∀ k ∈ d.keys, k ∉ d'.keys) ∧
    (∀ l ∈ parseListField v, l.length = d.length) ∧ ∀ l ∈ parseListField w, l.length = d'.length

theorem parseDictionaryField_eq_none {v : Text} : parseDictionaryField v = none ↔ dictionaryMember.members (dropSp v) = none := by
  rw [parseDictionaryField_eq, Option.map_eq_none_iff]

theorem reserialize_list {v : Text} {l : SfList} (h : listMember.Reads (dropSp v) l) :
    (reserialize v).ok? = some (join ", ".toList (l.map serializeListEntry)) := by
  rw [reserialize, parseListField_eq, h.members]
  dsimp only
  rw [Outcome.ok?_okOr, serializeList, if_neg (by simpa using h.ne_nil)]
  rfl

theorem reserialize_dictionary {v : Text} {ms : List (Key × ListEntry)} (hl : parseListField v = none)
    (h : dictionaryMember.Reads (dropSp v) ms) : (reserialize v).ok? =
      some (join ", ".toList ((IndexMap.ofList ms).entries.map fun m => serializeMember m.1 m.2)) := by
  have hne : (IndexMap.ofList ms).isEmpty = false :=
    List.isEmpty_eq_false_iff.mpr (IndexMap.entries_ofList_ne_nil h.ne_nil)
  rw [reserialize, hl, parseDictionaryField_eq, h.members]
  dsimp only [Option.map_some]
  rw [Outcome.ok?_okOr, serializeDictionary, if_neg (by rw [hne]; exact Bool.false_ne_true)]
  rfl

theorem reserialize_eq_none {v : Text} : (reserialize v).ok? = none ↔ ¬IsStructured v := by
  by_cases hs : dropSp v = []
  · have hlist : parseListField v = some [] := by rw [parseListField_eq, hs]; rfl
    have hnone : (reserialize v).ok? = none := by
      rw [reserialize, hlist]
      rfl
    exact iff_of_true hnone fun h => h.1 hs
  · cases hl : listMember.members (dropSp v) with
    | some l =>
      rw [reserialize_list (MemberParser.reads_of_members hs hl)]
      refine iff_of_false (Option.some_ne_none _) fun h => h ⟨hs, Or.inl ?_⟩
      rw [parseListField_eq, hl]
      exact Option.some_ne_none l
    | none =>
      have hlist : parseListField v = none := by rw [parseListField_eq, hl]
      cases hd : dictionaryMember.members (dropSp v) with
      | some ms =>
        rw [reserialize_dictionary hlist (MemberParser.reads_of_members hs hd)]
        refine iff_of_false (Option.some_ne_none _) fun h => h ⟨hs, Or.inr ?_⟩
        rw [Ne, parseDictionaryField_eq_none, hd]
        exact Option.some_ne_none ms
      | none =>
        have hdict := parseDictionaryField_eq_none.mpr hd
        have hnone : (reserialize v).ok? = none := by
          rw [reserialize, hlist]
          dsimp only
          rw [hdict]
          rfl
        refine iff_of_true hnone ?_
        rintro ⟨-, h | h⟩
        · exact h hlist
        · exact h hdict

/-- What a dictionary line shows: its members, or all that a list reads of it. -/
theorem exists_shown {v : Text} {ms : List (Key × ListEntry)} (h : dictionaryMember.Reads (dropSp v) ms) :
    ∃ es, es ≠ [] ∧ IndexMap.ofList es = IndexMap.ofList ms ∧
      (reserialize v).ok? = some (join ", ".toList (es.map fun m => serializeMember m.1 m.2)) ∧
      ((es.map Prod.fst).Nodup ↔ ∀ l ∈ parseListField v, l.length = (IndexMap.ofList ms).length) := by
  cases hl : listMember.members (dropSp v) with
  | some l =>
    have hread := MemberParser.reads_of_members h.text_ne_nil hl
    have hprint := serialize_members_eq hread h
    have hlength : l.length = ms.length := by simpa using congrArg List.length hprint
    refine ⟨ms, h.ne_nil, rfl, by rw [reserialize_list hread, hprint], ?_⟩
    rw [parseListField_eq, hl, ← IndexMap.length_ofList_iff]
    simp [hlength, eq_comm]
  | none =>
    have hlist : parseListField v = none := by rw [parseListField_eq, hl]
    refine ⟨(IndexMap.ofList ms).entries, IndexMap.entries_ofList_ne_nil h.ne_nil, IndexMap.ofList_entries _,
      reserialize_dictionary hlist h, ?_⟩
    rw [hlist]
    exact iff_of_true (IndexMap.ofList ms).nodup (by simp)

/-- A printed dictionary shows everything it was collected from exactly when no key repeats. -/
theorem join_ofList_iff {es : List (Key × ListEntry)} (hes : es ≠ []) :
    join ", ".toList ((IndexMap.ofList es).entries.map fun m => serializeMember m.1 m.2) =
      join ", ".toList (es.map fun m => serializeMember m.1 m.2) ↔ (es.map Prod.fst).Nodup := by
  constructor
  · intro h
    have hne := IndexMap.entries_ofList_ne_nil hes
    have hlength := congrArg (fun t : Text => t.length + ", ".toList.length) h
    rw [length_join (by simpa using hne), length_join (by simpa using hes), List.map_map, List.map_map] at hlength
    exact (IndexMap.sum_ofList_iff (fun m => Nat.add_pos_right _ (by decide)) es).mp hlength
  · intro h
    rw [IndexMap.entries_ofList h]

theorem IsStructured.reads {v : Text} (h : IsStructured v) :
    listMember.members (dropSp v) ≠ none ∨ dictionaryMember.members (dropSp v) ≠ none := by
  obtain ⟨-, h | h⟩ := h
  · exact Or.inl (parseListField_eq v ▸ h)
  · exact Or.inr fun hnone => h (parseDictionaryField_eq_none.mpr hnone)

theorem IsStructured.dropOws_eq {v : Text} (h : IsStructured v) : dropOws v = dropSp v := by
  rcases h.reads with h | h
  · obtain ⟨l, hl⟩ := Option.ne_none_iff_exists'.mp h
    exact MemberParser.dropOws_eq_dropSp hl
  · obtain ⟨ms, hms⟩ := Option.ne_none_iff_exists'.mp h
    exact MemberParser.dropOws_eq_dropSp hms

section
variable {v w : Text}

/-- Two lists are printed as one. -/
theorem reserialize_join_lists {l l' : SfList} (hl : listMember.Reads (dropSp v) l) (hl' : listMember.Reads (dropSp w) l') :
    (reserialize (joinLines v w)).ok? =
      some (join ", ".toList (l.map serializeListEntry) ++ ", ".toList ++ join ", ".toList (l'.map serializeListEntry)) := by
  have hread : listMember.Reads (dropSp (joinLines v w)) (l ++ l') := hl.join hl'
  rw [reserialize_list hread, List.map_append, join_append (by simpa using hl.ne_nil) (by simpa using hl'.ne_nil)]

/-- Two dictionaries that are not two lists are printed as one when no key repeats in what the two lines show. -/
theorem reserialize_join_dictionaries {ms ms' : List (Key × ListEntry)} (hms : dictionaryMember.Reads (dropSp v) ms)
    (hms' : dictionaryMember.Reads (dropSp w) ms') (hlist : parseListField (joinLines v w) = none) :
    ((reserialize (joinLines v w)).ok? =
      (reserialize v).ok?.bind fun s => (reserialize w).ok?.map fun t => s ++ ", ".toList ++ t) ↔
      (∀ k ∈ (IndexMap.ofList ms).keys, k ∉ (IndexMap.ofList ms').keys) ∧
        (∀ l ∈ parseListField v, l.length = (IndexMap.ofList ms).length) ∧
        ∀ l ∈ parseListField w, l.length = (IndexMap.ofList ms').length := by
  obtain ⟨es, hes, hof, hv, hnd⟩ := exists_shown hms
  obtain ⟨es', hes', hof', hw, hnd'⟩ := exists_shown hms'
  have hkeys : ((es ++ es').map Prod.fst).Nodup ↔ (∀ k ∈ (IndexMap.ofList ms).keys, k ∉ (IndexMap.ofList ms').keys) ∧
      (∀ l ∈ parseListField v, l.length = (IndexMap.ofList ms).length) ∧
      ∀ l ∈ parseListField w, l.length = (IndexMap.ofList ms').length := by
    rw [← hnd, ← hnd', ← hof, ← hof', List.map_append, List.nodup_append]
    simp only [IndexMap.mem_keys_ofList]
    constructor
    · rintro ⟨h₁, h₂, hdis⟩
      exact ⟨fun k hk hk' => hdis k hk k hk' rfl, h₁, h₂⟩
    · rintro ⟨hdis, h₁, h₂⟩
      exact ⟨h₁, h₂, fun k hk k' hk' heq => hdis k hk (heq ▸ hk')⟩
  rw [← hkeys, ← join_ofList_iff (List.append_ne_nil_of_left_ne_nil hes es'), IndexMap.ofList_append_congr hof hof', hv, hw,
    reserialize_dictionary hlist (hms.join hms'), Option.bind_some, Option.map_some,
    List.map_append, join_append (by simpa using hes) (by simpa using hes'), Option.some.injEq]

/-- Two structured lines are printed as one exactly when they keep all their members. -/
theorem reserialize_join_iff (hv : IsStructured v) (hw : IsStructured w) :
    ((reserialize (joinLines v w)).ok? =
      (reserialize v).ok?.bind fun s => (reserialize w).ok?.map fun t => s ++ ", ".toList ++ t) ↔ KeepsMembers v w := by
  by_cases hlists : listMember.members (dropSp v) ≠ none ∧ listMember.members (dropSp w) ≠ none
  · obtain ⟨l, hl⟩ := Option.ne_none_iff_exists'.mp hlists.1
    obtain ⟨l', hl'⟩ := Option.ne_none_iff_exists'.mp hlists.2
    have hread := MemberParser.reads_of_members hv.1 hl
    have hread' := MemberParser.reads_of_members hw.1 hl'
    refine iff_of_true ?_ (Or.inl ?_)
    · rw [reserialize_join_lists hread hread', reserialize_list hread, reserialize_list hread']
      rfl
    · rw [parseListField_eq, parseListField_eq]
      exact hlists
  · have hnot : ¬(parseListField v ≠ none ∧ parseListField w ≠ none) := by
      rw [parseListField_eq, parseListField_eq]
      exact hlists
    have hlist : parseListField (joinLines v w) = none := by
      rw [parseListField_eq]
      exact dictionaryMember_shares.members_join hv.1 hw.1 hw.dropOws_eq hv.reads hlists
    by_cases hdicts : dictionaryMember.members (dropSp v) ≠ none ∧ dictionaryMember.members (dropSp w) ≠ none
    · obtain ⟨ms, hms⟩ := Option.ne_none_iff_exists'.mp hdicts.1
      obtain ⟨ms', hms'⟩ := Option.ne_none_iff_exists'.mp hdicts.2
      rw [reserialize_join_dictionaries (MemberParser.reads_of_members hv.1 hms) (MemberParser.reads_of_members hw.1 hms')
        hlist, KeepsMembers, or_iff_right hnot, parseDictionaryField_eq v, parseDictionaryField_eq w, hms, hms']
      simp only [Option.map_some, Option.some.injEq, exists_and_left, exists_eq_left']
    · have hdict : parseDictionaryField (joinLines v w) = none :=
        parseDictionaryField_eq_none.mpr
          (listMember_shares.members_join hv.1 hw.1 hw.dropOws_eq hv.reads.symm hdicts)
      have hnone : (reserialize (joinLines v w)).ok? = none :=
        reserialize_eq_none.mpr fun h => h.2.elim (fun h => h hlist) fun h => h hdict
      obtain ⟨s, hs⟩ := Option.ne_none_iff_exists'.mp fun h => reserialize_eq_none.mp h hv
      obtain ⟨t, ht⟩ := Option.ne_none_iff_exists'.mp fun h => reserialize_eq_none.mp h hw
      refine iff_of_false ?_ ?_
      · rw [hnone, hs, ht]
        exact (Option.some_ne_none _).symm
      · rintro (h | ⟨d, d', hd, hd', -⟩)
        · exact hnot h
        · refine hdicts ⟨fun h => ?_, fun h => ?_⟩
          · rw [parseDictionaryField_eq_none.mpr h] at hd
            cases hd
          · rw [parseDictionaryField_eq_none.mpr h] at hd'
            cases hd'

end

theorem fieldValue_sf {ps : HttpMessageComponentParams} (h : ps.readings = [.sf]) (vs : List Text) :
    fieldValue ps vs = (vs.mapM fun v => (reserialize v).ok?).map (join ", ".toList) := by
  rw [fieldValue_single h, handleParam, handleParamsSf, Outcome.ok?_mapM]

/-- Under `sf` two lines and the one line of them have no value either way, or keep all their members. -/
def JoinsUnderSf (v w : Text) : Prop :=
  (¬(IsStructured v ∧ IsStructured w) ∧ ¬IsStructured (joinLines v w)) ∨
  (IsStructured v ∧ IsStructured w ∧ KeepsMembers v w)

theorem joinsUnderSf_iff {v w : Text} : JoinsUnderSf v w ↔ (reserialize (joinLines v w)).ok? =
    (reserialize v).ok?.bind fun s => (reserialize w).ok?.map fun t => s ++ ", ".toList ++ t := by
  by_cases h : IsStructured v ∧ IsStructured w
  · rw [reserialize_join_iff h.1 h.2, JoinsUnderSf, or_iff_right fun hnot => hnot.1 h, and_iff_right h.1, and_iff_right h.2]
  · have hnone : ((reserialize v).ok?.bind fun s => (reserialize w).ok?.map fun t => s ++ ", ".toList ++ t) = none := by
      by_cases hv : IsStructured v
      · rw [reserialize_eq_none.mpr fun hw => h ⟨hv, hw⟩]
        cases (reserialize v).ok? <;> rfl
      · rw [reserialize_eq_none.mpr hv]
        rfl
    rw [hnone, reserialize_eq_none, JoinsUnderSf]
    tauto

theorem fieldValue_sf_join_iff {ps : HttpMessageComponentParams} (h : ps.readings = [.sf]) (pre post : List Text)
    (v w : Text) : fieldValue ps (pre ++ v :: w :: post) = fieldValue ps (pre ++ joinLines v w :: post) ↔
      (∃ u ∈ pre ++ post, ¬IsStructured u) ∨ JoinsUnderSf v w := by
  simp only [← reserialize_eq_none, joinsUnderSf_iff]
  rw [fieldValue_sf h, fieldValue_sf h]
  rcases mapM_lines_cases (fun u => (reserialize u).ok?) pre post v w with ⟨hfail, h₁, h₂⟩ | ⟨hall, as, bs, h₁, h₂⟩
  · rw [h₁, h₂]
    exact iff_of_true rfl (Or.inl hfail)
  · rw [h₁, h₂, or_iff_right fun hfail => hfail.elim fun u hu => hall u hu.1 hu.2]
    cases (reserialize v).ok? with
    | none => cases (reserialize (joinLines v w)).ok? <;> simp
    | some s =>
      cases (reserialize w).ok? with
      | none => cases (reserialize (joinLines v w)).ok? <;> simp
      | some t =>
        cases (reserialize (joinLines v w)).ok? with
        | none => simp
        | some r =>
          simp only [Option.bind_some, Option.map_some, Option.some.injEq]
          rw [join_append_cons, join_append_cons, List.append_cancel_left_eq, List.flatMap_cons, ← List.append_assoc,
            List.append_left_inj, eq_comm, List.append_assoc]

/-! ### `key` -/

theorem dictionaryGet_eq (d : Dictionary) (key : Text) :
    dictionaryGet d key = if h : isKey key = true then d.get? ⟨key, h⟩ else none := by
  rw [dictionaryGet]
  split
  · rename_i h
    have hfun : (fun e : Key × ListEntry => decide (e.1.text = key)) = fun e => decide (e.1 = ⟨key, h⟩) := by
      funext e
      rw [decide_eq_decide, Key.ext_iff]
    rw [hfun]
    rfl
  · rename_i h
    rw [Option.map_eq_none_iff, List.find?_eq_none]
    intro e _ he
    exact h (of_decide_eq_true he ▸ e.1.valid)

theorem dictionaryGet_extend (d d' : Dictionary) (key : Text) :
    dictionaryGet (d.extend d'.entries) key = (dictionaryGet d' key).or (dictionaryGet d key) := by
  rw [dictionaryGet_eq, dictionaryGet_eq, dictionaryGet_eq]
  split
  · exact IndexMap.get?_extend_entries ..
  · rfl

/-- What a dictionary line shows under `key`. -/
def memberText (key : Text) (d : Dictionary) : Option Text := (dictionaryGet d key).map serializeListEntry

theorem handleParamsKeyInto_ok? (vs : List Text) (key : Text) : (handleParamsKeyInto vs key).ok? =
    (vs.mapM parseDictionaryField).map fun ds => ds.filterMap (memberText key) := by
  have hcollect : ∀ ds : List Dictionary,
      (ds.filterMap fun d => (dictionaryGet d key).map fun v => serializeList [v]).mapM id =
        some (ds.filterMap (memberText key)) := by
    intro ds
    induction ds with
    | nil => rfl
    | cons d ds ih =>
      rw [List.filterMap_cons, List.filterMap_cons, memberText]
      cases dictionaryGet d key with
      | none => exact ih
      | some e =>
        simp only [Option.map_some]
        rw [List.mapM_cons, serializeList_singleton, ih]
        rfl
  rw [handleParamsKeyInto, Outcome.ok?_bind, Outcome.ok?_mapM]
  simp only [Outcome.ok?_okOr, hcollect]
  exact Option.map_eq_bind.symm

theorem fieldValue_key {ps : HttpMessageComponentParams} {key : Text} (h : ps.readings = [.key key]) (vs : List Text) :
    fieldValue ps vs = (vs.mapM parseDictionaryField).map fun ds => join ", ".toList (ds.filterMap (memberText key)) := by
  rw [fieldValue_single h, handleParam, handleParamsKeyInto_ok?, Option.map_map]
  rfl

theorem memberText_eq_none {key : Text} {d : Dictionary} : memberText key d = none ↔ dictionaryGet d key = none :=
  Option.map_eq_none_iff

theorem memberText_extend (key : Text) (d d' : Dictionary) :
    memberText key (d.extend d'.entries) = (memberText key d').or (memberText key d) := by
  rw [memberText, dictionaryGet_extend, memberText, memberText, Option.map_or]

theorem dropSp_eq_nil_iff {v : Text} {d : Dictionary} (h : parseDictionaryField v = some d) :
    dropSp v = [] ↔ d.entries = [] := by
  rw [parseDictionaryField_eq] at h
  obtain ⟨ms, hms, rfl⟩ := Option.map_eq_some_iff.mp h
  constructor
  · intro hs
    rw [hs] at hms
    cases hms
    rfl
  · intro hd
    by_contra hs
    exact IndexMap.entries_ofList_ne_nil (MemberParser.reads_of_members hs hms).ne_nil hd

/-- A blank line leaves nothing before the comma, or nothing behind it. -/
theorem parseDictionaryField_join_blank {v w : Text} {d d' : Dictionary} (hv : parseDictionaryField v = some d)
    (hw : parseDictionaryField w = some d') (h : d.entries = [] ∨ d'.entries = []) :
    parseDictionaryField (joinLines v w) = none := by
  rw [parseDictionaryField_eq_none, joinLines]
  by_cases hs : dropSp v = []
  · exact MemberParser.members_join_blank hs
  · have hblank : dropOws w = [] := by
      have hw' := (dropSp_eq_nil_iff hw).mpr (h.resolve_left fun hd => hs ((dropSp_eq_nil_iff hv).mpr hd))
      have hmembers : dictionaryMember.members (dropSp w) = some [] := by rw [hw', MemberParser.members_nil]
      rw [MemberParser.dropOws_eq_dropSp hmembers, hw']
    rw [parseDictionaryField_eq] at hv
    obtain ⟨ms, hms, -⟩ := Option.map_eq_some_iff.mp hv
    rw [MemberParser.members_join hms hs, if_pos hblank]

/-- Under `key` two lines and the one line of them are not dictionaries either way, or dictionaries with a member each
that do not both have the key. -/
def JoinsUnderKey (key v w : Text) : Prop :=
  ((parseDictionaryField v = none ∨ parseDictionaryField w = none) ∧ parseDictionaryField (joinLines v w) = none) ∨
  ∃ d d', parseDictionaryField v = some d ∧ parseDictionaryField w = some d' ∧ d.entries ≠ [] ∧ d'.entries ≠ [] ∧
    (dictionaryGet d key = none ∨ dictionaryGet d' key = none)

/-- A member text more makes a longer value. -/
theorem join_cons_ne (as bs : List Text) (s t : Text) :
    join ", ".toList (as ++ s :: t :: bs) ≠ join ", ".toList (as ++ t :: bs) := by
  intro h
  rw [join_append_cons, join_append_cons, List.append_cancel_left_eq, List.flatMap_cons] at h
  have hlength := congrArg List.length h
  simp only [List.length_append] at hlength
  have hsep : ", ".toList.length = 2 := rfl
  omega

theorem fieldValue_key_join_iff {ps : HttpMessageComponentParams} {key : Text} (h : ps.readings = [.key key])
    (pre post : List Text) (v w : Text) :
    fieldValue ps (pre ++ v :: w :: post) = fieldValue ps (pre ++ joinLines v w :: post) ↔
      (∃ u ∈ pre ++ post, parseDictionaryField u = none) ∨ JoinsUnderKey key v w := by
  rw [fieldValue_key h, fieldValue_key h]
  rcases mapM_lines_cases parseDictionaryField pre post v w with ⟨hfail, h₁, h₂⟩ | ⟨hall, as, bs, h₁, h₂⟩
  · rw [h₁, h₂]
    exact iff_of_true rfl (Or.inl hfail)
  · rw [h₁, h₂, or_iff_right fun hfail => hfail.elim fun u hu => hall u hu.1 hu.2, JoinsUnderKey]
    cases hv : parseDictionaryField v with
    | none => cases parseDictionaryField (joinLines v w) <;> simp
    | some d =>
      cases hw : parseDictionaryField w with
      | none => cases parseDictionaryField (joinLines v w) <;> simp
      | some d' =>
        simp only [reduceCtorEq, or_self, false_and, false_or, Option.some.injEq, exists_and_left, exists_eq_left']
        by_cases hd : d.entries = []
        · rw [parseDictionaryField_join_blank hv hw (Or.inl hd)]
          exact iff_of_false (Option.some_ne_none _) fun h => h.1 hd
        · by_cases hd' : d'.entries = []
          · rw [parseDictionaryField_join_blank hv hw (Or.inr hd')]
            exact iff_of_false (Option.some_ne_none _) fun h => h.2.1 hd'
          · have hjoin : parseDictionaryField (joinLines v w) = some (d.extend d'.entries) :=
              parseDictionaryField_combine hv hw hd hd'
            rw [hjoin, and_iff_right hd, and_iff_right hd', ← memberText_eq_none, ← memberText_eq_none]
            simp only [Option.bind_some, Option.map_some, Option.some.injEq, List.filterMap_append, List.filterMap_cons,
              memberText_extend]
            cases memberText key d with
            | none => cases memberText key d' <;> simp
            | some s =>
              cases memberText key d' with
              | none => simp
              | some t => exact iff_of_false (join_cons_ne _ _ s t) (by simp)

/-! ### Two lines or one -/

/-- Without parameters a component does not change when two of its lines are joined. Under `sf` and `key` it keeps its
value, or fails both ways, exactly when another line fails or the two lines join. -/
theorem buildHttpFieldComponent_join (id : HttpMessageComponentId) (pre post : List Text) (v w : Text) :
    (id.params.readings = [] → SameOutcome (buildHttpFieldComponent id (pre ++ v :: w :: post))
      (buildHttpFieldComponent id (pre ++ joinLines v w :: post))) ∧
    (id.params.readings = [.sf] → (SameOutcome (buildHttpFieldComponent id (pre ++ v :: w :: post))
      (buildHttpFieldComponent id (pre ++ joinLines v w :: post)) ↔
        (∃ u ∈ pre ++ post, ¬IsStructured u) ∨ JoinsUnderSf v w)) ∧
    ∀ key, id.params.readings = [.key key] → (SameOutcome (buildHttpFieldComponent id (pre ++ v :: w :: post))
      (buildHttpFieldComponent id (pre ++ joinLines v w :: post)) ↔
        (∃ u ∈ pre ++ post, parseDictionaryField u = none) ∨ JoinsUnderKey key v w) := by
  refine ⟨fun h => ?_, fun h => ?_, fun key h => ?_⟩
  · rw [sameOutcome_build_iff, fieldValue_plain h, fieldValue_plain h, join_joinLines]
  · rw [sameOutcome_build_iff, fieldValue_sf_join_iff h]
  · rw [sameOutcome_build_iff, fieldValue_key_join_iff h]

def exampleSf : HttpMessageComponentId := ⟨.httpField "example-header".toList, .ofList [.sf]⟩

def exampleKey : HttpMessageComponentId := ⟨.httpField "example-header".toList, .ofList [.key "patched".toList]⟩

/-- Lines with different keys. -/
theorem differentKeys_join :
    SameOutcome (buildHttpFieldComponent exampleSf ["patched=1".toList, "other=2".toList])
      (buildHttpFieldComponent exampleSf ["patched=1, other=2".toList]) ∧
    SameOutcome (buildHttpFieldComponent exampleKey ["patched=1".toList, "other=2".toList])
      (buildHttpFieldComponent exampleKey ["patched=1, other=2".toList]) := by
  have hv : parseDictionaryField "patched=1".toList = some ((parseDictionaryField "patched=1".toList).getD ∅) := by
    decide
  have hw : parseDictionaryField "other=2".toList = some ((parseDictionaryField "other=2".toList).getD ∅) := by
    decide
  have hlists : parseListField "patched=1".toList = none ∧ parseListField "other=2".toList = none := by decide
  refine ⟨((buildHttpFieldComponent_join exampleSf [] [] "patched=1".toList "other=2".toList).2.1 rfl).mpr (Or.inr (Or.inr ?_)),
    ((buildHttpFieldComponent_join exampleKey [] [] "patched=1".toList "other=2".toList).2.2 _ rfl).mpr (Or.inr (Or.inr ?_))⟩
  · refine ⟨⟨by decide, Or.inr (by rw [hv]; exact Option.some_ne_none _)⟩,
      ⟨by decide, Or.inr (by rw [hw]; exact Option.some_ne_none _)⟩, Or.inr ⟨_, _, hv, hw, by decide, ?_, ?_⟩⟩
    · intro l hl
      rw [hlists.1] at hl
      cases hl
    · intro l hl
      rw [hlists.2] at hl
      cases hl
  · exact ⟨_, _, hv, hw, by decide, by decide, Or.inr (by decide)⟩

/-- Lines that both have the key. -/
theorem repeatedKey_differs :
    buildHttpFieldComponent exampleSf ["patched=1".toList, "patched=2".toList] =
      .ok ⟨exampleSf, .string "patched=1, patched=2".toList⟩ ∧
    buildHttpFieldComponent exampleSf [joinLines "patched=1".toList "patched=2".toList] = .ok ⟨exampleSf, .string "patched=2".toList⟩ ∧
    buildHttpFieldComponent exampleKey ["patched=1".toList, "patched=2".toList] = .ok ⟨exampleKey, .string "1, 2".toList⟩ ∧
    buildHttpFieldComponent exampleKey [joinLines "patched=1".toList "patched=2".toList] = .ok ⟨exampleKey, .string "2".toList⟩ := by
  decide

end HttpSig
