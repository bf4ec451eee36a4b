import HttpSig.Theorems.Members

/-! What is printed for signature parameters, compared piece by piece with the serialization of the member
they were read from. -/

namespace HttpSig
open Rust Sfv

/-! ### Strings -/

/-- A string that needs no escape. -/
def isClean (s : Text) : Bool := s.all fun c => c != '"' && c != '\\'

theorem isClean_cons {c : Char} {s : Text} : isClean (c :: s) = true ↔ (c ≠ '"' ∧ c ≠ '\\') ∧ isClean s = true := by
  simp [isClean]

/-- More backslashes on one side than on the other are never made up for: the unescaped side runs out of
them first. -/
theorem ne_backslashes (r r' : Text) : ∀ (s : Text) (n : Nat),
    s ++ '"' :: r ≠ List.replicate (n + 1) '\\' ++ (s.flatMap escapeChar ++ '"' :: r')
  | [], n => by simp [List.replicate_succ]
  | c :: s, n => by
    intro h
    rw [List.cons_append, List.replicate_succ, List.cons_append, List.cons.injEq] at h
    obtain ⟨rfl, h⟩ := h
    refine ne_backslashes r r' s (n + 1) (h.trans ?_)
    rw [List.flatMap_cons, show escapeChar '\\' = List.replicate 2 '\\' from rfl, List.append_assoc, ← List.append_assoc,
      List.replicate_append_replicate]

/-- A string printed as it is and the same string escaped go on alike only when there is nothing to escape. -/
theorem quote_align {r r' : Text} : ∀ {s : Text},
    s ++ '"' :: r = s.flatMap escapeChar ++ '"' :: r' ↔ isClean s = true ∧ r = r'
  | [] => by simp [isClean]
  | c :: s => by
    rw [isClean_cons]
    by_cases hq : c = '"'
    · simp [hq, escapeChar]
    · by_cases hb : c = '\\'
      · subst hb
        have := ne_backslashes r r' s 0
        simpa [escapeChar] using this
      · simp [escapeChar, hq, hb, quote_align (s := s)]

/-! ### Identifiers -/

/-- What follows an id: a space or a closing parenthesis. -/
def Edge (t : Text) : Prop := ∃ c s, t = c :: s ∧ (c = ' ' ∨ c = ')')

/-- What follows a parameter: a semicolon, a space or a closing parenthesis. -/
def ParamEdge (t : Text) : Prop := ∃ c s, t = c :: s ∧ (c = ';' ∨ c = ' ' ∨ c = ')')

theorem Edge.paramEdge {t : Text} (h : Edge t) : ParamEdge t := by
  obtain ⟨c, s, rfl, hc⟩ := h
  exact ⟨c, s, rfl, Or.inr hc⟩

/-- A parameter whose serialization is what is printed for it. -/
def canonicalParam (e : Key × BareItem) : Bool :=
  match e.2 with
  | .boolean b => b
  | .string s => (e.1.text = "name".toList || e.1.text = "key".toList) && isClean s.text
  | _ => false

theorem serializeParameter_of_ne {k : Key} {b : BareItem} (h : b ≠ .boolean true) :
    serializeParameter k b = (';' :: k.text) ++ '=' :: serializeBareItem b := if_neg h

/-- A key that no value is printed with. -/
theorem param_align_none {k : Key} {b : BareItem} (hkey : k.text ≠ "name".toList ∧ k.text ≠ "key".toList) {r r' : Text}
    (hr : ParamEdge r) : (';' :: k.text) ++ r = serializeParameter k b ++ r' ↔ canonicalParam (k, b) = true ∧ r = r' := by
  by_cases hb : b = .boolean true
  · subst hb
    simp [canonicalParam, serializeParameter]
  · have hcan : canonicalParam (k, b) = false := by
      cases b with
      | boolean b => simpa [canonicalParam] using hb
      | string s => simp only [canonicalParam, hkey, decide_false, Bool.or_false, Bool.false_and]
      | _ => rfl
    rw [serializeParameter_of_ne hb, List.append_assoc, List.append_cancel_left_eq, hcan]
    simp only [Bool.false_eq_true, false_and, iff_false]
    -- What is printed goes on with no equals sign.
    obtain ⟨c, s, rfl, hc⟩ := hr
    intro heq
    cases heq
    revert hc
    decide

theorem param_align_some {k : Key} {s : SfString} (hkey : k.text = "name".toList ∨ k.text = "key".toList) {r r' : Text} :
    (';' :: k.text) ++ ('=' :: '"' :: (s.text ++ '"' :: r)) = serializeParameter k (.string s) ++ r' ↔
      canonicalParam (k, .string s) = true ∧ r = r' := by
  have hser : serializeParameter k (.string s) ++ r' =
      (';' :: k.text) ++ ('=' :: '"' :: (s.text.flatMap escapeChar ++ '"' :: r')) := by
    have hne : BareItem.string s ≠ .boolean true := by simp
    rw [serializeParameter_of_ne hne, serializeBareItem, serializeString]
    simp
  rw [hser, List.append_cancel_left_eq, List.cons.injEq, List.cons.injEq, eq_self, eq_self, true_and, true_and, quote_align]
  have hvalued : (decide (k.text = "name".toList) || decide (k.text = "key".toList)) = true := by
    rwa [Bool.or_eq_true, decide_eq_true_eq, decide_eq_true_eq]
  simp only [canonicalParam, hvalued, Bool.true_and]

theorem param_align {e : Key × BareItem} {p : HttpMessageComponentParam}
    (h : HttpMessageComponentParam.tryFrom e.1.text e.2 = .ok p) {r r' : Text} (hr : ParamEdge r) :
    (';' :: p.toText) ++ r = serializeParameter e.1 e.2 ++ r' ↔ canonicalParam e = true ∧ r = r' := by
  obtain ⟨k, b⟩ := e
  obtain ⟨hk, hv⟩ := HttpMessageComponentParam.tryFrom_eq_ok.mp h
  dsimp only at hk hv
  cases hval : p.value with
  | none =>
    have hkey : k.text ≠ "name".toList ∧ k.text ≠ "key".toList := by
      rw [← hk]
      cases p <;> first | decide | cases hval
    have htext : p.toText = k.text := by
      rw [p.toText_eq, hval, hk, HttpMessageComponentParam.valueTail, List.append_nil]
    rw [htext]
    exact param_align_none hkey hr
  | some t =>
    obtain ⟨s, rfl, rfl⟩ := hv t hval
    have hkey : k.text = "name".toList ∨ k.text = "key".toList := by
      rw [← hk]
      cases p <;> first | exact Or.inl rfl | exact Or.inr rfl | cases hval
    have htext : (';' :: p.toText) ++ r = (';' :: k.text) ++ ('=' :: '"' :: (s.text ++ '"' :: r)) := by
      rw [p.toText_eq, hval, hk, HttpMessageComponentParam.valueTail]
      simp
    rw [htext]
    exact param_align_some hkey

theorem paramEdge_cons (c : Char) (s : Text) (h : c = ';' ∨ c = ' ' ∨ c = ')') : ParamEdge (c :: s) := ⟨c, s, rfl, h⟩

theorem params_align {r r' : Text} (hr : Edge r) : ∀ {l : List (Key × BareItem)} {ps : List HttpMessageComponentParam},
    List.Forall₂ (fun e p => HttpMessageComponentParam.tryFrom e.1.text e.2 = .ok p) l ps →
    ((ps.flatMap fun p => ';' :: p.toText) ++ r = (l.flatMap fun e => serializeParameter e.1 e.2) ++ r' ↔
      (∀ e ∈ l, canonicalParam e = true) ∧ r = r')
  | [], [], .nil => by simp
  | e :: l, p :: ps, .cons h hs => by
    have hedge : ParamEdge ((ps.flatMap fun p => ';' :: p.toText) ++ r) := by
      cases ps with
      | nil => exact hr.paramEdge
      | cons q ps => exact paramEdge_cons ';' _ (Or.inl rfl)
    rw [List.flatMap_cons, List.flatMap_cons, List.append_assoc, List.append_assoc, param_align h hedge,
      params_align hr hs, List.forall_mem_cons, and_assoc]

/-- An item whose serialization is what is printed for the id read from it. -/
def canonicalItem (i : Item) : Bool :=
  match i.bareItem with
  | .string s => isClean s.text && i.params.entries.all canonicalParam
  | _ => false

theorem HttpMessageComponentId.toText_eq (id : HttpMessageComponentId) :
    id.toText = '"' :: id.name.inner ++ '"' :: id.params.items.flatMap fun p => ';' :: p.toText := by
  rw [HttpMessageComponentId.toText, HttpMessageComponentParams.toText_eq, HttpMessageComponentName.toText]
  simp

theorem id_align {i : Item} {id : HttpMessageComponentId}
    (h : HttpMessageComponentId.readItem (HttpMessageComponentId.asRead i) = .ok id) {r r' : Text} (hr : Edge r) :
    id.toText ++ r = serializeItem i ++ r' ↔ canonicalItem i = true ∧ r = r' := by
  by_cases hs : ∃ s, i.bareItem = .string s
  · obtain ⟨s, hs⟩ := hs
    rw [HttpMessageComponentId.asRead_string hs] at h
    obtain ⟨hname, hparams, -⟩ := HttpMessageComponentId.readItem_eq_ok.mp h
    obtain ⟨-, s', hs', hinner⟩ := HttpMessageComponentName.tryFrom_eq_ok.mp hname
    obtain rfl : s = s' := by
      rw [hs] at hs'
      cases hs'
      rfl
    have hser : serializeItem i ++ r' = '"' :: (s.text.flatMap escapeChar ++
        '"' :: ((i.params.entries.flatMap fun e => serializeParameter e.1 e.2) ++ r')) := by
      rw [serializeItem, hs, serializeBareItem, serializeString, serializeParameters]
      simp
    have htext : id.toText ++ r =
        '"' :: (s.text ++ '"' :: ((id.params.items.flatMap fun p => ';' :: p.toText) ++ r)) := by
      rw [HttpMessageComponentId.toText_eq, hinner]
      simp
    rw [htext, hser, List.cons.injEq, eq_self, true_and, quote_align,
      params_align hr (HttpMessageComponentParams.tryFrom_eq_ok.mp hparams), canonicalItem, hs, ← and_assoc,
      Bool.and_eq_true, List.all_eq_true]
  · -- Printing puts quotes around what had none.
    have hcan : canonicalItem i = false := by
      cases hb : i.bareItem <;> simp only [canonicalItem, hb]
      exact absurd ⟨_, hb⟩ hs
    have hnot : '"' ∉ serializeItem i := by
      intro hm
      rw [HttpMessageComponentId.asRead, if_pos hm] at h
      obtain ⟨-, s, hb, -⟩ := HttpMessageComponentName.tryFrom_eq_ok.mp (HttpMessageComponentId.readItem_eq_ok.mp h).1
      exact hs ⟨s, hb⟩
    obtain ⟨c, t, hc, -⟩ := serializeItem_head i
    rw [hcan, hc, HttpMessageComponentId.toText_eq]
    simp only [Bool.false_eq_true, false_and, iff_false]
    intro heq
    rw [List.append_assoc, List.cons_append, List.cons_append, List.cons_append, List.cons.injEq] at heq
    exact hnot (by rw [hc, ← heq.1]; simp)

theorem joinIds_eq (ids : List HttpMessageComponentId) :
    HttpSignatureParams.joinIds ids = join [' '] (ids.map HttpMessageComponentId.toText) := by
  have hne : ∀ id : HttpMessageComponentId, id.toText ≠ [] := by
    intro id
    rw [HttpMessageComponentId.toText_eq]
    simp
  have hfold : ∀ (ids : List HttpMessageComponentId) (acc : Text), acc ≠ [] →
      ids.foldl (fun acc v => if acc.isEmpty then v.toText else acc ++ ' ' :: v.toText) acc =
        join [' '] (acc :: ids.map HttpMessageComponentId.toText) := by
    intro ids
    induction ids with
    | nil => simp
    | cons v ids ih =>
      intro acc hacc
      rw [List.foldl_cons, if_neg (by simp [hacc]), ih _ (by simp)]
      cases ids <;> simp
  cases ids with
  | nil => rfl
  | cons v ids =>
    rw [HttpSignatureParams.joinIds, List.foldl_cons]
    exact hfold ids _ (hne v)

theorem ids_align {r r' : Text} : ∀ {items : List Item} {ids : List HttpMessageComponentId},
    HttpSignatureParams.ReadsIds items ids →
    (join [' '] (ids.map HttpMessageComponentId.toText) ++ ')' :: r = join [' '] (items.map serializeItem) ++ ')' :: r' ↔
      (∀ i ∈ items, canonicalItem i = true) ∧ r = r')
  | [], [], .nil => by simp
  | [i], [id], .cons h .nil => by
    rw [List.map_singleton, List.map_singleton, join_singleton, join_singleton, id_align h ⟨_, _, rfl, Or.inr rfl⟩]
    simp
  | i :: j :: items, id :: id' :: ids, .cons h hs => by
    have ih := @ids_align r r' (j :: items) (id' :: ids) hs
    simp only [List.map_cons, join_cons_cons, List.append_assoc, List.cons_append, List.nil_append] at ih ⊢
    rw [id_align h ⟨_, _, rfl, Or.inl rfl⟩, List.cons.injEq, eq_self, true_and, ih,
      List.forall_mem_cons (a := i), and_assoc]

/-! ### Signature parameters -/

namespace HttpSignatureParams

/-- The keys of the signature parameters, in the order they are printed in. -/
def paramKeys : List Text :=
  ["created".toList, "expires".toList, "nonce".toList, "alg".toList, "keyid".toList, "tag".toList]

theorem paramKeys_nodup : paramKeys.Nodup := by decide

theorem isKeyChar_of_mem_paramKeys : ∀ k ∈ paramKeys, ∀ c ∈ k, isKeyChar c = true := by
  have hall : paramKeys.all (fun k => k.all isKeyChar) = true := by decide
  exact fun k hk => List.all_eq_true.mp (List.all_eq_true.mp hall k hk)

def isTimeKey (k : Text) : Bool := k = "created".toList || k = "expires".toList

/-- What is printed for a value under a key: a number for a time, a string for anything else. -/
def valueText (k : Text) (v : BareItem) : Option Text :=
  if isTimeKey k then (asU64 v).map fun n => natText n.toNat else (asText v).map quoted

def printedText (l : List (Key × BareItem)) (ks : List Text) : Text :=
  ks.flatMap fun k => paramText k ((entryValue l k).bind (valueText k))

theorem toText_eq (p : HttpSignatureParams) : p.toText =
    '(' :: join [' '] (p.coveredComponents.map HttpMessageComponentId.toText) ++ ')' ::
      (paramText "created".toList (p.created.map fun n => natText n.toNat) ++
      (paramText "expires".toList (p.expires.map fun n => natText n.toNat) ++
      (paramText "nonce".toList (p.nonce.map quoted) ++
      (paramText "alg".toList (p.alg.map quoted) ++
      (paramText "keyid".toList (p.keyid.map quoted) ++
      paramText "tag".toList (p.tag.map quoted)))))) := by
  rw [toText, joinIds_eq]

theorem toText_ofEntries (ids : List HttpMessageComponentId) (l : List (Key × BareItem)) : (ofEntries ids l).toText =
    '(' :: join [' '] (ids.map HttpMessageComponentId.toText) ++ ')' :: printedText l paramKeys := by
  rw [toText_eq]
  simp only [ofEntries, printedText, paramKeys, List.flatMap_cons, List.flatMap_nil, Option.map_bind, List.append_nil]
  rfl

/-- A parameter whose serialization is what is printed for it. -/
def canonicalValue (e : Key × BareItem) : Bool :=
  match e.2 with
  | .integer _ => isTimeKey e.1.text
  | .string s => !isTimeKey e.1.text && isClean s.text
  | _ => false

theorem natText_asU64 {i : Integer} (h : 0 ≤ i.val) : natText (UInt64.ofNat i.val.toNat).toNat = intText i.val := by
  have hb := i.bound.2
  simp only [maxInteger] at hb
  have hn : i.val.toNat = i.val.natAbs := by omega
  rw [UInt64.toNat_ofNat_of_lt' (by show i.val.toNat < 2 ^ 64; omega), intText, if_neg (by omega), hn]

/-- The text printed for a value and its serialization go on alike only for a canonical value. -/
theorem value_align {e : Key × BareItem} {t : Text} (h : valueText e.1.text e.2 = some t) (hneg : isNegative e = false)
    {r r' : Text} : t ++ r = serializeBareItem e.2 ++ r' ↔ canonicalValue e = true ∧ r = r' := by
  obtain ⟨k, b⟩ := e
  unfold valueText at h
  split at h
  · rename_i hk
    cases b <;> simp only [asU64, BareItem.asInteger, Option.map_some, Option.map_none, Option.some.injEq, reduceCtorEq] at h
    rename_i i
    have hi : 0 ≤ i.val := by
      unfold isNegative at hneg
      unfold isTimeKey at hk
      rw [hk, Bool.true_and] at hneg
      simpa using hneg
    rw [← h, natText_asU64 hi, serializeBareItem, List.append_cancel_left_eq, canonicalValue, hk]
    simp
  · rename_i hk
    cases b <;> simp only [asText, BareItem.asString, Option.map_some, Option.map_none, Option.some.injEq, reduceCtorEq] at h
    rename_i s
    rw [← h, quoted, serializeBareItem, serializeString, canonicalValue, Bool.eq_false_iff.mpr hk]
    simp [quote_align]

theorem valueText_of_canonical {e : Key × BareItem} (h : canonicalValue e = true) :
    ∃ t, valueText e.1.text e.2 = some t := by
  obtain ⟨k, b⟩ := e
  cases b <;> simp only [canonicalValue, Bool.and_eq_true, Bool.not_eq_true', Bool.false_eq_true] at h
  · exact ⟨_, by rw [valueText, if_pos h]; rfl⟩
  · exact ⟨_, by rw [valueText, h.1, if_neg Bool.false_ne_true]; rfl⟩

/-- Keys end where a character that no key has follows. -/
theorem key_align {k k' u u' : Text} (hk : ∀ d ∈ k, isKeyChar d = true) (hk' : ∀ d ∈ k', isKeyChar d = true)
    (hu : ∀ d ∈ u.head?, isKeyChar d = false) (hu' : ∀ d ∈ u'.head?, isKeyChar d = false) (h : k ++ u = k' ++ u') :
    k = k' ∧ u = u' := by
  have ht := congrArg (List.takeWhile isKeyChar) h
  have hd := congrArg (List.dropWhile isKeyChar) h
  rw [takeWhile_append_of_all hk hu, takeWhile_append_of_all hk' hu'] at ht
  rw [dropWhile_append_of_all hk hu, dropWhile_append_of_all hk' hu'] at hd
  exact ⟨ht, hd⟩

theorem head_equals (s : Text) : ∀ d ∈ ('=' :: s).head?, isKeyChar d = false := by
  simp only [List.head?_cons, Option.mem_def, Option.some.injEq, forall_eq']
  decide

theorem serializeParameter_head (e : Key × BareItem) : ∃ s, serializeParameter e.1 e.2 = ';' :: s := by
  unfold serializeParameter
  split
  · exact ⟨_, rfl⟩
  · exact ⟨_, rfl⟩

theorem serializeParameters_head (l : List (Key × BareItem)) :
    ∀ c ∈ (l.flatMap fun e => serializeParameter e.1 e.2).head?, c = ';' := by
  cases l with
  | nil => simp
  | cons e l =>
    intro c hc
    obtain ⟨s, hs⟩ := serializeParameter_head e
    rw [List.flatMap_cons, hs] at hc
    simpa [eq_comm] using hc

/-- A printed parameter and a serialized one go on alike only under the same key. -/
theorem paramText_align {k t r : Text} {e : Key × BareItem} {l : List (Key × BareItem)}
    (hk : ∀ c ∈ k, isKeyChar c = true) : paramText k (some t) ++ r =
      serializeParameter e.1 e.2 ++ (l.flatMap fun e => serializeParameter e.1 e.2) →
    k = e.1.text ∧ e.2 ≠ .boolean true ∧
      t ++ r = serializeBareItem e.2 ++ l.flatMap fun e => serializeParameter e.1 e.2 := by
  intro h
  have hhead := serializeParameters_head l
  rw [paramText, List.cons_append, List.cons_append, List.append_assoc, List.cons_append] at h
  by_cases hb : e.2 = .boolean true
  · rw [hb, serializeParameter, if_pos rfl, List.cons_append, List.cons.injEq] at h
    obtain ⟨-, heq⟩ := key_align hk e.1.isKeyChar_of_mem (head_equals _) (fun d hd => by rw [hhead d hd]; decide) h.2
    exact absurd (hhead '=' (by rw [← heq]; rfl)) (by decide)
  · rw [serializeParameter_of_ne hb, List.cons_append, List.cons_append, List.append_assoc, List.cons_append,
      List.cons.injEq] at h
    obtain ⟨hkey, heq⟩ := key_align hk e.1.isKeyChar_of_mem (head_equals _) (head_equals _) h.2
    exact ⟨hkey, hb, (List.cons.injEq .. ▸ heq).2⟩

theorem printedText_cons_of_notMem {e : Key × BareItem} {l : List (Key × BareItem)} {ks : List Text} (h : e.1.text ∉ ks) :
    printedText (e :: l) ks = printedText l ks := by
  have hcongr : ∀ k ∈ ks, paramText k ((entryValue (e :: l) k).bind (valueText k)) =
      paramText k ((entryValue l k).bind (valueText k)) := by
    intro k hk
    rw [entryValue_cons_ne fun he => h (he ▸ hk)]
  exact List.flatMap_congr hcongr

theorem ne_true_of_canonicalValue {e : Key × BareItem} (h : canonicalValue e = true) : e.2 ≠ .boolean true := by
  intro hb
  rw [canonicalValue, hb] at h
  cases h

theorem not_canonicalValue_of_unprinted {e : Key × BareItem} {l : List (Key × BareItem)}
    (h : (entryValue (e :: l) e.1.text).bind (valueText e.1.text) = none) : ¬ canonicalValue e = true := by
  intro hc
  obtain ⟨t, ht⟩ := valueText_of_canonical hc
  rw [entryValue_cons_self, Option.bind_some, ht] at h
  cases h

/-- What is printed, in the order of the keys, is the serialization of the entries exactly when these are
canonical and in that order too. -/
theorem printedText_eq_serialize : ∀ {ks : List Text} {l : List (Key × BareItem)}, ks.Nodup →
    (∀ k ∈ ks, ∀ c ∈ k, isKeyChar c = true) → l.any isNegative = false →
    (printedText l ks = (l.flatMap fun e => serializeParameter e.1 e.2) ↔
      (l.map fun e => e.1.text).Sublist ks ∧ ∀ e ∈ l, canonicalValue e = true)
  | [], l, _, _, _ => by
    cases l with
    | nil => simp [printedText]
    | cons e l =>
      obtain ⟨s, hs⟩ := serializeParameter_head e
      simp [printedText, hs]
  | k :: ks, [], _, _, _ => by
    simp [printedText, entryValue, paramText]
  | k :: ks, e :: l, hks, hkc, hneg => by
    obtain ⟨hk, hnd⟩ := List.nodup_cons.mp hks
    obtain ⟨hkc₁, hkc₂⟩ := List.forall_mem_cons.mp hkc
    have hprint : printedText (e :: l) (k :: ks) =
        paramText k ((entryValue (e :: l) k).bind (valueText k)) ++ printedText (e :: l) ks := rfl
    rw [hprint, List.map_cons, List.sublist_cons_iff]
    cases hval : (entryValue (e :: l) k).bind (valueText k) with
    | none =>
      -- Nothing is printed for this key, and no canonical entry has it.
      rw [paramText, List.nil_append, printedText_eq_serialize hnd hkc₂ hneg, List.map_cons]
      refine and_congr_left fun hcan => ⟨Or.inl, ?_⟩
      rintro (h | ⟨r, hr, -⟩)
      · exact h
      · cases hr
        exact absurd (hcan e List.mem_cons_self) (not_canonicalValue_of_unprinted hval)
    | some t =>
      obtain ⟨v, hv, ht⟩ := Option.bind_eq_some_iff.mp hval
      have hneg' := hneg
      rw [List.any_cons, Bool.or_eq_false_iff] at hneg'
      have same : k = e.1.text → (t ++ printedText (e :: l) ks =
          serializeBareItem e.2 ++ (l.flatMap fun e => serializeParameter e.1 e.2) ↔
          canonicalValue e = true ∧ (l.map fun e => e.1.text).Sublist ks ∧ ∀ e ∈ l, canonicalValue e = true) := by
        rintro rfl
        rw [entryValue_cons_self] at hv
        cases hv
        rw [value_align ht hneg'.1, printedText_cons_of_notMem hk, printedText_eq_serialize hnd hkc₂ hneg'.2]
      constructor
      · intro h
        obtain ⟨hkey, -, heq⟩ := paramText_align hkc₁ h
        obtain ⟨he, hsub, hl⟩ := (same hkey).mp heq
        refine ⟨Or.inr ⟨_, by rw [hkey], hsub⟩, ?_⟩
        exact List.forall_mem_cons.mpr ⟨he, hl⟩
      · rintro ⟨hsub, hcan⟩
        obtain ⟨he, hl⟩ := List.forall_mem_cons.mp hcan
        rcases hsub with hsub | ⟨r, hr, hsub⟩
        · obtain ⟨f, hf, hfk, -⟩ := mem_of_entryValue hv
          have hmem : k ∈ (e :: l).map fun e => e.1.text := List.mem_map.mpr ⟨f, hf, hfk⟩
          exact absurd (hsub.subset hmem) hk
        · cases hr
          have := (same rfl).mpr ⟨he, hsub, hl⟩
          rw [List.flatMap_cons, serializeParameter_of_ne (ne_true_of_canonicalValue he), paramText]
          simp only [List.cons_append, List.append_assoc, this]

end HttpSignatureParams

end HttpSig
