import HttpSig.Theorems.Printing

/-! Ids without quotes in them: their print can be taken apart, which that of other ids cannot. -/

namespace HttpSig
open Rust Sfv

/-! ### Parameters and ids without quotes -/

/-- No quote in the parameter's string. -/
def HttpMessageComponentParam.NoQuote (p : HttpMessageComponentParam) : Prop := ∀ t ∈ p.value, '"' ∉ t

/-- No quote in the name nor in a parameter. -/
def HttpMessageComponentId.NoQuote (id : HttpMessageComponentId) : Prop :=
  '"' ∉ id.name.inner ∧ ∀ p ∈ id.params.items, p.NoQuote

theorem ParamEdge.head {t : Text} (h : ParamEdge t) : ∀ d ∈ t.head?, isKeyChar d = false := by
  obtain ⟨c, s, rfl, hc⟩ := h
  intro d hd
  obtain rfl : c = d := by simpa using hd
  rcases hc with rfl | rfl | rfl <;> decide

theorem ParamEdge.ne_equals {s : Text} : ¬ ParamEdge ('=' :: s) := by
  rintro ⟨c, t, h, hc⟩
  cases h
  revert hc
  decide

theorem param_unique {p q : HttpMessageComponentParam} (hp : p.NoQuote) (hq : q.NoQuote) {r r' : Text}
    (hr : ParamEdge r) (hr' : ParamEdge r') (h : p.toText ++ r = q.toText ++ r') : p = q ∧ r = r' := by
  have head : ∀ {v : Option Text} {t : Text}, ParamEdge t →
      ∀ d ∈ (HttpMessageComponentParam.valueTail v ++ t).head?, isKeyChar d = false := by
    intro v t ht
    cases v with
    | none => exact ht.head
    | some v => exact HttpSignatureParams.head_equals _
  rw [p.toText_eq, q.toText_eq, List.append_assoc, List.append_assoc] at h
  obtain ⟨hk, h⟩ := HttpSignatureParams.key_align p.isKeyChar_of_mem_keyText q.isKeyChar_of_mem_keyText (head hr)
    (head hr') h
  have same : p.value = q.value ∧ r = r' := by
    cases hv : p.value with
    | none =>
      cases hv' : q.value with
      | none => exact ⟨rfl, by simpa [hv, hv', HttpMessageComponentParam.valueTail] using h⟩
      | some b =>
        have hrb : r = '=' :: '"' :: b ++ ['"'] ++ r' := by
          simpa [hv, hv', HttpMessageComponentParam.valueTail] using h
        exact absurd (hrb ▸ hr) ParamEdge.ne_equals
    | some a =>
      cases hv' : q.value with
      | none =>
        have hra : r' = '=' :: '"' :: a ++ ['"'] ++ r := by
          simpa [hv, hv', HttpMessageComponentParam.valueTail] using h.symm
        exact absurd (hra ▸ hr') ParamEdge.ne_equals
      | some b =>
        have hab : a ++ '"' :: r = b ++ '"' :: r' := by
          simpa [hv, hv', HttpMessageComponentParam.valueTail] using h
        obtain ⟨rfl, h⟩ := append_cons_inj (hp a hv) (hq b hv') hab
        exact ⟨rfl, h⟩
  exact ⟨HttpMessageComponentParam.eq_of_keyText_of_value hk same.1, same.2⟩

theorem paramEdge_append {r : Text} (hr : Edge r) (ps : List HttpMessageComponentParam) :
    ParamEdge ((ps.flatMap fun p => ';' :: p.toText) ++ r) := by
  cases ps with
  | nil => exact hr.paramEdge
  | cons p ps => exact paramEdge_cons ';' _ (Or.inl rfl)

theorem Edge.ne_semicolon {s : Text} : ¬ Edge (';' :: s) := by
  rintro ⟨c, t, h, hc⟩
  cases h
  revert hc
  decide

theorem params_unique {r r' : Text} (hr : Edge r) (hr' : Edge r') : ∀ {ps qs : List HttpMessageComponentParam},
    (∀ p ∈ ps, p.NoQuote) → (∀ q ∈ qs, q.NoQuote) →
    (ps.flatMap fun p => ';' :: p.toText) ++ r = (qs.flatMap fun p => ';' :: p.toText) ++ r' → ps = qs ∧ r = r'
  | [], [], _, _, h => ⟨rfl, h⟩
  | [], q :: qs, _, _, h => by
    rw [List.flatMap_nil, List.nil_append, List.flatMap_cons, List.cons_append] at h
    exact absurd (h ▸ hr) Edge.ne_semicolon
  | p :: ps, [], _, _, h => by
    rw [List.flatMap_nil, List.nil_append, List.flatMap_cons, List.cons_append] at h
    exact absurd (h ▸ hr') Edge.ne_semicolon
  | p :: ps, q :: qs, hp, hq, h => by
    obtain ⟨hp, hps⟩ := List.forall_mem_cons.mp hp
    obtain ⟨hq, hqs⟩ := List.forall_mem_cons.mp hq
    rw [List.flatMap_cons, List.flatMap_cons, List.append_assoc, List.append_assoc, List.cons_append, List.cons_append,
      List.cons.injEq] at h
    obtain ⟨rfl, hrest⟩ := param_unique hp hq (paramEdge_append hr ps) (paramEdge_append hr' qs) h.2
    obtain ⟨rfl, htail⟩ := params_unique hr hr' hps hqs hrest
    exact ⟨rfl, htail⟩

/-- Parameters without quotes are told apart by their print. -/
theorem params_inj {ps qs : List HttpMessageComponentParam} (hps : ∀ p ∈ ps, p.NoQuote) (hqs : ∀ q ∈ qs, q.NoQuote)
    (h : (ps.flatMap fun p => ';' :: p.toText) = qs.flatMap fun q => ';' :: q.toText) : ps = qs := by
  have hedge : Edge [')'] := ⟨_, _, rfl, Or.inr rfl⟩
  exact (params_unique hedge hedge hps hqs (congrArg (· ++ [')']) h)).1

/-- A quote in a parameter is one between its two others. -/
theorem noQuote_of_count {ps : List HttpMessageComponentParam}
    (h : (ps.flatMap fun p => ';' :: p.toText).count '"' ≤ 2) : ∀ p ∈ ps, p.NoQuote := by
  intro p hp v hv hquote
  have hsub : (';' :: p.toText).Sublist (ps.flatMap fun p => ';' :: p.toText) := by
    obtain ⟨l, l', rfl⟩ := List.append_of_mem hp
    rw [List.flatMap_append, List.flatMap_cons]
    exact (List.sublist_append_left _ _).trans (List.sublist_append_right _ _)
  have htext : p.toText = p.keyText ++ ('=' :: '"' :: v ++ ['"']) := by
    rw [p.toText_eq, Option.mem_def.mp hv]
    rfl
  have hcount := hsub.count_le '"'
  have hone : 0 < v.count '"' := List.count_pos_iff.mpr hquote
  rw [htext, List.count_cons, List.count_append, List.count_append, List.count_cons, List.count_cons_self,
    List.count_cons_self] at hcount
  omega

/-- Parameters that print as a single one are that one. -/
theorem params_of_toText {ps : List HttpMessageComponentParam} {q : HttpMessageComponentParam} (hq : q.NoQuote)
    (h : (ps.flatMap fun p => ';' :: p.toText) = ';' :: q.toText) : ps = [q] := by
  have hsingle : ([q].flatMap fun p => ';' :: p.toText) = ';' :: q.toText := List.append_nil _
  have hcount : (';' :: q.toText).count '"' ≤ 2 := by
    have hkey : '"' ∉ q.keyText := by
      intro hm
      exact absurd (q.isKeyChar_of_mem_keyText _ hm) (by decide)
    rw [q.toText_eq, List.count_cons, List.count_append, List.count_eq_zero_of_not_mem hkey]
    cases hv : q.value with
    | none => exact Nat.zero_le 2
    | some v =>
      have hzero : v.count '"' = 0 := List.count_eq_zero_of_not_mem (hq v hv)
      rw [HttpMessageComponentParam.valueTail, List.count_append, List.count_cons, List.count_cons_self, hzero]
      decide
  exact params_inj (noQuote_of_count (h ▸ hcount)) (List.forall_mem_singleton.mpr hq) (h.trans hsingle.symm)

/-- An id whose print can be taken apart: a well formed name, and no quotes. -/
structure HttpMessageComponentId.Quoteless (id : HttpMessageComponentId) : Prop where
  wellFormed : id.name.WellFormed
  noQuote : id.NoQuote

namespace HttpMessageComponentId
variable {a b : HttpMessageComponentId}

theorem Quoteless.unique (ha : a.Quoteless) (hb : b.Quoteless) {r r' : Text} (hr : Edge r) (hr' : Edge r')
    (h : a.toText ++ r = b.toText ++ r') : a = b ∧ r = r' := by
  rw [a.toText_eq, b.toText_eq] at h
  simp only [List.cons_append, List.cons.injEq, true_and, List.append_assoc] at h
  obtain ⟨hname, h⟩ := append_cons_inj ha.noQuote.1 hb.noQuote.1 h
  obtain ⟨hparams, h⟩ := params_unique hr hr' ha.noQuote.2 hb.noQuote.2 h
  refine ⟨?_, h⟩
  cases a
  cases b
  cases HttpMessageComponentName.inner_inj ha.wellFormed hb.wellFormed hname
  cases IndexSet.ext hparams
  rfl

theorem Quoteless.eq (ha : a.Quoteless) (hb : b.Quoteless) (h : a.toText = b.toText) : a = b := by
  have hedge : Edge [')'] := ⟨_, _, rfl, Or.inr rfl⟩
  exact (ha.unique hb hedge hedge (congrArg (· ++ [')']) h)).1

end HttpMessageComponentId
end HttpSig
