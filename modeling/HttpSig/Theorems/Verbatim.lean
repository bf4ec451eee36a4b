import HttpSig.Theorems.Components
import HttpSig.Theorems.Duplicates

/-! The ids on the component lines against the ids in the `@signature-params` line: equal up to the order of
their parameters, and printed alike exactly when that order is the same. -/

namespace HttpSig
open Rust Sfv Http

/-! ### Parameters in their printed order -/

theorem HttpMessageComponentParam.keyText_ne_nil (p : HttpMessageComponentParam) : p.keyText ≠ [] := by
  cases p <;> dsimp only [keyText] <;> decide

namespace HttpMessageComponentParams

/-- No two parameters of one key, as in every id that is read. -/
def DistinctKeys (ps : HttpMessageComponentParams) : Prop := (ps.items.map HttpMessageComponentParam.keyText).Nodup

instance (ps : HttpMessageComponentParams) : Decidable (DistinctKeys ps) := inferInstanceAs (Decidable (List.Nodup _))

/-- A parameter is told by the first character of its text. -/
theorem keyText_of_head {p q : HttpMessageComponentParam} (h : p.toText.head? = q.toText.head?) :
    p.keyText = q.keyText := by
  have hhead : p.keyText.head? = q.keyText.head? := by
    rwa [p.toText_eq, q.toText_eq, List.head?_append_of_ne_nil _ p.keyText_ne_nil,
      List.head?_append_of_ne_nil _ q.keyText_ne_nil] at h
  clear h
  cases p <;> cases q <;> dsimp only [HttpMessageComponentParam.keyText] at hhead ⊢ <;>
    first | rfl | exact absurd hhead (by decide)

theorem toText_ne_nil (p : HttpMessageComponentParam) : p.toText ≠ [] := by
  cases p <;> nofun

/-- Arrangements of the same parameters print alike only when they are the same. -/
theorem eq_of_flatMap_toText : ∀ {l m : List HttpMessageComponentParam}, l.Perm m →
    (l.map HttpMessageComponentParam.keyText).Nodup →
    (l.flatMap fun p => ';' :: p.toText) = (m.flatMap fun p => ';' :: p.toText) → l = m
  | [], m, hperm, _, _ => hperm.nil_eq
  | p :: l, [], hperm, _, _ => absurd hperm.length_eq (by simp)
  | p :: l, q :: m, hperm, hnd, h => by
    rw [List.flatMap_cons, List.flatMap_cons, List.cons_append, List.cons_append, List.cons.injEq, eq_self, true_and] at h
    have hhead : p.toText.head? = q.toText.head? := by
      rw [← List.head?_append_of_ne_nil _ (toText_ne_nil p), h, List.head?_append_of_ne_nil _ (toText_ne_nil q)]
    obtain rfl : p = q := List.inj_on_of_nodup_map hnd (List.mem_cons_self ..)
      (hperm.mem_iff.mpr (List.mem_cons_self ..)) (keyText_of_head hhead)
    rw [List.map_cons, List.nodup_cons] at hnd
    rw [eq_of_flatMap_toText hperm.cons_inv hnd.2 (List.append_cancel_left h)]

end HttpMessageComponentParams

namespace HttpMessageComponentId

/-- Equal ids print alike exactly when their parameters stand in one order. -/
theorem toText_eq_iff {a b : HttpMessageComponentId} (h : a.beq b = true) (hd : HttpMessageComponentParams.DistinctKeys b.params) :
    a.toText = b.toText ↔ a.params.items = b.params.items := by
  obtain ⟨hname, hperm⟩ := beq_iff.mp h
  rw [toText, toText, hname, List.append_cancel_left_eq, HttpMessageComponentParams.toText_eq,
    HttpMessageComponentParams.toText_eq]
  refine ⟨fun h => ?_, fun h => by rw [h]⟩
  exact (HttpMessageComponentParams.eq_of_flatMap_toText hperm.symm hd h.symm).symm

theorem distinctKeys_of_tryFrom {s : Text} {id : HttpMessageComponentId} (h : tryFrom s = .ok id) :
    HttpMessageComponentParams.DistinctKeys id.params := by
  rw [tryFrom_eq] at h
  obtain ⟨i, -, hi⟩ := Outcome.bind_eq_ok.mp h
  obtain ⟨-, hps, -⟩ := readItem_eq_ok.mp hi
  exact HttpMessageComponentParams.nodup_keyText (HttpMessageComponentParams.tryFrom_eq_ok.mp hps)

end HttpMessageComponentId

/-! ### Bases -/

namespace HttpSignatureBase

/-- A line bears a covered id up to the order of its parameters, and its text exactly when that order is the same. -/
structure Bears (line : HttpMessageComponent) (id : HttpMessageComponentId) : Prop where
  name : line.id.name = id.name
  params : line.id.params.items.Perm id.params.items
  text : HttpMessageComponentParams.DistinctKeys id.params →
    (line.id.toText = id.toText ↔ line.id.params.items = id.params.items)

theorem bears_of_beq {line : HttpMessageComponent} {id : HttpMessageComponentId} (h : line.id.beq id = true) :
    Bears line id where
  name := (HttpMessageComponentId.beq_iff.mp h).1
  params := (HttpMessageComponentId.beq_iff.mp h).2
  text := HttpMessageComponentId.toText_eq_iff h

theorem forall₂_of_idsMatch : ∀ {lines : List HttpMessageComponent} {ids : List HttpMessageComponentId},
    lines.length = ids.length → idsMatch lines ids = true → List.Forall₂ Bears lines ids
  | [], [], _, _ => .nil
  | line :: lines, id :: ids, hlen, h => by
    rw [idsMatch, List.zip_cons_cons, List.all_cons, Bool.and_eq_true] at h
    exact .cons (bears_of_beq h.1) (forall₂_of_idsMatch (Nat.succ.inj hlen) h.2)

section
variable {β γ : Type}

/-- The lines of a base bear its covered ids in their order, and those that a message's base is built with print
them word for word. -/
theorem lines_bear_ids (p : HttpSignatureParams) :
    (∀ lines base, tryNew lines p = .ok base → List.Forall₂ Bears lines p.coveredComponents) ∧
    ∀ (msg : RequestOrResponse β) (reqForParam : Option (Request γ)) (base : HttpSignatureBase),
      buildSignatureBase msg p reqForParam = .ok base →
        (base.componentLines.map fun line => line.id.toText) = p.coveredComponents.map HttpMessageComponentId.toText := by
  refine ⟨fun lines base h => ?_, fun msg reqForParam base h => ?_⟩
  · rw [tryNew] at h
    split at h
    · rename_i hlen
      split at h
      · rename_i hids
        exact forall₂_of_idsMatch hlen hids
      · cases h
    · cases h
  · rw [← map_id_of_extractCovered (buildSignatureBase_eq_ok.mp h).1, List.map_map]
    rfl

end

/-! ### Two orders -/

/-- `"date"` with two parameters in the order of the list. -/
def dateWith (params : List HttpMessageComponentParam) : HttpMessageComponentId := ⟨.httpField "date".toList, .ofList params⟩

def sfReqLine : HttpMessageComponent := ⟨dateWith [.sf, .req], .string "x".toList⟩

def reqSfParams : HttpSignatureParams := .ofComponents [dateWith [.req, .sf]]

def reqSfBase : HttpSignatureBase := ⟨[sfReqLine], reqSfParams, rfl, by decide⟩

theorem reqSfBase_bears : List.Forall₂ Bears [sfReqLine] [dateWith [.req, .sf]] :=
  (@lines_bear_ids Unit Unit reqSfParams).1 [sfReqLine] reqSfBase (by decide)

/-- The base is made, and its line does not print the covered id. -/
theorem reqSfBase_differs : tryNew [sfReqLine] reqSfParams = .ok reqSfBase ∧
    sfReqLine.id.toText ≠ (dateWith [.req, .sf]).toText ∧
    reqSfBase.toText = "\"date\";sf;req: x\n\"@signature-params\": (\"date\";req;sf)".toList := by
  decide

end HttpSignatureBase
end HttpSig
