import Mathlib.Data.List.Pairwise
import HttpSig.Theorems.Members

/-! Which ids count as equal, and what a list without equal ids still covers twice: the program compares field
names as they are spelled, while a header field is looked up whatever the case of its name. -/

namespace HttpSig
open Rust Sfv

/-! ### Equal ids -/

namespace HttpMessageComponentId

theorem beq_iff {a b : HttpMessageComponentId} :
    a.beq b = true ↔ a.name = b.name ∧ a.params.items.Perm b.params.items := by
  rw [beq, Bool.and_eq_true, beq_iff_eq, IndexSet.beq_iff]

theorem beq_comm (a b : HttpMessageComponentId) : a.beq b = b.beq a := by
  rw [Bool.eq_iff_iff, beq_iff, beq_iff]
  exact and_congr eq_comm List.perm_comm

end HttpMessageComponentId

theorem hasUniqueElements_go {l : List HttpMessageComponentId} : ∀ {uniq : List HttpMessageComponentId},
    hasUniqueElements.go uniq l = true ↔
      (∀ x ∈ l, ∀ y ∈ uniq, x.beq y = false) ∧ l.Pairwise fun a b => a.beq b = false := by
  induction l with
  | nil => simp [hasUniqueElements.go]
  | cons x l ih =>
    intro uniq
    rw [hasUniqueElements.go]
    split
    · rename_i h
      obtain ⟨y, hy, hxy⟩ := List.any_eq_true.mp h
      simp only [Bool.false_eq_true, false_iff, not_and]
      intro h
      rw [h x (List.mem_cons_self ..) y hy] at hxy
      cases hxy
    · rename_i h
      have hx : ∀ y ∈ uniq, x.beq y = false := by simpa using h
      rw [ih, List.pairwise_cons, List.forall_mem_cons, and_iff_right hx]
      simp only [List.forall_mem_cons, forall_and, x.beq_comm, and_assoc]
      exact and_left_comm

/-- The check for duplicates passes when no two positions hold equal ids. -/
theorem hasUniqueElements_iff {ids : List HttpMessageComponentId} :
    hasUniqueElements ids = true ↔ ids.Pairwise fun a b => a.beq b = false := by
  rw [hasUniqueElements, hasUniqueElements_go]
  exact and_iff_right fun _ _ _ => nofun

/-! ### Equal sources -/

/-- Names that the lookups take for the same: a field name is looked up in lower case. -/
def HttpMessageComponentName.lookup : HttpMessageComponentName → HttpMessageComponentName
  | httpField name => httpField (toAsciiLowercase name)
  | derived name => derived name

/-- Ids that take their value from one place: the same name to a lookup, with the same set of parameters. -/
def SameLookup (a b : HttpMessageComponentId) : Prop :=
  a.name.lookup = b.name.lookup ∧ a.params.items.Perm b.params.items

/-- One header field under two spellings, with the same set of parameters. -/
def CaseVariants (a b : HttpMessageComponentId) : Prop :=
  ∃ m n, a.name = .httpField m ∧ b.name = .httpField n ∧ m ≠ n ∧ toAsciiLowercase m = toAsciiLowercase n ∧
    a.params.items.Perm b.params.items

/-- Ids of one source are equal, or else they are spellings of one field. -/
theorem sameLookup_iff {a b : HttpMessageComponentId} : SameLookup a b ↔ a.beq b = true ∨ CaseVariants a b := by
  rw [HttpMessageComponentId.beq_iff, SameLookup, CaseVariants]
  constructor
  · rintro ⟨hname, hps⟩
    cases ha : a.name with
    | httpField m =>
      cases hb : b.name with
      | httpField n =>
        rw [ha, hb] at hname
        have hlower : toAsciiLowercase m = toAsciiLowercase n := HttpMessageComponentName.httpField.inj hname
        by_cases hmn : m = n
        · exact Or.inl ⟨congrArg _ hmn, hps⟩
        · exact Or.inr ⟨m, n, rfl, rfl, hmn, hlower, hps⟩
      | derived e =>
        rw [ha, hb] at hname
        cases hname
    | derived d =>
      cases hb : b.name with
      | httpField n =>
        rw [ha, hb] at hname
        cases hname
      | derived e =>
        rw [ha, hb] at hname
        exact Or.inl ⟨hname, hps⟩
  · rintro (⟨hname, hps⟩ | ⟨m, n, ha, hb, -, hlower, hps⟩)
    · exact ⟨congrArg _ hname, hps⟩
    · rw [ha, hb]
      exact ⟨congrArg HttpMessageComponentName.httpField hlower, hps⟩

theorem SameLookup.symm {a b : HttpMessageComponentId} (h : SameLookup a b) : SameLookup b a := ⟨h.1.symm, h.2.symm⟩

/-! ### Accepted lists -/

namespace HttpSignatureParams

/-- The covered lists that pass through one of the two entry points. -/
inductive AcceptedIds : List HttpMessageComponentId → Prop where
  | tryNew {ids : List HttpMessageComponentId} {now : UInt64} {p : HttpSignatureParams} (h : tryNew ids now = .ok p) :
    AcceptedIds ids
  | tryFrom {e : ListEntry} {p : HttpSignatureParams} (h : tryFrom e = .ok p) : AcceptedIds p.coveredComponents

theorem AcceptedIds.pairwise {ids : List HttpMessageComponentId} (h : AcceptedIds ids) :
    ids.Pairwise fun a b => a.beq b = false := by
  cases h with
  | @tryNew ids now p h =>
    rw [HttpSignatureParams.tryNew] at h
    split at h
    · cases h
    · rename_i hu
      rw [Bool.not_eq_true', Bool.not_eq_false] at hu
      exact hasUniqueElements_iff.mp hu
  | @tryFrom e p h =>
    cases e with
    | item i => cases h
    | innerList l =>
      obtain ⟨ids, -, hu, -, rfl⟩ := tryFrom_innerList_eq_ok.mp h
      exact hasUniqueElements_iff.mp hu

/-- No source is covered twice exactly when no header field is covered under two spellings. -/
theorem covered_sources_distinct_iff {ids : List HttpMessageComponentId} (h : AcceptedIds ids) :
    ids.Pairwise (fun a b => ¬SameLookup a b) ↔ ∀ a ∈ ids, ∀ b ∈ ids, ¬CaseVariants a b := by
  constructor
  · intro hd a ha b hb hab
    have hne : a ≠ b := by
      rintro rfl
      obtain ⟨m, n, hm, hn, hmn, -⟩ := hab
      exact hmn (HttpMessageComponentName.httpField.inj (hm.symm.trans hn))
    have : Std.Symm fun a b => ¬SameLookup a b := ⟨fun _ _ hxy h => hxy h.symm⟩
    exact hd.forall ha hb hne (sameLookup_iff.mpr (Or.inr hab))
  · intro hv
    refine h.pairwise.imp_of_mem fun {a b} ha hb hab hs => ?_
    rcases sameLookup_iff.mp hs with he | hc
    · rw [hab] at he
      cases he
    · exact hv a ha b hb hc

/-! ### A field under two spellings -/

def fieldId (name : String) : HttpMessageComponentId := ⟨.httpField name.toList, ∅⟩

theorem dateOnce_covered : [fieldId "date", fieldId "digest"].Pairwise fun a b => ¬SameLookup a b := by
  have haccepted : AcceptedIds [fieldId "date", fieldId "digest"] := @AcceptedIds.tryNew _ 0 _ rfl
  refine (covered_sources_distinct_iff haccepted).mpr ?_
  rintro a ha b hb ⟨m, n, hm, hn, hne, hlower, -⟩
  rcases List.mem_pair.mp ha with rfl | rfl <;> obtain rfl | rfl := List.mem_pair.mp hb <;> cases hm <;> cases hn
  all_goals
    revert hne hlower
    decide

/-- Both spellings are accepted, and a lookup takes them for one. -/
theorem dateTwice_covered : tryNew [fieldId "Date", fieldId "date"] 0 =
      .ok { ofComponents [fieldId "Date", fieldId "date"] with created := some 0 } ∧
    ¬[fieldId "Date", fieldId "date"].Pairwise fun a b => ¬SameLookup a b := by
  refine ⟨by decide, fun h => ?_⟩
  rw [List.pairwise_pair] at h
  exact h ⟨by decide, .nil⟩

end HttpSignatureParams
end HttpSig
