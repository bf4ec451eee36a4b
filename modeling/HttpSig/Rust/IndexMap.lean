import Mathlib.Algebra.GroupWithZero.Nat
import Mathlib.Data.List.Nodup
import Mathlib.Data.List.Perm.Subperm

/-! Insertion-ordered maps and sets, after the `indexmap` crate: inserting a key that is present
overwrites its value in place, any other key goes to the end. -/

namespace Rust

/-- The entries after `IndexMap::insert`. -/
def insertEntry {κ α : Type} [DecidableEq κ] (k : κ) (a : α) : List (κ × α) → List (κ × α)
  | [] => [(k, a)]
  | (k', a') :: l => if k' = k then (k, a) :: l else (k', a') :: insertEntry k a l

section
variable {κ α : Type} [DecidableEq κ]

theorem insertEntry_of_notMem {k : κ} {a : α} : ∀ {l : List (κ × α)}, k ∉ l.map Prod.fst →
    insertEntry k a l = l ++ [(k, a)]
  | [], _ => rfl
  | (k', a') :: l, h => by
    rw [List.map_cons, List.mem_cons, not_or] at h
    rw [insertEntry, if_neg (Ne.symm h.1), insertEntry_of_notMem h.2]
    rfl

theorem map_fst_insertEntry_of_mem {k : κ} {a : α} : ∀ {l : List (κ × α)}, k ∈ l.map Prod.fst →
    (insertEntry k a l).map Prod.fst = l.map Prod.fst
  | (k', a') :: l, h => by
    rw [insertEntry]
    split
    · rename_i hk
      simp [hk]
    · rename_i hk
      have hm : k ∈ l.map Prod.fst := by
        rcases List.mem_cons.mp h with rfl | h
        · exact absurd rfl hk
        · exact h
      rw [List.map_cons, List.map_cons, map_fst_insertEntry_of_mem hm]

theorem insertEntry_insertEntry (k : κ) (a b : α) : ∀ l : List (κ × α),
    insertEntry k b (insertEntry k a l) = insertEntry k b l
  | [] => by simp [insertEntry]
  | (k', a') :: l => by
    by_cases h : k' = k
    · simp [insertEntry, h]
    · simp [insertEntry, h, insertEntry_insertEntry k a b l]

theorem insertEntry_comm {k k' : κ} : ∀ {l : List (κ × α)}, k ∈ l.map Prod.fst → k ≠ k' → ∀ a b : α,
    insertEntry k a (insertEntry k' b l) = insertEntry k' b (insertEntry k a l)
  | (j, c) :: l, h, hne, a, b => by
    by_cases hj : j = k
    · subst hj
      simp [insertEntry, hne]
    · have hm : k ∈ l.map Prod.fst := by
        rcases List.mem_cons.mp h with rfl | h
        · exact absurd rfl hj
        · exact h
      by_cases hj' : j = k'
      · subst hj'
        simp [insertEntry, hj]
      · simp [insertEntry, hj, hj', insertEntry_comm hm hne a b]

theorem insertEntry_append_cons {k : κ} {a b : α} {l₂ : List (κ × α)} : ∀ {l₁ : List (κ × α)}, k ∉ l₁.map Prod.fst →
    insertEntry k a (l₁ ++ (k, b) :: l₂) = l₁ ++ (k, a) :: l₂
  | [], _ => by simp [insertEntry]
  | (j, c) :: l₁, h => by
    rw [List.map_cons, List.mem_cons, not_or] at h
    rw [List.cons_append, insertEntry, if_neg (Ne.symm h.1), insertEntry_append_cons h.2]
    rfl

theorem find?_insertEntry (k j : κ) (a : α) : ∀ l : List (κ × α),
    (insertEntry k a l).find? (fun e => e.1 = j) = if k = j then some (k, a) else l.find? fun e => e.1 = j
  | [] => by by_cases h : k = j <;> simp [insertEntry, h]
  | (k', a') :: l => by
    by_cases h : k' = k
    · subst h
      by_cases hj : k' = j <;> simp [insertEntry, hj]
    · rw [insertEntry, if_neg h, List.find?_cons, List.find?_cons, find?_insertEntry k j a l]
      by_cases hj : k' = j
      · subst hj
        simp [Ne.symm h]
      · simp [hj]

/-- An insertion adds the weight of its entry, less that of the entry it overwrites. -/
theorem sum_insertEntry (w : κ × α → Nat) (k : κ) (a : α) : ∀ l : List (κ × α),
    ∃ n, ((insertEntry k a l).map w).sum + n = (l.map w).sum + w (k, a) ∧
      (k ∈ l.map Prod.fst → ∃ b, n = w (k, b))
  | [] => ⟨0, by simp [insertEntry], by simp⟩
  | (k', a') :: l => by
    by_cases h : k' = k
    · subst h
      refine ⟨w (k', a'), ?_, fun _ => ⟨a', rfl⟩⟩
      rw [insertEntry, if_pos rfl, List.map_cons, List.map_cons, List.sum_cons, List.sum_cons]
      omega
    · obtain ⟨n, hn, hmem⟩ := sum_insertEntry w k a l
      refine ⟨n, ?_, fun hk => hmem ?_⟩
      · rw [insertEntry, if_neg h, List.map_cons, List.map_cons, List.sum_cons, List.sum_cons]
        omega
      · rcases List.mem_cons.mp hk with rfl | hk
        · exact absurd rfl h
        · exact hk

theorem nodup_insertEntry {k : κ} {a : α} {l : List (κ × α)} (h : (l.map Prod.fst).Nodup) :
    ((insertEntry k a l).map Prod.fst).Nodup := by
  by_cases hk : k ∈ l.map Prod.fst
  · rwa [map_fst_insertEntry_of_mem hk]
  · rw [insertEntry_of_notMem hk, List.map_append, List.nodup_append]
    refine ⟨h, by simp, ?_⟩
    rintro x hx y hy rfl
    obtain rfl : x = k := by simpa using hy
    exact hk hx

end

/-- An `IndexMap`: entries in insertion order, each key at most once. -/
structure IndexMap (κ α : Type) where
  entries : List (κ × α)
  nodup : (entries.map Prod.fst).Nodup
  deriving DecidableEq

namespace IndexMap
variable {κ α β : Type}

@[ext] theorem ext {m n : IndexMap κ α} (h : m.entries = n.entries) : m = n := by
  cases m
  cases n
  cases h
  rfl

def empty : IndexMap κ α := ⟨[], by simp⟩

instance : EmptyCollection (IndexMap κ α) := ⟨empty⟩

@[simp] theorem entries_empty : (∅ : IndexMap κ α).entries = [] := rfl

def keys (m : IndexMap κ α) : List κ := m.entries.map Prod.fst
def values (m : IndexMap κ α) : List α := m.entries.map Prod.snd
def length (m : IndexMap κ α) : Nat := m.entries.length
def isEmpty (m : IndexMap κ α) : Bool := m.entries.isEmpty

theorem keys_nodup (m : IndexMap κ α) : m.keys.Nodup := m.nodup

theorem length_keys (m : IndexMap κ α) : m.keys.length = m.length := by simp [keys, length]

section Lookup
variable [DecidableEq κ]

def insert (m : IndexMap κ α) (k : κ) (a : α) : IndexMap κ α :=
  ⟨insertEntry k a m.entries, nodup_insertEntry m.nodup⟩

/-- `IndexMap::extend`. -/
def extend (m : IndexMap κ α) (l : List (κ × α)) : IndexMap κ α := l.foldl (fun m e => m.insert e.1 e.2) m

/-- `collect::<IndexMap<_, _>>`. -/
def ofList (l : List (κ × α)) : IndexMap κ α := (∅ : IndexMap κ α).extend l

def get? (m : IndexMap κ α) (k : κ) : Option α := (m.entries.find? fun e => e.1 = k).map Prod.snd

def containsKey (m : IndexMap κ α) (k : κ) : Bool := (m.get? k).isSome

@[simp] theorem extend_nil (m : IndexMap κ α) : m.extend [] = m := rfl

@[simp] theorem extend_cons (m : IndexMap κ α) (e : κ × α) (l : List (κ × α)) :
    m.extend (e :: l) = (m.insert e.1 e.2).extend l := rfl

theorem extend_append (m : IndexMap κ α) (l₁ l₂ : List (κ × α)) :
    m.extend (l₁ ++ l₂) = (m.extend l₁).extend l₂ := List.foldl_append

theorem entries_insert_of_notMem {m : IndexMap κ α} {k : κ} {a : α} (h : k ∉ m.keys) :
    (m.insert k a).entries = m.entries ++ [(k, a)] := insertEntry_of_notMem h

/-- Extending by fresh keys appends the entries as they are. -/
theorem entries_extend_of_nodup : ∀ {l : List (κ × α)} {m : IndexMap κ α},
    ((m.entries ++ l).map Prod.fst).Nodup → (m.extend l).entries = m.entries ++ l
  | [], m, _ => by simp
  | (k, a) :: l, m, h => by
    have hk : k ∉ m.keys := by
      intro hk
      rw [List.map_append, List.nodup_append] at h
      exact h.2.2 k hk k (by simp) rfl
    have hm := entries_insert_of_notMem (a := a) hk
    rw [extend_cons, entries_extend_of_nodup (by rw [hm]; simpa using h), hm]
    simp

theorem entries_ofList {l : List (κ × α)} (h : (l.map Prod.fst).Nodup) : (ofList l).entries = l :=
  entries_extend_of_nodup h

@[simp] theorem ofList_entries (m : IndexMap κ α) : ofList m.entries = m := ext (entries_ofList m.nodup)

theorem get?_eq_some {m : IndexMap κ α} {k : κ} {a : α} : m.get? k = some a ↔ (k, a) ∈ m.entries := by
  obtain ⟨l, h⟩ := m
  unfold get?
  dsimp only
  induction l with
  | nil => simp
  | cons e l ih =>
    rw [List.map_cons, List.nodup_cons] at h
    rw [List.find?_cons]
    by_cases he : e.1 = k
    · simp only [he, decide_true, Option.map_some, Option.some.injEq, List.mem_cons]
      constructor
      · rintro rfl
        exact Or.inl (by rw [← he])
      · rintro (rfl | hm)
        · rfl
        · exact absurd (List.mem_map.mpr ⟨_, hm, rfl⟩) (he ▸ h.1)
    · simp only [he, decide_false, ih h.2, List.mem_cons]
      constructor
      · exact Or.inr
      · rintro (rfl | hm)
        · exact absurd rfl he
        · exact hm

/-- Overwriting a present key commutes with inserting another one. -/
theorem insert_comm {m : IndexMap κ α} {k k' : κ} (h : k ∈ m.keys) (hne : k ≠ k') (a b : α) :
    (m.insert k' b).insert k a = (m.insert k a).insert k' b :=
  ext (insertEntry_comm h hne a b)

@[simp] theorem insert_insert (m : IndexMap κ α) (k : κ) (a b : α) : (m.insert k a).insert k b = m.insert k b :=
  ext (insertEntry_insertEntry k a b m.entries)

theorem mem_keys_insert {m : IndexMap κ α} (k : κ) (a : α) : k ∈ (m.insert k a).keys := by
  by_cases h : k ∈ m.keys
  · rw [keys, insert, map_fst_insertEntry_of_mem h]
    exact h
  · rw [keys, entries_insert_of_notMem h]
    simp

theorem keys_subset_insert {m : IndexMap κ α} {k j : κ} {a : α} (h : j ∈ m.keys) : j ∈ (m.insert k a).keys := by
  by_cases hk : k ∈ m.keys
  · rw [keys, insert, map_fst_insertEntry_of_mem hk]
    exact h
  · rw [keys, entries_insert_of_notMem hk, List.map_append]
    exact List.mem_append_left _ h

theorem extend_insert_of_mem {k : κ} (a : α) : ∀ {l : List (κ × α)} {m : IndexMap κ α}, k ∈ m.keys →
    k ∉ l.map Prod.fst → (m.extend l).insert k a = (m.insert k a).extend l
  | [], m, _, _ => rfl
  | (k', b) :: l, m, hm, hl => by
    rw [List.map_cons, List.mem_cons, not_or] at hl
    rw [extend_cons, extend_cons, extend_insert_of_mem a (keys_subset_insert hm) hl.2]
    congr 1
    exact insert_comm hm hl.1 a b

theorem extend_entries_insert (d m : IndexMap κ α) (k : κ) (a : α) :
    d.extend (m.insert k a).entries = (d.extend m.entries).insert k a := by
  by_cases hk : k ∈ m.keys
  · obtain ⟨⟨k', b⟩, he, rfl⟩ := List.mem_map.mp hk
    obtain ⟨l₁, l₂, hl⟩ := List.append_of_mem he
    have hnd := m.nodup
    rw [hl, List.map_append, List.map_cons, List.nodup_append, List.nodup_cons] at hnd
    have h₁ : k' ∉ l₁.map Prod.fst := fun h => hnd.2.2 k' h k' (List.mem_cons_self ..) rfl
    have hins : (m.insert k' a).entries = l₁ ++ (k', a) :: l₂ := by
      show insertEntry k' a m.entries = _
      rw [hl, insertEntry_append_cons h₁]
    rw [hins, hl, extend_append, extend_append, extend_cons, extend_cons,
      extend_insert_of_mem a (mem_keys_insert _ _) hnd.2.1.1]
    simp
  · rw [entries_insert_of_notMem hk, extend_append]
    rfl

/-- Extending by a map is extending by the list it was collected from. -/
theorem extend_entries_extend (d : IndexMap κ α) : ∀ (l : List (κ × α)) (m : IndexMap κ α),
    d.extend (m.extend l).entries = (d.extend m.entries).extend l
  | [], _ => rfl
  | (k, a) :: l, m => by
    rw [extend_cons, extend_entries_extend d l, extend_entries_insert]
    rfl

theorem extend_entries_ofList (d : IndexMap κ α) (l : List (κ × α)) : d.extend (ofList l).entries = d.extend l :=
  extend_entries_extend d l ∅

/-- The order of the entries does not matter to a lookup. -/
theorem get?_of_perm {m n : IndexMap κ α} (h : m.entries.Perm n.entries) (k : κ) : n.get? k = m.get? k := by
  ext a
  rw [get?_eq_some, get?_eq_some]
  exact h.mem_iff.symm

theorem mem_keys {m : IndexMap κ α} {k : κ} : k ∈ m.keys ↔ ∃ a, m.get? k = some a := by
  simp only [keys, List.mem_map, get?_eq_some]
  constructor
  · rintro ⟨⟨k', a⟩, hm, rfl⟩
    exact ⟨a, hm⟩
  · rintro ⟨a, hm⟩
    exact ⟨(k, a), hm, rfl⟩

theorem get?_insert (m : IndexMap κ α) (k j : κ) (a : α) :
    (m.insert k a).get? j = if k = j then some a else m.get? j := by
  show ((insertEntry k a m.entries).find? _).map Prod.snd = _
  rw [find?_insertEntry]
  split
  · rfl
  · rfl

theorem mem_keys_insert_iff {m : IndexMap κ α} {k j : κ} {a : α} : j ∈ (m.insert k a).keys ↔ j = k ∨ j ∈ m.keys := by
  rw [mem_keys, mem_keys, get?_insert]
  by_cases h : k = j
  · simp [h]
  · simp [h, Ne.symm h]

theorem mem_keys_extend {j : κ} : ∀ {l : List (κ × α)} {m : IndexMap κ α},
    j ∈ (m.extend l).keys ↔ j ∈ m.keys ∨ j ∈ l.map Prod.fst
  | [], m => by simp
  | (k, a) :: l, m => by
    rw [extend_cons, mem_keys_extend, mem_keys_insert_iff, List.map_cons, List.mem_cons]
    tauto

theorem mem_keys_ofList {j : κ} {l : List (κ × α)} : j ∈ (ofList l).keys ↔ j ∈ l.map Prod.fst := by
  rw [ofList, mem_keys_extend]
  exact or_iff_right (List.not_mem_nil)

theorem entries_ofList_ne_nil {l : List (κ × α)} (h : l ≠ []) : (ofList l).entries ≠ [] := by
  obtain ⟨e, l', rfl⟩ := List.exists_cons_of_ne_nil h
  have hk : e.1 ∈ (ofList (e :: l')).keys := mem_keys_ofList.mpr (List.mem_cons_self ..)
  intro hnil
  rw [keys, hnil] at hk
  cases hk

theorem get?_extend {j : κ} : ∀ {l : List (κ × α)} {m : IndexMap κ α}, (l.map Prod.fst).Nodup →
    (m.extend l).get? j = ((l.find? fun e => e.1 = j).map Prod.snd).or (m.get? j)
  | [], m, _ => rfl
  | (k, a) :: l, m, h => by
    rw [List.map_cons, List.nodup_cons] at h
    rw [extend_cons, get?_extend h.2, get?_insert, List.find?_cons]
    by_cases hk : k = j
    · subst hk
      have hnone : l.find? (fun e => e.1 = k) = none := by
        rw [List.find?_eq_none]
        intro e he hek
        exact h.1 (List.mem_map.mpr ⟨e, he, of_decide_eq_true hek⟩)
      simp [hnone]
    · simp [hk]

/-- The values of the second map come first. -/
theorem get?_extend_entries (m n : IndexMap κ α) (j : κ) : (m.extend n.entries).get? j = (n.get? j).or (m.get? j) :=
  get?_extend n.nodup

omit [DecidableEq κ] in
/-- A map that has no key but one. -/
theorem keys_eq_singleton {m : IndexMap κ α} {k : κ} (hm : m.entries ≠ []) (h : ∀ j ∈ m.keys, j = k) : m.keys = [k] := by
  have hrep : m.keys = List.replicate m.keys.length k := List.eq_replicate_of_mem h
  have hle : m.keys.length ≤ 1 := List.nodup_replicate.mp (hrep ▸ m.keys_nodup)
  have hpos : 0 < m.keys.length := by simpa [keys, List.length_pos_iff] using hm
  rw [hrep, Nat.le_antisymm hle hpos]
  rfl

/-- Two maps make one entry when neither has another key, and then it is the entry of the second. -/
theorem entries_extend_eq_singleton {m n : IndexMap κ α} {k : κ} {a : α} (hm : m.entries ≠ []) (hn : n.entries ≠ []) :
    (m.extend n.entries).entries = [(k, a)] ↔ m.keys = [k] ∧ n.entries = [(k, a)] := by
  have hmem : ∀ j, j ∈ (m.extend n.entries).keys ↔ j ∈ m.keys ∨ j ∈ n.keys := fun j => mem_keys_extend
  have hkeys : ∀ {l : IndexMap κ α}, l.entries = [(k, a)] → l.keys = [k] := fun h => by rw [keys, h]; rfl
  have hget : ∀ {l : IndexMap κ α}, l.entries = [(k, a)] ↔ l.keys = [k] ∧ l.get? k = some a := by
    intro l
    constructor
    · intro h
      exact ⟨hkeys h, get?_eq_some.mpr (h ▸ List.mem_singleton_self _)⟩
    · rintro ⟨hk, ha⟩
      obtain ⟨e, he, -⟩ := List.map_eq_singleton_iff.mp hk
      rw [get?_eq_some, he, List.mem_singleton] at ha
      rw [he, ha]
  constructor
  · intro h
    have hone : ∀ j, j ∈ (m.extend n.entries).keys → j = k := fun j hj => List.mem_singleton.mp (hkeys h ▸ hj)
    have hm' : m.keys = [k] := keys_eq_singleton hm fun j hj => hone j ((hmem j).mpr (Or.inl hj))
    have hn' : n.keys = [k] := keys_eq_singleton hn fun j hj => hone j ((hmem j).mpr (Or.inr hj))
    obtain ⟨b, hb⟩ := mem_keys.mp (hn' ▸ List.mem_singleton_self k : k ∈ n.keys)
    have ha := (hget.mp h).2
    rw [get?_extend_entries, hb, Option.some_or] at ha
    exact ⟨hm', hget.mpr ⟨hn', hb.trans ha⟩⟩
  · rintro ⟨hm', hn'⟩
    obtain ⟨hk, ha⟩ := hget.mp hn'
    refine hget.mpr ⟨keys_eq_singleton ?_ fun j hj => ?_, ?_⟩
    · intro hnil
      have hj := (hmem k).mpr (Or.inr (hk ▸ List.mem_singleton_self k))
      rw [keys, hnil] at hj
      cases hj
    · rcases (hmem j).mp hj with hj | hj
      · exact List.mem_singleton.mp (hm' ▸ hj)
      · exact List.mem_singleton.mp (hk ▸ hj)
    · rw [get?_extend_entries, ha, Option.some_or]

/-- Extending a map adds no more than the weight of what it is extended by, and all of it only when every key is new. -/
theorem sum_extend {w : κ × α → Nat} (hw : ∀ e, 0 < w e) : ∀ (l : List (κ × α)) (m : IndexMap κ α),
    ((m.extend l).entries.map w).sum ≤ (m.entries.map w).sum + (l.map w).sum ∧
      (((m.extend l).entries.map w).sum = (m.entries.map w).sum + (l.map w).sum →
        ((m.entries ++ l).map Prod.fst).Nodup)
  | [], m => ⟨Nat.le_refl _, fun _ => by simpa using m.nodup⟩
  | (k, a) :: l, m => by
    obtain ⟨n, hn, hmem⟩ := sum_insertEntry w k a m.entries
    obtain ⟨hle, hnd⟩ := sum_extend hw l (m.insert k a)
    have hentries : (m.insert k a).entries = insertEntry k a m.entries := rfl
    have hextend : m.extend ((k, a) :: l) = (m.insert k a).extend l := rfl
    rw [hentries] at hle hnd
    rw [hextend, List.map_cons, List.sum_cons]
    refine ⟨by omega, fun heq => ?_⟩
    by_cases hk : k ∈ m.keys
    · obtain ⟨b, rfl⟩ := hmem hk
      have := hw (k, b)
      omega
    · have hnew := insertEntry_of_notMem (a := a) hk
      have hsum : ((insertEntry k a m.entries).map w).sum = (m.entries.map w).sum + w (k, a) := by
        rw [hnew]
        simp
      have := hnd (by omega)
      rw [hnew, List.append_assoc] at this
      exact this

/-- Collecting keeps every entry exactly when no key repeats. -/
theorem sum_ofList_iff {w : κ × α → Nat} (hw : ∀ e, 0 < w e) (l : List (κ × α)) :
    ((ofList l).entries.map w).sum = (l.map w).sum ↔ (l.map Prod.fst).Nodup := by
  constructor
  · intro h
    exact (sum_extend hw l ∅).2 (by rw [show (∅ : IndexMap κ α).extend l = ofList l from rfl, h]; simp)
  · intro h
    rw [entries_ofList h]

theorem length_ofList_iff {l : List (κ × α)} : (ofList l).length = l.length ↔ (l.map Prod.fst).Nodup := by
  have h := sum_ofList_iff (w := fun _ : κ × α => 1) (fun _ => Nat.one_pos) l
  simpa [length] using h

theorem ofList_append_congr {l₁ l₂ m₁ m₂ : List (κ × α)} (h₁ : ofList l₁ = ofList m₁) (h₂ : ofList l₂ = ofList m₂) :
    ofList (l₁ ++ l₂) = ofList (m₁ ++ m₂) := by
  have happend : ∀ l l' : List (κ × α), ofList (l ++ l') = (ofList l).extend (ofList l').entries := by
    intro l l'
    rw [extend_entries_ofList, ofList, extend_append]
    rfl
  rw [happend, happend, h₁, h₂]

theorem containsKey_iff {m : IndexMap κ α} {k : κ} : m.containsKey k = true ↔ k ∈ m.keys := by
  rw [containsKey, Option.isSome_iff_exists, mem_keys]

end Lookup

/-- The map with every value mapped. -/
def mapValues (f : κ → α → β) (m : IndexMap κ α) : IndexMap κ β :=
  ⟨m.entries.map fun e => (e.1, f e.1 e.2), by
    rw [List.map_map]
    exact m.nodup⟩

end IndexMap

/-- An `IndexSet`: elements in insertion order, each at most once. -/
structure IndexSet (α : Type) where
  items : List α
  nodup : items.Nodup
  deriving DecidableEq

namespace IndexSet
variable {α : Type}

@[ext] theorem ext {s t : IndexSet α} (h : s.items = t.items) : s = t := by
  cases s
  cases t
  cases h
  rfl

instance : EmptyCollection (IndexSet α) := ⟨⟨[], by simp⟩⟩

@[simp] theorem items_empty : (∅ : IndexSet α).items = [] := rfl

variable [DecidableEq α]

def insert (s : IndexSet α) (a : α) : IndexSet α :=
  if h : a ∈ s.items then s else ⟨s.items ++ [a], by
    rw [List.nodup_append]
    refine ⟨s.nodup, by simp, ?_⟩
    rintro x hx y hy rfl
    obtain rfl : x = a := by simpa using hy
    exact h hx⟩

/-- `collect::<IndexSet<_>>`. -/
def ofList (l : List α) : IndexSet α := l.foldl insert ∅

/-- `PartialEq for IndexSet`: equal as sets, whatever the order. -/
def beq (s t : IndexSet α) : Bool := s.items.length == t.items.length && s.items.all (· ∈ t.items)

theorem items_insert_of_notMem {s : IndexSet α} {a : α} (h : a ∉ s.items) :
    (s.insert a).items = s.items ++ [a] := by
  rw [insert, dif_neg h]

theorem items_foldl_insert : ∀ {l : List α} {s : IndexSet α}, (s.items ++ l).Nodup →
    (l.foldl insert s).items = s.items ++ l
  | [], s, _ => by simp
  | a :: l, s, h => by
    have ha : a ∉ s.items := by
      intro ha
      rw [List.nodup_append] at h
      exact h.2.2 a ha a (by simp) rfl
    have hs := items_insert_of_notMem ha
    rw [List.foldl_cons, items_foldl_insert (by rw [hs]; simpa using h), hs]
    simp

theorem items_ofList {l : List α} (h : l.Nodup) : (ofList l).items = l := items_foldl_insert h

/-- What is there first stays first. -/
theorem head?_foldl_insert : ∀ {l : List α} {s : IndexSet α}, s.items ≠ [] →
    (l.foldl insert s).items.head? = s.items.head?
  | [], _, _ => rfl
  | a :: l, s, h => by
    have hs : (s.insert a).items ≠ [] ∧ (s.insert a).items.head? = s.items.head? := by
      by_cases ha : a ∈ s.items
      · rw [insert, dif_pos ha]
        exact ⟨h, rfl⟩
      · rw [items_insert_of_notMem ha]
        exact ⟨by simp, List.head?_append_of_ne_nil _ h⟩
    rw [List.foldl_cons, head?_foldl_insert hs.1, hs.2]

@[simp] theorem head?_ofList (l : List α) : (ofList l).items.head? = l.head? := by
  cases l with
  | nil => rfl
  | cons a l =>
    have ha : ((∅ : IndexSet α).insert a).items = [a] := items_insert_of_notMem (by simp)
    rw [ofList, List.foldl_cons, head?_foldl_insert (by simp [ha]), ha]
    rfl

@[simp] theorem beq_refl (s : IndexSet α) : s.beq s = true := by simp [beq]

/-- Sets are equal when each is an arrangement of the other. -/
theorem beq_iff {s t : IndexSet α} : s.beq t = true ↔ s.items.Perm t.items := by
  rw [beq, Bool.and_eq_true, beq_iff_eq, List.all_eq_true]
  constructor
  · rintro ⟨hlen, hsub⟩
    have hsub : s.items ⊆ t.items := fun a ha => of_decide_eq_true (hsub a ha)
    exact (List.subperm_of_subset s.nodup hsub).perm_of_length_le (Nat.le_of_eq hlen.symm)
  · intro h
    exact ⟨h.length_eq, fun a ha => decide_eq_true (h.mem_iff.mp ha)⟩

end IndexSet
end Rust
