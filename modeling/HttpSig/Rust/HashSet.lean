import HttpSig.Rust.Text

/-! Hashing, and sets that look their elements up by hash. Hashing a value makes calls on a hasher; a set compares an
element with those of the same hash, and finds an equal one as long as equal values make the same calls. -/

namespace Rust

/-! ### Hashing -/

/-- A call that hashing makes on a hasher. -/
inductive HashCall where
  | writeIsize (n : Int)
  | writeLengthPrefix (n : Nat)
  | writeStr (s : Text)
  deriving DecidableEq

structure Hasher where
  State : Type
  init : State
  call : State → HashCall → State
  finish : State → UInt64

/-- The hash of a value by the calls it makes. -/
def Hasher.hash (h : Hasher) (calls : List HashCall) : UInt64 := h.finish (calls.foldl h.call h.init)

/-- A slice of strings: its length, and then the strings. -/
def hashTexts (l : List Text) : List HashCall := .writeLengthPrefix l.length :: l.map .writeStr

/-! ### Sorting -/

/-- Strings are ordered by the bytes of their encoding. -/
def textLe (s t : Text) : Bool := utf8Bytes s ≤ utf8Bytes t

def sortTexts (l : List Text) : List Text := l.mergeSort textLe

theorem textLe_iff {s t : Text} : textLe s t = true ↔ utf8Bytes s ≤ utf8Bytes t := decide_eq_true_iff

theorem pairwise_sortTexts (l : List Text) : (sortTexts l).Pairwise fun s t => textLe s t = true := by
  refine List.pairwise_mergeSort (fun a b c hab hbc => ?_) (fun a b => ?_) l
  · rw [textLe_iff] at *
    exact List.le_trans hab hbc
  · rw [Bool.or_eq_true, textLe_iff, textLe_iff]
    exact List.le_total ..

/-- Sorting forgets the order. -/
theorem sortTexts_eq_of_perm {l l' : List Text} (h : l.Perm l') : sortTexts l = sortTexts l' := by
  have hperm : (sortTexts l).Perm (sortTexts l') :=
    (List.mergeSort_perm l textLe).trans (h.trans (List.mergeSort_perm l' textLe).symm)
  refine hperm.eq_of_pairwise (fun s t _ _ hst hts => ?_) (pairwise_sortTexts l) (pairwise_sortTexts l')
  rw [textLe_iff] at hst hts
  exact utf8Bytes_injective (List.le_antisymm hst hts)

/-! ### Hash sets -/

/-- A table over a hash. Which of its elements it compares with the one it looks for is its own affair, but it leaves
out none of the same hash. -/
structure HashTable (α : Type) (hash : α → UInt64) where
  compares : List α → α → α → Bool
  compares_of_hash_eq : ∀ set x y, hash x = hash y → compares set x y = true

namespace HashTable
variable {α : Type} {hash : α → UInt64} {eq : α → α → Bool}

/-- The table that compares elements of the same hash only. -/
def byHash (hash : α → UInt64) : HashTable α hash where
  compares _ x y := hash x == hash y
  compares_of_hash_eq _ _ _ h := beq_iff_eq.mpr h

def contains (table : HashTable α hash) (eq : α → α → Bool) (set : List α) (x : α) : Bool :=
  set.any fun y => table.compares set x y && eq x y

/-- Whether the element is new, and the set with it. -/
def insert (table : HashTable α hash) (eq : α → α → Bool) (set : List α) (x : α) : Bool × List α :=
  if table.contains eq set x then (false, set) else (true, x :: set)

/-- Inserting one after another as long as they are new. -/
def allInserted (table : HashTable α hash) (eq : α → α → Bool) (set : List α) : List α → Bool
  | [] => true
  | x :: l =>
    match table.insert eq set x with
    | (true, set) => allInserted table eq set l
    | (false, _) => false

/-- Where equal elements have the same hash, an equal element is always found. -/
theorem contains_eq (table : HashTable α hash) (heq : ∀ x y, eq x y = true → hash x = hash y) (set : List α) (x : α) :
    table.contains eq set x = set.any (eq x) := by
  have hsame : ∀ y, (table.compares set x y && eq x y) = eq x y := by
    intro y
    cases hxy : eq x y with
    | false => exact Bool.and_false _
    | true => rw [table.compares_of_hash_eq set x y (heq x y hxy), Bool.and_self]
  unfold contains
  simp only [hsame]

/-- All are inserted when none equals one before it. -/
theorem allInserted_iff (table : HashTable α hash) (heq : ∀ x y, eq x y = true → hash x = hash y) {l : List α} :
    ∀ {set : List α}, table.allInserted eq set l = true ↔
      (∀ x ∈ l, ∀ y ∈ set, eq x y = false) ∧ l.Pairwise fun y x => eq x y = false := by
  induction l with
  | nil => simp [allInserted]
  | cons x l ih =>
    intro set
    rw [allInserted, insert, contains_eq table heq]
    cases hx : set.any (eq x) with
    | true =>
      obtain ⟨y, hy, hxy⟩ := List.any_eq_true.mp hx
      refine iff_of_false Bool.false_ne_true fun h => ?_
      rw [h.1 x (List.mem_cons_self ..) y hy] at hxy
      cases hxy
    | false =>
      have hnew : ∀ y ∈ set, eq x y = false := by simpa using hx
      rw [if_neg Bool.false_ne_true]
      dsimp only
      rw [ih, List.pairwise_cons, List.forall_mem_cons, and_iff_right hnew]
      simp only [List.forall_mem_cons, forall_and, and_assoc]
      exact and_left_comm

end HashTable
end Rust
