import Mathlib.Algebra.Group.Nat.Defs
import Mathlib.Algebra.GroupWithZero.Nat
import Mathlib.Data.List.Basic
import Mathlib.Data.List.DropRight

/-! Strings as lists of characters, with the operations of Rust's `str` that the program uses. -/

namespace Rust

abbrev Text := List Char

/-- `char::is_whitespace`: the Unicode property White_Space. -/
def isWhitespace (c : Char) : Bool :=
  let n := c.toNat
  (0x09 ≤ n && n ≤ 0x0d) || n == 0x20 || n == 0x85 || n == 0xa0 || n == 0x1680 ||
    (0x2000 ≤ n && n ≤ 0x200a) || n == 0x2028 || n == 0x2029 || n == 0x202f || n == 0x205f || n == 0x3000

/-- `str::trim`. -/
def trim (s : Text) : Text := (s.dropWhile isWhitespace).rdropWhile isWhitespace

/-- `str::starts_with` for one character. -/
def startsWith (s : Text) (c : Char) : Bool := s.head? == some c

/-- `str::ends_with` for one character. -/
def endsWith (s : Text) (c : Char) : Bool := s.getLast? == some c

/-- `str::split_once` at the first `d`. -/
def splitOnce (d : Char) : Text → Option (Text × Text)
  | [] => none
  | c :: s => if c = d then some ([], s) else (splitOnce d s).map fun (a, b) => (c :: a, b)

/-- `[&str]::join`. -/
def join (sep : Text) (l : List Text) : Text := sep.intercalate l

/-- `str::to_ascii_lowercase`. -/
def toAsciiLowercase (s : Text) : Text := s.map Char.toLower

/-- `str::to_ascii_uppercase`. -/
def toAsciiUppercase (s : Text) : Text := s.map Char.toUpper

/-- The decimal digits of a number, as `Display` of an unsigned integer prints them. -/
def natText (n : Nat) : Text := Nat.toDigits 10 n

/-- `str::as_bytes`: the UTF-8 bytes. -/
def utf8Bytes (s : Text) : List UInt8 := s.flatMap String.utf8EncodeChar

/-- `String::from_utf8`. -/
def fromUtf8 (bs : List UInt8) : Option Text := bs.toByteArray.utf8Decode?.map Array.toList

/-! ### Joining -/

@[simp] theorem join_nil (sep : Text) : join sep [] = [] := rfl
@[simp] theorem join_singleton (sep s : Text) : join sep [s] = s := by simp [join]
@[simp] theorem join_cons_cons (sep s t : Text) (l : List Text) :
    join sep (s :: t :: l) = s ++ sep ++ join sep (t :: l) := by simp [join]

theorem join_cons (sep s : Text) (l : List Text) : join sep (s :: l) = s ++ l.flatMap (sep ++ ·) := by
  induction l generalizing s with
  | nil => simp
  | cons t l ih => rw [join_cons_cons, ih, List.flatMap_cons, List.append_assoc, List.append_assoc]

/-- What stands before and after one of the joined texts does not depend on it. -/
theorem join_append_cons (sep s : Text) (l l' : List Text) :
    join sep (l ++ s :: l') = l.flatMap (· ++ sep) ++ (s ++ l'.flatMap (sep ++ ·)) := by
  induction l with
  | nil => exact join_cons sep s l'
  | cons t l ih =>
    have hcons : join sep (t :: (l ++ s :: l')) = t ++ sep ++ join sep (l ++ s :: l') := by
      cases l <;> exact join_cons_cons sep t _ _
    rw [List.cons_append, hcons, ih, List.flatMap_cons, List.append_assoc (t ++ sep)]

theorem join_append {sep : Text} {l l' : List Text} (hl : l ≠ []) (hl' : l' ≠ []) :
    join sep (l ++ l') = join sep l ++ sep ++ join sep l' := by
  obtain ⟨s, l, rfl⟩ := List.exists_cons_of_ne_nil hl
  obtain ⟨t, l', rfl⟩ := List.exists_cons_of_ne_nil hl'
  rw [List.cons_append, join_cons, join_cons, join_cons, List.flatMap_append, List.flatMap_cons]
  simp only [List.append_assoc]

theorem join_append_singleton {sep s : Text} {l : List Text} (h : l ≠ []) :
    join sep (l ++ [s]) = join sep l ++ sep ++ s := by
  rw [join_append h (List.cons_ne_nil _ _), join_singleton]

theorem length_join {sep : Text} {l : List Text} (hl : l ≠ []) :
    (join sep l).length + sep.length = (l.map fun s => s.length + sep.length).sum := by
  obtain ⟨s, l, rfl⟩ := List.exists_cons_of_ne_nil hl
  induction l generalizing s with
  | nil => simp
  | cons t l ih =>
    rw [join_cons_cons, List.map_cons, List.sum_cons, ← ih t (List.cons_ne_nil _ _), List.length_append, List.length_append]
    omega

theorem forall_mem_join {p : Char → Prop} {sep : Text} (hsep : ∀ c ∈ sep, p c) :
    ∀ {l : List Text}, (∀ s ∈ l, ∀ c ∈ s, p c) → ∀ c ∈ join sep l, p c
  | [], _, c, hc => by simp at hc
  | [s], h, c, hc => h s (by simp) c (by simpa using hc)
  | s :: t :: l, h, c, hc => by
    rw [join_cons_cons, List.append_assoc, List.mem_append, List.mem_append] at hc
    rcases hc with hc | hc | hc
    · exact h s (by simp) c hc
    · exact hsep c hc
    · exact forall_mem_join hsep (fun u hu => h u (List.mem_cons_of_mem _ hu)) c hc

theorem mem_of_mem_splitOn {d c : Char} : ∀ {s t : Text}, t ∈ s.splitOn d → c ∈ t → c ∈ s
  | [], t, h, hc => by
    rw [List.splitOn_nil, List.mem_singleton] at h
    rwa [h] at hc
  | a :: s, t, h, hc => by
    rw [List.splitOn, List.splitOnP_cons_eq_if_modifyHead] at h
    split at h
    · rcases List.mem_cons.mp h with rfl | h
      · cases hc
      · exact List.mem_cons_of_mem _ (mem_of_mem_splitOn h hc)
    · obtain ⟨u, us, hus⟩ := List.exists_cons_of_ne_nil (List.splitOnP_ne_nil (· == d) s)
      rw [hus, List.modifyHead_cons] at h
      have hu : ∀ v ∈ u :: us, v ∈ s.splitOn d := fun v hv => by rwa [List.splitOn, hus]
      rcases List.mem_cons.mp h with rfl | h
      · rcases List.mem_cons.mp hc with rfl | hc
        · exact List.mem_cons_self ..
        · exact List.mem_cons_of_mem _ (mem_of_mem_splitOn (hu u (List.mem_cons_self ..)) hc)
      · exact List.mem_cons_of_mem _ (mem_of_mem_splitOn (hu t (List.mem_cons_of_mem _ h)) hc)

/-! ### Letters -/

theorem isUpper_iff {c : Char} : c.isUpper = true ↔ 65 ≤ c.toNat ∧ c.toNat ≤ 90 := decide_eq_true_iff

theorem isLower_iff {c : Char} : c.isLower = true ↔ 97 ≤ c.toNat ∧ c.toNat ≤ 122 := by
  show (decide _ && decide _) = true ↔ _
  rw [Bool.and_eq_true, decide_eq_true_iff, decide_eq_true_iff]
  exact Iff.rfl

theorem isAlpha_iff {c : Char} :
    c.isAlpha = true ↔ (65 ≤ c.toNat ∧ c.toNat ≤ 90) ∨ (97 ≤ c.toNat ∧ c.toNat ≤ 122) := by
  rw [← isUpper_iff, ← isLower_iff, ← Bool.or_eq_true]
  exact Iff.rfl

/-! ### Line feeds -/

theorem eq_newline_of_toUpper {c : Char} (h : c.toUpper = '\n') : c = '\n' := by
  unfold Char.toUpper at h
  split at h
  · rename_i hc
    have hv := congrArg UInt32.toNat (congrArg Char.val h)
    rw [UInt32.toNat_add] at hv
    have h₁ : 97 ≤ c.val.toNat := UInt32.le_iff_toNat_le.mp hc.1
    have h₂ : c.val.toNat ≤ 122 := UInt32.le_iff_toNat_le.mp hc.2
    replace hv : (c.val.toNat + 4294967264) % 4294967296 = 10 := hv
    omega
  · exact h

theorem eq_newline_of_toLower {c : Char} (h : c.toLower = '\n') : c = '\n' := by
  unfold Char.toLower at h
  split at h
  · rename_i hc
    have hv := congrArg UInt32.toNat (congrArg Char.val h)
    rw [UInt32.toNat_add] at hv
    have h₁ : 65 ≤ c.val.toNat := UInt32.le_iff_toNat_le.mp hc.1
    have h₂ : c.val.toNat ≤ 90 := UInt32.le_iff_toNat_le.mp hc.2
    replace hv : (c.val.toNat + 32) % 4294967296 = 10 := hv
    omega
  · exact h

theorem newline_notMem_toAsciiUppercase {s : Text} (h : '\n' ∉ s) : '\n' ∉ toAsciiUppercase s := by
  intro hm
  obtain ⟨c, hc, hu⟩ := List.mem_map.mp hm
  exact h (eq_newline_of_toUpper hu ▸ hc)

theorem newline_notMem_toAsciiLowercase {s : Text} (h : '\n' ∉ s) : '\n' ∉ toAsciiLowercase s := by
  intro hm
  obtain ⟨c, hc, hu⟩ := List.mem_map.mp hm
  exact h (eq_newline_of_toLower hu ▸ hc)

theorem newline_notMem_join {sep : Text} {l : List Text} (hsep : '\n' ∉ sep) (h : ∀ s ∈ l, '\n' ∉ s) :
    '\n' ∉ join sep l := by
  intro hm
  refine forall_mem_join (p := (· ≠ '\n')) (fun c hc he => hsep (he ▸ hc)) ?_ '\n' hm rfl
  exact fun s hs c hc he => h s hs (he ▸ hc)

/-! ### Trimming -/

/-- A text with no white space at its ends. -/
def NoEdge (s : Text) : Prop :=
  (∀ c ∈ s.head?, isWhitespace c = false) ∧ (∀ c ∈ s.getLast?, isWhitespace c = false)

theorem trim_of_noEdge {s : Text} (h : NoEdge s) : trim s = s := by
  unfold trim
  have hl : s.dropWhile isWhitespace = s := by
    cases s with
    | nil => rfl
    | cons c s => rw [List.dropWhile_cons_of_neg]; simp [h.1 c (by simp)]
  rw [hl, List.rdropWhile_eq_self_iff]
  intro hs hw
  have := h.2 (s.getLast hs) (by simp [List.getLast?_eq_some_getLast hs])
  simp [this] at hw

theorem NoEdge.append {s t : Text} (hs : NoEdge s) (ht : NoEdge t) : NoEdge (s ++ t) := by
  constructor
  · intro c hc
    cases s with
    | nil => exact ht.1 c hc
    | cons a s => exact hs.1 c hc
  · intro c hc
    rw [List.getLast?_append, Option.mem_def, Option.or_eq_some_iff] at hc
    rcases hc with hc | ⟨-, hc⟩
    · exact ht.2 c hc
    · exact hs.2 c hc

theorem trim_sublist (s : Text) : (trim s).Sublist s :=
  (List.rdropWhile_prefix _ _).sublist.trans (List.dropWhile_sublist _)

theorem count_dropWhile {p : Char → Bool} {d : Char} (hd : p d = false) (s : Text) :
    (s.dropWhile p).count d = s.count d := by
  have hnone : (s.takeWhile p).count d = 0 := by
    rw [List.count_eq_zero]
    intro hm
    rw [List.mem_takeWhile_imp hm] at hd
    cases hd
  have hsplit : s.count d = (s.takeWhile p).count d + (s.dropWhile p).count d := by
    rw [← List.count_append, List.takeWhile_append_dropWhile]
  omega

theorem count_rdropWhile {p : Char → Bool} {d : Char} (hd : p d = false) (s : Text) :
    (s.rdropWhile p).count d = s.count d := by
  rw [List.rdropWhile, List.count_reverse, count_dropWhile hd, List.count_reverse]

/-- Trimming takes nothing but white space. -/
theorem count_trim {d : Char} (hd : isWhitespace d = false) (s : Text) : (trim s).count d = s.count d := by
  rw [trim, count_rdropWhile hd, count_dropWhile hd]

theorem trim_cons {c : Char} (hc : isWhitespace c = true) (s : Text) : trim (c :: s) = trim s := by
  rw [trim, List.dropWhile_cons_of_pos hc]
  rfl

/-! ### Splitting at a character -/

theorem splitOnce_append {d : Char} {t : Text} : ∀ {s : Text}, d ∉ s → splitOnce d (s ++ d :: t) = some (s, t)
  | [], _ => by simp [splitOnce]
  | c :: s, h => by
    rw [List.mem_cons, not_or] at h
    rw [List.cons_append, splitOnce, if_neg (Ne.symm h.1), splitOnce_append h.2]
    rfl

theorem splitOnce_eq_none {d : Char} : ∀ {s : Text}, splitOnce d s = none ↔ d ∉ s
  | [] => by simp [splitOnce]
  | c :: s => by
    rw [splitOnce, List.mem_cons, not_or, ← splitOnce_eq_none]
    by_cases h : c = d
    · simp [h]
    · simp [h, Ne.symm h]

theorem splitOnce_eq_some {d : Char} : ∀ {s a b : Text}, splitOnce d s = some (a, b) → s = a ++ d :: b ∧ d ∉ a
  | [], _, _, h => by simp [splitOnce] at h
  | c :: s, a, b, h => by
    unfold splitOnce at h
    split at h
    · rename_i hc
      cases h
      simp [hc]
    · rename_i hc
      obtain ⟨⟨a', b'⟩, h', heq⟩ := Option.map_eq_some_iff.mp h
      cases heq
      obtain ⟨rfl, hd⟩ := splitOnce_eq_some h'
      exact ⟨rfl, by simp [hd, Ne.symm hc]⟩

/-- Two texts that agree up to and after a character that neither first part holds are the same texts. -/
theorem append_cons_inj {d : Char} {a b s t : Text} (ha : d ∉ a) (hb : d ∉ b) (h : a ++ d :: s = b ++ d :: t) :
    a = b ∧ s = t := by
  have := congrArg (splitOnce d) h
  rw [splitOnce_append ha, splitOnce_append hb] at this
  simpa using this

/-! ### Taking a run of characters -/

theorem takeWhile_append_stop {p : Char → Bool} {t : Text} (ht : ∀ c ∈ t.head?, p c = false) :
    ∀ s : Text, (s ++ t).takeWhile p = s.takeWhile p
  | [] => by
    cases t with
    | nil => rfl
    | cons c t => simp [ht c (by simp)]
  | c :: s => by
    cases h : p c
    · simp [h]
    · simp [h, takeWhile_append_stop ht s]

theorem dropWhile_append_stop {p : Char → Bool} {t : Text} (ht : ∀ c ∈ t.head?, p c = false) :
    ∀ s : Text, (s ++ t).dropWhile p = s.dropWhile p ++ t
  | [] => by
    cases t with
    | nil => rfl
    | cons c t => simp [ht c (by simp)]
  | c :: s => by
    cases h : p c
    · simp [h]
    · simp [h, dropWhile_append_stop ht s]

theorem takeWhile_append_of_all {p : Char → Bool} {s t : Text} (hs : ∀ c ∈ s, p c = true)
    (ht : ∀ c ∈ t.head?, p c = false) : (s ++ t).takeWhile p = s := by
  rw [takeWhile_append_stop ht, List.takeWhile_eq_self_iff]
  exact hs

theorem dropWhile_append_of_all {p : Char → Bool} {s t : Text} (hs : ∀ c ∈ s, p c = true)
    (ht : ∀ c ∈ t.head?, p c = false) : (s ++ t).dropWhile p = t := by
  rw [dropWhile_append_stop ht, List.dropWhile_eq_nil_iff.mpr hs, List.nil_append]

/-! ### Numbers -/

theorem natText_ne_nil (n : Nat) : natText n ≠ [] := Nat.toDigits_ne_nil

theorem isDigit_of_mem_natText {n : Nat} {c : Char} (h : c ∈ natText n) : c.isDigit :=
  Nat.isDigit_of_mem_toDigits (by decide) (by decide) h

theorem natText_inj {m n : Nat} (h : natText m = natText n) : m = n := by
  have := congrArg (Nat.ofDigitChars 10 · 0) h
  simpa [natText, Nat.ofDigitChars_ten_toDigits] using this

theorem natText_length_le {n k : Nat} (hk : 0 < k) : (natText n).length ≤ k ↔ n < 10 ^ k :=
  Nat.length_toDigits_le_iff (by decide) hk

/-! ### UTF-8 -/

theorem toNat_ofNat_of_lt {n : Nat} (h : n < 0xd800) : (Char.ofNat n).toNat = n := by
  have hv : n.isValidChar := Or.inl (by omega)
  rw [Char.ofNat, dif_pos hv]
  exact UInt32.toNat_ofNatLT

theorem utf8EncodeChar_of_lt {c : Char} (h : c.toNat < 128) : String.utf8EncodeChar c = [UInt8.ofNat c.toNat] := by
  have hs : c.utf8Size = 1 := Char.utf8Size_eq_one_iff.mpr (UInt32.le_iff_toNat_le.mpr (by exact Nat.le_of_lt_succ h))
  rw [String.utf8EncodeChar_eq_singleton hs]
  rfl

/-- ASCII is encoded character by character. -/
theorem utf8Bytes_of_ascii {s : Text} (h : ∀ c ∈ s, c.toNat < 128) : utf8Bytes s = s.map fun c => UInt8.ofNat c.toNat := by
  induction s with
  | nil => rfl
  | cons c s ih =>
    show String.utf8EncodeChar c ++ utf8Bytes s = _
    rw [utf8EncodeChar_of_lt (h c (by simp)), ih fun d hd => h d (List.mem_cons_of_mem _ hd)]
    rfl

theorem fromUtf8_utf8Bytes (s : Text) : fromUtf8 (utf8Bytes s) = some s := by
  have h : (utf8Bytes s).toByteArray = s.utf8Encode := rfl
  rw [fromUtf8, h, List.utf8Decode?_utf8Encode]
  rfl

theorem utf8Bytes_injective {s t : Text} (h : utf8Bytes s = utf8Bytes t) : s = t := by
  have := congrArg fromUtf8 h
  simpa [fromUtf8_utf8Bytes] using this

end Rust
