import HttpSig.Hashing
import HttpSig.Theorems.Duplicates

/-! The duplicate check over a hash set. Equal ids feed a hasher alike, whatever the order of their parameters, so the
set finds every duplicate, whichever hasher it has and whichever other elements it compares. -/

namespace HttpSig
open Rust

namespace HttpMessageComponentId

/-- Equality of ids: the same name, and the same parameters in any order. -/
theorem beq_iff_mem {a b : HttpMessageComponentId} :
    a.beq b = true ↔ a.name = b.name ∧ ∀ p, p ∈ a.params.items ↔ p ∈ b.params.items := by
  rw [beq_iff, List.perm_ext_iff_of_nodup a.params.nodup b.params.nodup]

/-- Equal ids make the same calls on a hasher. -/
theorem hash_eq_of_beq {a b : HttpMessageComponentId} (h : a.beq b = true) : a.hash = b.hash := by
  obtain ⟨hname, hps⟩ := beq_iff.mp h
  rw [hash, hash, hname, HttpMessageComponentParams.hash, HttpMessageComponentParams.hash,
    sortTexts_eq_of_perm (hps.map HttpMessageComponentParam.toText)]

end HttpMessageComponentId

section
variable {hasher : Hasher} (uniq : IdTable hasher) {ids : List HttpMessageComponentId}

theorem hasUniqueElementsIn_iff : hasUniqueElementsIn uniq ids = true ↔ ids.Pairwise fun a b => a.beq b = false := by
  have hcoherent : ∀ a b : HttpMessageComponentId, a.beq b = true → hasher.hash a.hash = hasher.hash b.hash :=
    fun a b h => congrArg hasher.hash (HttpMessageComponentId.hash_eq_of_beq h)
  rw [hasUniqueElementsIn, HashTable.allInserted_iff uniq hcoherent]
  simp only [List.not_mem_nil, false_implies, implies_true, true_and, HttpMessageComponentId.beq_comm]

/-- The hash set decides as the comparison with all the ids before. -/
theorem hasUniqueElementsIn_eq : hasUniqueElementsIn uniq ids = hasUniqueElements ids := by
  rw [Bool.eq_iff_iff, hasUniqueElementsIn_iff, hasUniqueElements_iff]

theorem pairwise_beq_iff : (ids.Pairwise fun a b => a.beq b = false) ↔
    ∀ (i j : Nat) (hi : i < ids.length) (hj : j < ids.length), i ≠ j → ids[i].beq ids[j] = false := by
  rw [List.pairwise_iff_getElem]
  constructor
  · intro h i j hi hj hne
    rcases Nat.lt_or_gt_of_ne hne with hlt | hgt
    · exact h i j hi hj hlt
    · rw [HttpMessageComponentId.beq_comm]
      exact h j i hj hi hgt
  · exact fun h i j hi hj hlt => h i j hi hj (Nat.ne_of_lt hlt)

end

/-- Equal ids are hashed alike by every hasher, and the check passes exactly when no two positions hold equal ids. -/
theorem duplicate_check_exact :
    (∀ a b : HttpMessageComponentId, a.beq b = true ↔ a.name = b.name ∧ ∀ p, p ∈ a.params.items ↔ p ∈ b.params.items) ∧
    (∀ a b : HttpMessageComponentId, a.beq b = true → a.hash = b.hash) ∧
    ∀ (hasher : Hasher) (uniq : IdTable hasher) (ids : List HttpMessageComponentId), hasUniqueElementsIn uniq ids = true ↔
      ∀ (i j : Nat) (hi : i < ids.length) (hj : j < ids.length), i ≠ j → ids[i].beq ids[j] = false :=
  ⟨fun _ _ => HttpMessageComponentId.beq_iff_mem, fun _ _ => HttpMessageComponentId.hash_eq_of_beq,
    fun _ uniq _ => (hasUniqueElementsIn_iff uniq).trans pairwise_beq_iff⟩

/-! ### One id in two orders -/

def sfKeyId : HttpMessageComponentId := ⟨.httpField "x".toList, .ofList [.sf, .key "a".toList]⟩

def keySfId : HttpMessageComponentId := ⟨.httpField "x".toList, .ofList [.key "a".toList, .sf]⟩

/-- A hasher that adds up how long its strings are. -/
def lengthHasher : Hasher where
  State := UInt64
  init := 0
  call n c :=
    match c with
    | .writeStr s => n + UInt64.ofNat s.length
    | _ => n
  finish n := n

theorem twoOrders_found : sfKeyId ≠ keySfId ∧ sfKeyId.hash = keySfId.hash ∧
    hasUniqueElementsIn (.byHash _ : IdTable lengthHasher) [sfKeyId, keySfId] = false := by
  have heq : sfKeyId.beq keySfId = true := by decide
  refine ⟨by decide, duplicate_check_exact.2.1 _ _ heq, ?_⟩
  rw [← Bool.not_eq_true, duplicate_check_exact.2.2]
  intro h
  have hne := h 0 1 (by decide) (by decide) (by decide)
  exact absurd (heq.symm.trans hne) (by decide)

end HttpSig
