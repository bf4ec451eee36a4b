import HttpSig.Theorems.Verification

/-! The window in which parameters are valid. An expiry set by a duration is a sum of two `u64`s, and nothing keeps
the sum below `2 ^ 64`. -/

namespace HttpSig
namespace HttpSignatureParams
variable {overflowChecks : Bool} {p q : HttpSignatureParams} {created : UInt64} {duration : Option UInt64}

theorem isExpired_eq_true {t : UInt64} : p.isExpired t = true ↔ ∃ e ∈ p.expires, e.toNat < t.toNat := by
  rw [← Bool.not_eq_false, isExpired_eq_false]
  simp [UInt64.lt_iff_toNat_lt]

/-! ### Setting an expiry -/

/-- The second after which parameters of a creation time and a duration are to be expired, as a natural number. -/
def lastValid (created : UInt64) (duration : Option UInt64) : Nat := created.toNat + (duration.getD defaultDuration).toNat

/-- The expiry is set and it is that second. -/
def ExactWindow (overflowChecks : Bool) (p : HttpSignatureParams) (created : UInt64) (duration : Option UInt64) : Prop :=
  ∃ q, p.setExpiresWithDuration overflowChecks duration = .ok q ∧
    ∀ t : UInt64, q.isExpired t = true ↔ lastValid created duration < t.toNat

/-- An expiry that is set is the sum as the machine has it; it is not set when the overflow is noticed. -/
theorem setExpiresWithDuration_eq_ok (h : p.created = some created) :
    p.setExpiresWithDuration overflowChecks duration = .ok q ↔
      (overflowChecks = true → lastValid created duration < 2 ^ 64) ∧
        q = { p with expires := some (created + duration.getD defaultDuration) } := by
  rw [setExpiresWithDuration, h]
  dsimp only
  split
  · rename_i hover
    rw [Bool.and_eq_true, decide_eq_true_eq] at hover
    have hlate : ¬ lastValid created duration < 2 ^ 64 := Nat.not_lt.mpr hover.2
    exact iff_of_false (Rust.Outcome.ok_ne_panic q).symm fun hq => hlate (hq.1 hover.1)
  · rename_i hfit
    have hfit : overflowChecks = true → lastValid created duration < 2 ^ 64 := by simpa [lastValid] using hfit
    rw [and_iff_right hfit, Rust.Outcome.ok.injEq, eq_comm]

theorem setExpiresWithDuration_eq_panic (h : p.created = some created) :
    p.setExpiresWithDuration overflowChecks duration = .panic ↔
      overflowChecks = true ∧ 2 ^ 64 ≤ lastValid created duration := by
  rw [setExpiresWithDuration, h]
  dsimp only
  split
  · rename_i hover
    simpa [lastValid] using hover
  · rename_i hfit
    simpa [lastValid] using hfit

theorem toNat_expires (created : UInt64) (duration : Option UInt64) :
    (created + duration.getD defaultDuration).toNat = lastValid created duration % 2 ^ 64 := UInt64.toNat_add ..

/-- A sum that wraps is an expiry before the creation. -/
theorem isExpired_of_wrapped (h : p.created = some created) (hover : 2 ^ 64 ≤ lastValid created duration)
    (hq : p.setExpiresWithDuration overflowChecks duration = .ok q) : q.isExpired created = true := by
  obtain ⟨-, rfl⟩ := (setExpiresWithDuration_eq_ok h).mp hq
  refine isExpired_eq_true.mpr ⟨_, rfl, ?_⟩
  have hc := created.toNat_lt
  have hd := (duration.getD defaultDuration).toNat_lt
  rw [toNat_expires]
  unfold lastValid at hover ⊢
  omega

/-- The window is exact when its end is a time at all. Past that a checked addition panics, and an unchecked one
leaves parameters that are expired when they are created. -/
theorem exactWindow_iff (overflowChecks : Bool) (duration : Option UInt64) (h : p.created = some created) :
    ExactWindow overflowChecks p created duration ↔ lastValid created duration < 2 ^ 64 := by
  constructor
  · rintro ⟨q, hq, hexact⟩
    by_contra hover
    have hlate := (hexact created).mp (isExpired_of_wrapped h (Nat.le_of_not_lt hover) hq)
    exact absurd hlate (Nat.not_lt.mpr (Nat.le_add_right ..))
  · intro hfit
    refine ⟨_, (setExpiresWithDuration_eq_ok h).mpr ⟨fun _ => hfit, rfl⟩, fun t => ?_⟩
    have hend : (created + duration.getD defaultDuration).toNat = lastValid created duration := by
      rw [toNat_expires, Nat.mod_eq_of_lt hfit]
    rw [isExpired_eq_true, ← hend]
    simp only [Option.mem_def, Option.some.injEq, exists_eq_left']

/-! ### Practically no expiry -/

/-- Parameters that cover nothing, of a creation time. -/
def createdAt (created : UInt64) : HttpSignatureParams := { ofComponents [] with created := some created }

theorem exactWindow_default : (createdAt 1000).created = some 1000 ∧ ExactWindow true (createdAt 1000) 1000 none :=
  ⟨rfl, (exactWindow_iff true none rfl).mpr (by decide)⟩

/-- The longest duration panics, or makes parameters that are expired when they are created. -/
theorem longest_duration : (createdAt 1).created = some 1 ∧
    (createdAt 1).setExpiresWithDuration true (some 18446744073709551615) = .panic ∧
    (∃ q, (createdAt 1).setExpiresWithDuration false (some 18446744073709551615) = .ok q ∧ q.isExpired 1 = true) ∧
    ∀ overflowChecks, ¬ ExactWindow overflowChecks (createdAt 1) 1 (some 18446744073709551615) := by
  have hover : 2 ^ 64 ≤ lastValid 1 (some 18446744073709551615) := by decide
  have hwrap : (createdAt 1).setExpiresWithDuration false (some 18446744073709551615) =
      .ok { createdAt 1 with expires := some 0 } := rfl
  refine ⟨rfl, (setExpiresWithDuration_eq_panic rfl).mpr ⟨rfl, hover⟩,
    ⟨_, hwrap, isExpired_of_wrapped rfl hover hwrap⟩, ?_⟩
  rintro overflowChecks ⟨q, hq, hexact⟩
  have hlate := (hexact 1).mp (isExpired_of_wrapped rfl hover hq)
  exact absurd hlate (Nat.not_lt.mpr (Nat.le_add_right ..))

end HttpSignatureParams
end HttpSig
