import HttpSig.Systems.Runs
import Mathlib.Data.List.Nodup
import Mathlib.Data.List.Flatten

/-! The ledger: entries under labels, in the order they were made. Entries are added under new labels, and none is
changed or taken away. -/

namespace Systems

structure Ledger (κ ν : Type*) where
  entries : List (κ × ν)
  nodup : (entries.map Prod.fst).Nodup

namespace Ledger
variable {κ ν : Type*} {L L' : Ledger κ ν} {ess : List (List (κ × ν))}

def labels (L : Ledger κ ν) : List κ := L.entries.map Prod.fst

/-- The entries that are added are what is seen of a step. -/
def system : System (Ledger κ ν) (List (κ × ν)) where
  init L := L.entries = []
  step L es L' := L'.entries = L.entries ++ es

/-- A run adds all that its steps add, in their order. -/
theorem entries_of_run (h : system.Run L ess L') : L'.entries = L.entries ++ ess.flatten := by
  induction h with
  | nil => exact (List.append_nil _).symm
  | @cons L L₁ L₂ es ess hstep _ ih =>
    have hstep : L₁.entries = L.entries ++ es := hstep
    rw [ih, hstep, List.append_assoc, List.flatten_cons]

end Ledger
end Systems
