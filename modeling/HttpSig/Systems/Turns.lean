import HttpSig.Systems.Runs
import Mathlib.Data.List.Perm.Basic

/-! Parties that take turns on one state. Each has a list of actions and carries them out in its own order; whose turn it
is, nobody says. -/

namespace Systems

/-- A state, and what each party has still to do. -/
structure Turns (σ π α : Type*) where
  state : σ
  pending : π → List α

namespace Turns
variable {σ π α : Type*}

/-- A party takes the first of its actions. -/
structure Step (act : σ → α → σ → Prop) (s : Turns σ π α) (x : π × α) (s' : Turns σ π α) : Prop where
  first : s.pending x.1 = x.2 :: s'.pending x.1
  others : ∀ b, b ≠ x.1 → s'.pending b = s.pending b
  acts : act s.state x.2 s'.state

def system (act : σ → α → σ → Prop) : System (Turns σ π α) (π × α) where
  init _ := True
  step := Step act

/-- Nothing is left to do. -/
def Done (s : Turns σ π α) : Prop := ∀ a, s.pending a = []

variable {act : σ → α → σ → Prop} {s s' s₁ s₂ : Turns σ π α} {xs xs₁ xs₂ : List (π × α)}

theorem exists_step [DecidableEq π] {a : π} {x : α} {rest : List α} {t : σ} (hpending : s.pending a = x :: rest)
    (hact : act s.state x t) : ∃ s', Step act s (a, x) s' := by
  refine ⟨⟨t, Function.update s.pending a rest⟩, hpending.trans ?_, fun b hb => Function.update_of_ne hb .., hact⟩
  exact congrArg (x :: ·) (Function.update_self a rest s.pending).symm

variable [DecidableEq π]

/-- The actions of one party in a run. -/
def ofParty (a : π) (xs : List (π × α)) : List α := (xs.filter fun x => x.1 = a).map Prod.snd

theorem ofParty_cons {a : π} {x : π × α} :
    ofParty a (x :: xs) = if x.1 = a then x.2 :: ofParty a xs else ofParty a xs := by
  rw [ofParty, List.filter_cons]
  by_cases hx : x.1 = a
  · rw [if_pos (decide_eq_true hx), if_pos hx]
    rfl
  · rw [if_neg (by simpa using hx), if_neg hx]
    rfl

theorem mem_ofParty {a : π} {x : α} : x ∈ ofParty a xs ↔ (a, x) ∈ xs := by
  simp [ofParty]

/-- What a party has done and what it has still to do is what it had to do. -/
theorem pending_of_run (h : (system act).Run s xs s') (a : π) : s.pending a = ofParty a xs ++ s'.pending a := by
  induction h with
  | nil => rfl
  | @cons s t s' x xs hstep _ ih =>
    have hstep : Step act s x t := hstep
    rw [ofParty_cons]
    by_cases hx : x.1 = a
    · subst hx
      rw [if_pos rfl, hstep.first, ih]
      rfl
    · rw [if_neg hx, ← hstep.others a (Ne.symm hx), ih]

theorem mem_pending_of_run (h : (system act).Run s xs s') {x : π × α} (hx : x ∈ xs) : x.2 ∈ s.pending x.1 := by
  rw [pending_of_run h x.1]
  exact List.mem_append_left _ (mem_ofParty.mpr hx)

/-- Lists with the same actions of every party are permutations of each other. -/
theorem perm_of_ofParty (h : ∀ a, ofParty a xs₁ = ofParty a xs₂) : xs₁.Perm xs₂ := by
  classical
  rw [List.perm_iff_count]
  rintro ⟨a, x⟩
  have hcount : ∀ xs : List (π × α), xs.count (a, x) = (ofParty a xs).count x := by
    intro xs
    induction xs with
    | nil => rfl
    | cons y ys ih =>
      obtain ⟨b, z⟩ := y
      rw [ofParty_cons, List.count_cons, ih]
      by_cases hb : b = a
      · simp [hb, List.count_cons]
      · simp [hb]
  rw [hcount, hcount, h a]

/-- Whatever the turns, in the end the same was done. -/
theorem perm_of_done (h₁ : (system act).Run s xs₁ s₁) (h₂ : (system act).Run s xs₂ s₂) (hd₁ : s₁.Done) (hd₂ : s₂.Done) :
    xs₁.Perm xs₂ := by
  refine perm_of_ofParty fun a => ?_
  have hp₁ := pending_of_run h₁ a
  have hp₂ := pending_of_run h₂ a
  rw [hd₁ a, List.append_nil] at hp₁
  rw [hd₂ a, List.append_nil] at hp₂
  exact hp₁.symm.trans hp₂

end Turns
end Systems
