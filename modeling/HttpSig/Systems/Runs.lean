import Mathlib.Data.List.Basic
import Mathlib.Data.List.Induction

/-! Transition systems with labelled steps: what every step keeps every run keeps, and a system that is simulated
step by step is simulated run by run. -/

namespace Systems

/-- A system by its initial states and its steps, each with what can be seen of it. -/
structure System (σ ℓ : Type*) where
  init : σ → Prop
  step : σ → ℓ → σ → Prop

variable {σ τ ℓ ℓ' : Type*}

namespace System

/-- Steps one after the other, with what is seen of them. -/
inductive Run (S : System σ ℓ) : σ → List ℓ → σ → Prop where
  | nil {s : σ} : Run S s [] s
  | cons {s t u : σ} {a : ℓ} {as : List ℓ} (h : S.step s a t) (tail : Run S t as u) : Run S s (a :: as) u

variable {S : System σ ℓ} {s t u : σ} {a : ℓ} {as as' : List ℓ}

theorem Run.single (h : S.step s a t) : S.Run s [a] t := .cons h .nil

theorem Run.append (h : S.Run s as t) (h' : S.Run t as' u) : S.Run s (as ++ as') u := by
  induction h with
  | nil => exact h'
  | cons hstep _ ih => exact .cons hstep (ih h')

theorem run_append : S.Run s (as ++ as') u ↔ ∃ t, S.Run s as t ∧ S.Run t as' u := by
  constructor
  · intro h
    induction as generalizing s with
    | nil => exact ⟨s, .nil, h⟩
    | cons a as ih =>
      cases h with
      | cons hstep tail =>
        obtain ⟨t, h₁, h₂⟩ := ih tail
        exact ⟨t, .cons hstep h₁, h₂⟩
  · rintro ⟨t, h, h'⟩
    exact h.append h'

theorem run_cons : S.Run s (a :: as) u ↔ ∃ t, S.step s a t ∧ S.Run t as u := by
  constructor
  · intro h
    cases h with
    | cons hstep tail => exact ⟨_, hstep, tail⟩
  · rintro ⟨t, h, h'⟩
    exact .cons h h'

/-- Induction on a run from its start: each step is taken behind a run. -/
theorem Run.induction {P : List ℓ → σ → Prop} (hnil : P [] s)
    (hstep : ∀ as t a u, S.Run s as t → P as t → S.step t a u → P (as ++ [a]) u) (h : S.Run s as u) : P as u := by
  induction as using List.reverseRecOn generalizing u with
  | nil =>
    cases h
    exact hnil
  | append_singleton as a ih =>
    obtain ⟨t, h, hlast⟩ := run_append.mp h
    cases hlast with
    | cons hst hend =>
      cases hend
      exact hstep as t a _ h (ih h) hst

/-- What every step keeps, every run keeps. -/
theorem Run.invariant {P : σ → Prop} (hstep : ∀ s a t, P s → S.step s a t → P t) (h : S.Run s as t) (hs : P s) : P t := by
  induction h with
  | nil => exact hs
  | cons hst _ ih => exact ih (hstep _ _ _ hs hst)

/-- What is recorded at the end of a run was there at its start or was recorded at one of its steps. -/
theorem Run.recorded {α : Type*} {rec : σ → List α} {out : ℓ → List α}
    (hstep : ∀ s a t, S.step s a t → ∀ x ∈ rec t, x ∈ rec s ∨ x ∈ out a) (h : S.Run s as t) :
    ∀ x ∈ rec t, x ∈ rec s ∨ ∃ a ∈ as, x ∈ out a := by
  induction h with
  | nil => exact fun x hx => Or.inl hx
  | @cons s t u a as hst _ ih =>
    intro x hx
    rcases ih x hx with hx | ⟨b, hb, hx⟩
    · exact (hstep _ _ _ hst x hx).imp_right fun hx => ⟨a, List.mem_cons_self .., hx⟩
    · exact Or.inr ⟨b, List.mem_cons_of_mem _ hb, hx⟩

end System

/-! ### Simulations -/

/-- A system simulates another when it follows each of its steps by steps of its own, maybe by none. -/
structure Simulation (C : System σ ℓ) (A : System τ ℓ') where
  rel : σ → τ → Prop
  /-- What is seen of a step on the other side. -/
  shown : ℓ → List ℓ'
  init : ∀ s, C.init s → ∃ t, A.init t ∧ rel s t
  step : ∀ s t a s', rel s t → C.step s a s' → ∃ t', A.Run t (shown a) t' ∧ rel s' t'

namespace Simulation
variable {C : System σ ℓ} {A : System τ ℓ'} (R : Simulation C A) {s s' : σ} {t : τ} {as : List ℓ}

theorem run (h : C.Run s as s') (hr : R.rel s t) : ∃ t', A.Run t (as.flatMap R.shown) t' ∧ R.rel s' t' := by
  induction h generalizing t with
  | nil => exact ⟨t, .nil, hr⟩
  | @cons s u s' a as hst _ ih =>
    obtain ⟨t', h₁, hr⟩ := R.step _ _ _ _ hr hst
    obtain ⟨t'', h₂, hr⟩ := ih hr
    exact ⟨t'', h₁.append h₂, hr⟩

/-- What a run shows from an initial state, a run of the simulating system shows from one of its own. -/
theorem exists_run (h : C.Run s as s') (hs : C.init s) :
    ∃ t t', A.init t ∧ A.Run t (as.flatMap R.shown) t' ∧ R.rel s' t' := by
  obtain ⟨t, ht, hr⟩ := R.init s hs
  obtain ⟨t', h, hr'⟩ := R.run h hr
  exact ⟨t, t', ht, h, hr'⟩

end Simulation
end Systems
