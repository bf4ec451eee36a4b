import HttpSig.Systems.Runs

/-! The authenticated channel: principals say things, and what is heard from a principal it has said before. A thing
that is said may lapse with time. -/

namespace Systems

variable {π μ τ : Type*}

/-- What was said so far, by whom, and the time. -/
structure Channel (π μ τ : Type*) where
  said : List (π × μ)
  now : τ

inductive ChannelEvent (π μ τ : Type*) where
  | say (a : π) (x : μ)
  | hear (a : π) (x : μ)
  | tick (now : τ)

namespace Channel

/-- What an event adds to what was said. -/
def saidAt : ChannelEvent π μ τ → List (π × μ)
  | .say a x => [(a, x)]
  | _ => []

variable [LE τ]

section
variable (valid : μ → τ → Prop)

inductive Step : Channel π μ τ → ChannelEvent π μ τ → Channel π μ τ → Prop where
  | say {c : Channel π μ τ} (a : π) (x : μ) : Step c (.say a x) { c with said := c.said ++ [(a, x)] }
  | hear {c : Channel π μ τ} {a : π} {x : μ} (hsaid : (a, x) ∈ c.said) (hvalid : valid x c.now) : Step c (.hear a x) c
  | tick {c : Channel π μ τ} {now : τ} (h : c.now ≤ now) : Step c (.tick now) { c with now }

/-- Nothing was said at first. -/
def system : System (Channel π μ τ) (ChannelEvent π μ τ) where
  init c := c.said = []
  step := Step valid

theorem said_of_step {valid : μ → τ → Prop} {c c' : Channel π μ τ} {e : ChannelEvent π μ τ} (h : Step valid c e c') :
    c'.said = c.said ++ saidAt e := by
  cases h with
  | say a x => rfl
  | hear _ _ => exact (List.append_nil _).symm
  | tick _ => exact (List.append_nil _).symm

end

variable {valid : μ → τ → Prop} {c c' : Channel π μ τ} {es₁ es₂ : List (ChannelEvent π μ τ)} {a : π} {x : μ}

/-- Whatever is heard was said before, at a time when it had not lapsed. -/
theorem said_of_heard (h : (system valid).Run c (es₁ ++ .hear a x :: es₂) c') (hc : (system valid).init c) :
    .say a x ∈ es₁ ∧ ∃ d, (system valid).Run c es₁ d ∧ valid x d.now := by
  obtain ⟨d, h₁, h₂⟩ := System.run_append.mp h
  obtain ⟨d', hstep, -⟩ := System.run_cons.mp h₂
  cases hstep with
  | hear hsaid hvalid =>
    refine ⟨?_, d, h₁, hvalid⟩
    have hadds : ∀ (c : Channel π μ τ) e c', Step valid c e c' → ∀ x ∈ c'.said, x ∈ c.said ∨ x ∈ saidAt e := by
      intro c e c' hstep x hx
      rw [said_of_step hstep] at hx
      exact List.mem_append.mp hx
    have hinit : c.said = [] := hc
    rcases h₁.recorded hadds _ hsaid with hs | ⟨e, he, hs⟩
    · rw [hinit] at hs
      cases hs
    · cases e with
      | say b y =>
        cases List.mem_singleton.mp hs
        exact he
      | _ => cases hs

end Channel
end Systems
