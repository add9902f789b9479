import EchoBenchmark.Lib.Machine
import Mathlib.Data.Option.Basic

/-!
Two machines side by side: the second takes the actions of the first in related states, or each
takes those of the other, or the second takes the steps of the first or does not see them.
-/

namespace Machine

variable {σ τ α β : Type*} {M : Machine σ α} {N : Machine τ α} {p : σ → α → Prop}
  {r : τ → α → Prop} {R : σ → τ → Prop} {s t : σ} {u : τ}

/-- What the first machine does, the second does too in a related state. -/
structure Simulation (M : Machine σ α) (p : σ → α → Prop) (N : Machine τ α) (r : τ → α → Prop)
    (R : σ → τ → Prop) : Prop where
  step : ∀ {s u a t}, R s u → p s a → M.step s a = some t →
    r u a ∧ ∃ v, N.step u a = some v ∧ R t v

namespace Simulation

theorem reachable (h : Simulation M p N r R) (hinit : ∀ s, M.init s → ∃ u, N.init u ∧ R s u)
    (hr : M.Reachable p s) : ∃ u, N.Reachable r u ∧ R s u := by
  apply hr.invariant (I := fun s => ∃ u, N.Reachable r u ∧ R s u)
  · intro s hs
    obtain ⟨u, hu, hR⟩ := hinit s hs
    exact ⟨u, .start hu, hR⟩
  · intro s a t _ ih hp hs
    obtain ⟨u, hu, hR⟩ := ih
    obtain ⟨hq, v, hv, hR'⟩ := h.step hR hp hs
    exact ⟨v, hu.step hq hv, hR'⟩

end Simulation

/-- Related states admit the same actions, and these lead to related states. -/
structure Bisimulation (M : Machine σ α) (p : σ → α → Prop) (N : Machine τ α)
    (r : τ → α → Prop) (R : σ → τ → Prop) : Prop where
  guards : ∀ s u a, R s u → (p s a ↔ r u a)
  steps : ∀ s u a, R s u → p s a → Option.Rel R (M.step s a) (N.step u a)

namespace Bisimulation

theorem simulation (h : Bisimulation M p N r R) : Simulation M p N r R where
  step {s u a t} hR hp hs := by
    have hrel := h.steps s u a hR hp
    rw [hs] at hrel
    generalize N.step u a = o at hrel
    cases hrel with
    | some hR' => exact ⟨(h.guards s u a hR).mp hp, _, rfl, hR'⟩

/-- The same lists of actions are runs of both, and end in related states. -/
theorem exec [∀ s a, Decidable (p s a)] [∀ u a, Decidable (r u a)]
    (h : Bisimulation M p N r R) (hR : R s u) (as : List α) :
    Option.Rel R (M.exec p s as) (N.exec r u as) := by
  induction as generalizing s u with
  | nil => exact .some hR
  | cons a as ih =>
    simp only [Machine.exec]
    by_cases hp : p s a
    · rw [if_pos hp, if_pos ((h.guards s u a hR).mp hp)]
      have hrel := h.steps s u a hR hp
      generalize M.step s a = o at hrel
      generalize N.step u a = o' at hrel
      cases hrel with
      | some hR' => exact ih hR'
      | none => exact .none
    · rw [if_neg hp, if_neg fun hr => hp ((h.guards s u a hR).mpr hr)]
      exact .none

/-- What related states show alike, the runs show alike. -/
theorem map_exec [∀ s a, Decidable (p s a)] [∀ u a, Decidable (r u a)] {f : σ → β} {g : τ → β}
    (h : Bisimulation M p N r R) (hfg : ∀ s u, R s u → f s = g u) (hR : R s u) (as : List α) :
    (M.exec p s as).map f = (N.exec r u as).map g := by
  have hrel := h.exec hR as
  generalize M.exec p s as = o at hrel
  generalize N.exec r u as = o' at hrel
  cases hrel with
  | some hR' => exact congrArg some (hfg _ _ hR')
  | none => rfl

end Bisimulation

/-- Each step of the first machine is, seen through `f`, one of the second, or nothing at all. -/
structure Abstraction {β : Type*} (M : Machine σ α) (p : σ → α → Prop) (N : Machine τ β)
    (r : τ → β → Prop) (f : σ → τ) : Prop where
  starts : ∀ s, M.init s → N.init (f s)
  steps : ∀ s a t, M.Reachable p s → p s a → M.step s a = some t →
    f t = f s ∨ ∃ b, r (f s) b ∧ N.step (f s) b = some (f t)

namespace Abstraction

variable {N : Machine τ β} {r : τ → β → Prop} {f : σ → τ}

theorem reachable (h : Abstraction M p N r f) (hr : M.Reachable p s) : N.Reachable r (f s) := by
  apply hr.invariant (I := fun s => N.Reachable r (f s))
  · intro s hs
    exact .start (h.starts s hs)
  · intro s a t hr ih hp hs
    rcases h.steps s a t hr hp hs with heq | ⟨b, hb, hstep⟩
    · rw [heq]
      exact ih
    · exact ih.step hb hstep

/-- A continuation of a reachable state is one of the second machine. -/
theorem steps_of_steps (h : Abstraction M p N r f) (hr : M.Reachable p s) (hst : M.Steps p s t) :
    N.Steps r (f s) (f t) := by
  apply hr.steps_invariant (I := fun t => N.Steps r (f s) (f t)) ?_ hst .refl
  intro u a v hr ih hp hs
  rcases h.steps u a v hr hp hs with heq | ⟨b, hb, hstep⟩
  · rw [heq]
    exact ih
  · exact ih.tail hb hstep

end Abstraction

end Machine
