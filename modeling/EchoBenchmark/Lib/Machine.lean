import Mathlib.Algebra.GroupWithZero.Nat
import Mathlib.Logic.Function.Basic
import Mathlib.Logic.Relation

/-! Transition machines with an executable step function, and runs restricted by a guard. -/

/-- Starting states and an executable step; `none` means that the action is not possible. -/
structure Machine (σ α : Type*) where
  init : σ → Prop
  step : σ → α → Option σ

namespace Machine

variable {σ α τ β : Type*} {M : Machine σ α} {N : Machine τ β} {p q : σ → α → Prop}
  {r : τ → β → Prop} {s t u : σ}

/-- One step whose action the guard admits in the state before it. -/
def Move (M : Machine σ α) (p : σ → α → Prop) (s t : σ) : Prop :=
  ∃ a, p s a ∧ M.step s a = some t

/-- A finite continuation, every step of which meets the guard. -/
def Steps (M : Machine σ α) (p : σ → α → Prop) : σ → σ → Prop :=
  Relation.ReflTransGen (M.Move p)

/-- A state that some guarded run reaches from a starting state. -/
def Reachable (M : Machine σ α) (p : σ → α → Prop) (s : σ) : Prop :=
  ∃ s₀, M.init s₀ ∧ M.Steps p s₀ s

/-- The guard of an unrestricted run. -/
def free : σ → α → Prop := fun _ _ => True

instance (s : σ) (a : α) : Decidable (free s a) := isTrue trivial

/-- The state after a list of actions, each of which has to be possible and to meet the guard. -/
def exec (M : Machine σ α) (p : σ → α → Prop) [∀ s a, Decidable (p s a)] :
    σ → List α → Option σ
  | s, [] => some s
  | s, a :: as =>
    if p s a then
      match M.step s a with
      | some t => exec M p t as
      | none => none
    else none

theorem Steps.refl : M.Steps p s s := Relation.ReflTransGen.refl

theorem Steps.trans (h : M.Steps p s t) (h' : M.Steps p t u) : M.Steps p s u :=
  Relation.ReflTransGen.trans h h'

theorem Steps.tail {a : α} (h : M.Steps p s t) (hp : p t a) (hs : M.step t a = some u) :
    M.Steps p s u :=
  Relation.ReflTransGen.tail h ⟨a, hp, hs⟩

theorem Steps.head {a : α} (hp : p s a) (hs : M.step s a = some t) (h : M.Steps p t u) :
    M.Steps p s u :=
  Relation.ReflTransGen.head ⟨a, hp, hs⟩ h

theorem Reachable.start (h : M.init s) : M.Reachable p s := ⟨s, h, Steps.refl⟩

theorem Reachable.steps (h : M.Reachable p s) (h' : M.Steps p s t) : M.Reachable p t := by
  obtain ⟨s₀, hi, hs⟩ := h
  exact ⟨s₀, hi, hs.trans h'⟩

theorem Reachable.step {a : α} (h : M.Reachable p s) (hp : p s a) (hs : M.step s a = some t) :
    M.Reachable p t :=
  h.steps (Steps.refl.tail hp hs)

theorem Steps.mono (hpq : ∀ s a, p s a → q s a) (h : M.Steps p s t) : M.Steps q s t := by
  induction h with
  | refl => exact Steps.refl
  | tail _ hm ih =>
    obtain ⟨a, hp, hs⟩ := hm
    exact ih.tail (hpq _ a hp) hs

theorem Reachable.mono (hpq : ∀ s a, p s a → q s a) (h : M.Reachable p s) : M.Reachable q s := by
  obtain ⟨s₀, hi, hs⟩ := h
  exact ⟨s₀, hi, hs.mono hpq⟩

/-- What every guarded step preserves, a guarded continuation preserves. -/
theorem Steps.invariant {I : σ → Prop}
    (hstep : ∀ s a t, I s → p s a → M.step s a = some t → I t)
    (h : M.Steps p s t) (hs : I s) : I t := by
  induction h with
  | refl => exact hs
  | tail _ hm ih =>
    obtain ⟨a, hp, ha⟩ := hm
    exact hstep _ a _ ih hp ha

/-- The invariant rule; the step may use that the state it starts from is reachable. -/
theorem Reachable.invariant {I : σ → Prop} (hinit : ∀ s, M.init s → I s)
    (hstep : ∀ s a t, M.Reachable p s → I s → p s a → M.step s a = some t → I t)
    (h : M.Reachable p s) : I s := by
  obtain ⟨s₀, hi, hs⟩ := h
  induction hs with
  | refl => exact hinit s₀ hi
  | tail hs hm ih =>
    obtain ⟨a, hp, ha⟩ := hm
    exact hstep _ a _ ⟨s₀, hi, hs⟩ ih hp ha

/-- A continuation of a reachable state preserves what reachable steps preserve. -/
theorem Reachable.steps_invariant {I : σ → Prop}
    (hstep : ∀ s a t, M.Reachable p s → I s → p s a → M.step s a = some t → I t)
    (h : M.Reachable p s) (hst : M.Steps p s t) (hs : I s) : I t := by
  induction hst with
  | refl => exact hs
  | tail hst hm ih =>
    obtain ⟨a, hp, ha⟩ := hm
    exact hstep _ a _ (h.steps hst) ih hp ha

/-- A forward simulation by a function carries reachable states over. -/
theorem Reachable.map {f : σ → τ} (hinit : ∀ s, M.init s → N.init (f s))
    (hstep : ∀ s a t, p s a → M.step s a = some t → ∃ b, r (f s) b ∧ N.step (f s) b = some (f t))
    (h : M.Reachable p s) : N.Reachable r (f s) := by
  apply h.invariant (I := fun s => N.Reachable r (f s))
  · intro s hs
    exact Reachable.start (hinit s hs)
  · intro s a t _ ih hp hs
    obtain ⟨b, hr, hb⟩ := hstep s a t hp hs
    exact ih.step hr hb

theorem exec_steps [∀ s a, Decidable (p s a)] {as : List α} (h : M.exec p s as = some t) :
    M.Steps p s t := by
  induction as generalizing s with
  | nil =>
    cases h
    exact Steps.refl
  | cons a as ih =>
    simp only [exec] at h
    split at h
    · rename_i hp
      split at h
      · rename_i u hu
        exact Steps.head hp hu (ih h)
      · cases h
    · cases h

theorem exec_reachable [∀ s a, Decidable (p s a)] {as : List α} (hi : M.init s)
    (h : M.exec p s as = some t) : M.Reachable p t :=
  ⟨s, hi, exec_steps h⟩

theorem exec_append [∀ s a, Decidable (p s a)] {as bs : List α} :
    M.exec p s (as ++ bs) = (M.exec p s as).bind fun t => M.exec p t bs := by
  induction as generalizing s with
  | nil => rfl
  | cons a as ih =>
    simp only [List.cons_append, exec]
    split
    · split
      · exact ih
      · rfl
    · rfl

/-- The step in the middle of an unrestricted run. -/
theorem exists_step_of_exec {as bs : List α} {a : α} (h : M.exec free s (as ++ a :: bs) = some t)
    (has : M.exec free s as = some u) :
    ∃ v, M.step u a = some v ∧ M.exec free v bs = some t := by
  rw [exec_append, has, Option.bind_some] at h
  simp only [exec, if_pos (show free u a from trivial)] at h
  cases hv : M.step u a with
  | none => simp [hv] at h
  | some v =>
    rw [hv] at h
    exact ⟨v, rfl, h⟩

/-- A list of actions leads to a reachable state, observed through `f`. -/
theorem exists_of_exec [∀ s a, Decidable (p s a)] {l : List α} {f : σ → β} {b : β}
    (hi : M.init s) (h : (M.exec p s l).map f = some b) : ∃ t, M.Reachable p t ∧ f t = b := by
  obtain ⟨t, ht, hb⟩ := Option.map_eq_some_iff.mp h
  exact ⟨t, exec_reachable hi ht, hb⟩

/-- A potential that each step lowers by its cost, but for its gain, bounds the cost of a run. -/
theorem exec_cost_le [∀ s a, Decidable (p s a)] {as : List α} (I : σ → Prop) (pot : σ → Nat)
    (cost gain : α → Nat)
    (hstep : ∀ s a t, I s → p s a → M.step s a = some t → I t ∧ pot t + cost a ≤ pot s + gain a)
    (h : M.exec p s as = some t) (hs : I s) :
    (as.map cost).sum ≤ pot s + (as.map gain).sum := by
  induction as generalizing s with
  | nil => exact Nat.zero_le _
  | cons a as ih =>
    simp only [exec] at h
    split at h
    · rename_i hp
      split at h
      · rename_i u hu
        obtain ⟨hI, hle⟩ := hstep s a u hs hp hu
        have hrest := ih h hI
        simp only [List.map_cons, List.sum_cons]
        omega
      · cases h
    · cases h

/-! ### What a run has cost -/

/-- The machine with a count of the costs of its steps. -/
def counting (M : Machine σ α) (cost : α → Nat) : Machine (σ × Nat) α where
  init s := M.init s.1 ∧ s.2 = 0
  step s a := (M.step s.1 a).map fun t => (t, s.2 + cost a)

/-- A measure that each step raises by its cost bounds the cost of a run. -/
theorem counting_le {cost : α → Nat} {μ : σ → Nat} {s : σ × Nat}
    (hstep : ∀ s a t, M.Reachable p s → p s a → M.step s a = some t → μ s + cost a ≤ μ t)
    (h : (M.counting cost).Reachable (fun s => p s.1) s) : M.Reachable p s.1 ∧ s.2 ≤ μ s.1 := by
  apply h.invariant (I := fun s => M.Reachable p s.1 ∧ s.2 ≤ μ s.1)
  · rintro s ⟨hinit, hzero⟩
    exact ⟨.start hinit, by omega⟩
  · rintro s a t _ ⟨hr, hle⟩ hp hs
    obtain ⟨u, hu, rfl⟩ := Option.map_eq_some_iff.mp hs
    have hraise := hstep s.1 a u hr hp hu
    refine ⟨hr.step hp hu, ?_⟩
    dsimp only
    omega

/-! ### A run without some of its actions -/

/-- The actions of a run but for those that `drop` takes out of it. -/
def without (M : Machine σ α) (drop : σ → α → Prop) [∀ s a, Decidable (drop s a)] :
    σ → List α → List α
  | _, [] => []
  | s, a :: as =>
    match M.step s a with
    | some t => if drop s a then without M drop t as else a :: without M drop t as
    | none => []

/-- Dropped actions change nothing that `R` sees, and the others can be taken from both sides: the
run without the dropped actions is possible and ends in a related state. -/
theorem exec_without {drop : σ → α → Prop} [∀ s a, Decidable (drop s a)]
    [∀ s a, Decidable (p s a)] {R : σ → σ → Prop} {as : List α}
    (hdrop : ∀ s a t u, R s u → p s a → drop s a → M.step s a = some t → R t u)
    (hkeep : ∀ s a t u, R s u → p s a → ¬ drop s a → M.step s a = some t →
      ∃ v, M.step u a = some v ∧ R t v)
    (h : M.exec p s as = some t) (hR : R s u) :
    ∃ v, M.exec free u (M.without drop s as) = some v ∧ R t v := by
  induction as generalizing s u with
  | nil =>
    cases h
    exact ⟨u, rfl, hR⟩
  | cons a as ih =>
    simp only [exec] at h
    split at h
    · rename_i hp
      split at h
      · rename_i s₁ hs
        simp only [without, hs]
        split
        · rename_i hd
          exact ih h (hdrop s a s₁ u hR hp hd hs)
        · rename_i hd
          obtain ⟨u₁, hu, hR₁⟩ := hkeep s a s₁ u hR hp hd hs
          obtain ⟨v, hv, hR'⟩ := ih h hR₁
          refine ⟨v, ?_, hR'⟩
          simp only [exec, if_pos (show free u a from trivial), hu]
          exact hv
      · cases h
    · cases h

end Machine
