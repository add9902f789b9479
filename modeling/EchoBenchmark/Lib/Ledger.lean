import Mathlib.Data.List.Basic
import Mathlib.Tactic.Common

/-!
A ledger of operations over one-place slots: an operation with a fresh name takes an empty slot,
and leaves it when it is settled or when the slot is dropped. Histories are lists with the newest
entry first.
-/

namespace Ledger

/-- What can happen to a slot `k` or to the operation `i`. -/
inductive Entry (κ ι : Type*)
  | opened (k : κ) (i : ι)
  | refused (i : ι)
  | settled (k : κ) (i : ι)
  | dropped (k : κ)

variable {κ ι : Type*} [DecidableEq κ] [DecidableEq ι] {k : κ} {i j : ι} {e : Entry κ ι}
  {h : List (Entry κ ι)}

/-- The operation that occupies a slot after a history. -/
def holder : List (Entry κ ι) → κ → Option ι
  | [], _ => none
  | .opened k i :: h, k' => if k' = k then some i else holder h k'
  | .settled k _ :: h, k' => if k' = k then none else holder h k'
  | .dropped k :: h, k' => if k' = k then none else holder h k'
  | .refused _ :: h, k' => holder h k'

/-- The entry gives the name `i` to an operation. -/
def Entry.names (i : ι) : Entry κ ι → Prop
  | .opened _ j | .refused j => j = i
  | .settled _ _ | .dropped _ => False

/-- How often the operation `i` was settled. -/
def settledCount (i : ι) : List (Entry κ ι) → Nat
  | [] => 0
  | .settled _ j :: h => settledCount i h + if j = i then 1 else 0
  | .opened _ _ :: h | .refused _ :: h | .dropped _ :: h => settledCount i h

/-- Operation `i` was opened in slot `k` and neither settled nor dropped since. -/
def Unsettled (k : κ) (i : ι) : List (Entry κ ι) → Prop
  | [] => False
  | .opened k' j :: h => (k' = k ∧ j = i) ∨ Unsettled k i h
  | .settled _ j :: h => j ≠ i ∧ Unsettled k i h
  | .dropped k' :: h => k' ≠ k ∧ Unsettled k i h
  | .refused _ :: h => Unsettled k i h

/-- The histories a one-place slot discipline allows. -/
inductive Legal : List (Entry κ ι) → Prop
  | nil : Legal []
  | opened {h : List (Entry κ ι)} {k : κ} {i : ι} : Legal h → holder h k = none →
      (∀ e ∈ h, ¬ e.names i) → Legal (.opened k i :: h)
  | refused {h : List (Entry κ ι)} {i : ι} : Legal h → (∀ e ∈ h, ¬ e.names i) →
      Legal (.refused i :: h)
  | settled {h : List (Entry κ ι)} {k : κ} {i : ι} : Legal h → holder h k = some i →
      Legal (.settled k i :: h)
  | dropped {h : List (Entry κ ι)} {k : κ} : Legal h → Legal (.dropped k :: h)

omit [DecidableEq ι] in
/-- A held operation was opened in that very slot. -/
theorem opened_of_holder (hk : holder h k = some i) : Entry.opened k i ∈ h := by
  induction h with
  | nil => cases hk
  | cons e h ih =>
    cases e with
    | opened k' j =>
      simp only [holder] at hk
      split at hk
      · rename_i hkk
        cases hk
        simp [hkk]
      · exact List.mem_cons_of_mem _ (ih hk)
    | refused j => exact List.mem_cons_of_mem _ (ih hk)
    | settled k' j | dropped k' =>
      simp only [holder] at hk
      split at hk
      · cases hk
      · exact List.mem_cons_of_mem _ (ih hk)

theorem named_of_settled (hl : Legal h) (hs : settledCount i h ≠ 0) :
    ∃ k, Entry.opened k i ∈ h := by
  induction hl with
  | nil => exact absurd rfl hs
  | opened _ _ _ ih | refused _ _ ih | dropped _ ih =>
    obtain ⟨k, hk⟩ := ih hs
    exact ⟨k, List.mem_cons_of_mem _ hk⟩
  | @settled h k j _ hj ih =>
    by_cases hji : j = i
    · subst hji
      exact ⟨k, List.mem_cons_of_mem _ (opened_of_holder hj)⟩
    · obtain ⟨k', hk⟩ := ih (by simpa [settledCount, hji] using hs)
      exact ⟨k', List.mem_cons_of_mem _ hk⟩

/-- A name is held in at most one slot, and is not settled while it is held. -/
theorem holder_unique (hl : Legal h) :
    (∀ k k', holder h k = some i → holder h k' = some i → k = k') ∧
      (∀ k, holder h k = some i → settledCount i h = 0) := by
  induction hl with
  | nil =>
    constructor
    · intro k k' hk
      cases hk
    · intro k hk
      cases hk
  | @opened h k₀ j hl hfree hfresh ih =>
    have hnew : ∀ k, holder h k = some j → False := by
      intro k hk
      exact hfresh _ (opened_of_holder hk) rfl
    constructor
    · intro k k' hk hk'
      simp only [holder] at hk hk'
      split at hk <;> split at hk'
      · simp_all
      · cases hk
        exact (hnew k' hk').elim
      · cases hk'
        exact (hnew k hk).elim
      · exact ih.1 k k' hk hk'
    · intro k hk
      simp only [holder] at hk
      split at hk
      · cases hk
        by_contra hs
        obtain ⟨k', hk'⟩ := named_of_settled hl hs
        exact hfresh _ hk' rfl
      · exact ih.2 k hk
  | refused _ _ ih => exact ih
  | @settled h k₀ j _ hj ih =>
    constructor
    · intro k k' hk hk'
      simp only [holder] at hk hk'
      split at hk <;> split at hk'
      · cases hk
      · cases hk
      · cases hk'
      · exact ih.1 k k' hk hk'
    · intro k hk
      simp only [holder] at hk
      split at hk
      · cases hk
      · rename_i hne
        have hji : j ≠ i := by
          intro he
          subst he
          exact hne (ih.1 k k₀ hk hj)
        simpa [settledCount, hji] using ih.2 k hk
  | dropped _ ih =>
    constructor
    · intro k k' hk hk'
      simp only [holder] at hk hk'
      split at hk <;> split at hk'
      · cases hk
      · cases hk
      · cases hk'
      · exact ih.1 k k' hk hk'
    · intro k hk
      simp only [holder] at hk
      split at hk
      · cases hk
      · exact ih.2 k hk

/-- No operation is settled twice. -/
theorem settledCount_le_one (hl : Legal h) : settledCount i h ≤ 1 := by
  induction hl with
  | nil => exact Nat.zero_le 1
  | opened _ _ _ ih | refused _ _ ih | dropped _ ih => exact ih
  | @settled h k j hl hj ih =>
    by_cases hji : j = i
    · subst hji
      simp [settledCount, (holder_unique hl).2 k hj]
    · simpa [settledCount, hji] using ih

omit [DecidableEq ι] in
/-- Names are given once: an operation is not both opened and refused. -/
theorem not_opened_of_refused (hl : Legal h) (hr : Entry.refused i ∈ h) : Entry.opened k i ∉ h := by
  induction hl with
  | nil => cases hr
  | opened _ _ hfresh ih =>
    intro ho
    have hrh := List.mem_of_ne_of_mem (by simp) hr
    rcases List.mem_cons.mp ho with he | hoh
    · cases he
      exact hfresh _ hrh rfl
    · exact ih hrh hoh
  | refused _ hfresh ih =>
    intro ho
    have hoh := List.mem_of_ne_of_mem (by simp) ho
    rcases List.mem_cons.mp hr with he | hrh
    · cases he
      exact hfresh _ hoh rfl
    · exact ih hrh hoh
  | settled _ _ ih | dropped _ ih =>
    intro ho
    exact ih (List.mem_of_ne_of_mem (by simp) hr) (List.mem_of_ne_of_mem (by simp) ho)

/-- A refused operation is never settled. -/
theorem settledCount_of_refused (hl : Legal h) (hr : Entry.refused i ∈ h) :
    settledCount i h = 0 := by
  by_contra hs
  obtain ⟨k, hk⟩ := named_of_settled hl hs
  exact not_opened_of_refused hl hr hk

omit [DecidableEq ι] in
/-- No operation is lost: one that is not settled and not dropped still holds its slot. -/
theorem holder_of_unsettled (hl : Legal h) (hu : Unsettled k i h) : holder h k = some i := by
  induction hl with
  | nil => exact hu.elim
  | @opened h k₀ j _ hfree _ ih =>
    rcases hu with ⟨rfl, rfl⟩ | hu
    · simp [holder]
    · have hk := ih hu
      have hne : k ≠ k₀ := by
        intro he
        subst he
        rw [hk] at hfree
        cases hfree
      simp [holder, hne, hk]
  | refused _ _ ih => exact ih hu
  | @settled h k₀ j _ hj ih =>
    have hk := ih hu.2
    have hne : k ≠ k₀ := by
      intro he
      subst he
      rw [hk] at hj
      cases hj
      exact hu.1 rfl
    simp [holder, hne, hk]
  | dropped _ ih => simp [holder, Ne.symm hu.1, ih hu.2]

end Ledger
