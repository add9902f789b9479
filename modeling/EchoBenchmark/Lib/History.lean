import Mathlib.Data.List.Basic
import Mathlib.Tactic.Common

/-! Histories that grow at the head by entries of a kind. -/

namespace History

variable {ε β : Type*} {P Q : ε → Prop} {log log' log'' : List ε} {e : ε}

/-- `log'` is `log` with entries that meet `P` added. -/
def Adds (P : ε → Prop) (log log' : List ε) : Prop :=
  ∃ evs, log' = evs ++ log ∧ ∀ e ∈ evs, P e

namespace Adds

theorem refl : Adds P log log := ⟨[], rfl, by simp⟩

theorem trans (h : Adds P log log') (h' : Adds P log' log'') : Adds P log log'' := by
  obtain ⟨evs, rfl, he⟩ := h
  obtain ⟨evs', rfl, he'⟩ := h'
  refine ⟨evs' ++ evs, (List.append_assoc _ _ _).symm, fun e hmem => ?_⟩
  rcases List.mem_append.mp hmem with hmem | hmem
  · exact he' e hmem
  · exact he e hmem

theorem cons (h : Adds P log log') (he : P e) : Adds P log (e :: log') :=
  h.trans ⟨[e], rfl, by simpa using he⟩

theorem mono (h : Adds P log log') (hpq : ∀ e, P e → Q e) : Adds Q log log' := by
  obtain ⟨evs, rfl, he⟩ := h
  exact ⟨evs, rfl, fun e hm => hpq e (he e hm)⟩

theorem suffix (h : Adds P log log') : log <:+ log' := by
  obtain ⟨evs, rfl, -⟩ := h
  exact List.suffix_append evs log

/-- What each new entry keeps, all of them keep. -/
theorem rule {R : List ε → Prop} (h : Adds P log log') (h₀ : R log)
    (hcons : ∀ e l, P e → R l → R (e :: l)) : R log' := by
  obtain ⟨evs, rfl, he⟩ := h
  induction evs with
  | nil => exact h₀
  | cons e evs ih =>
    exact hcons e _ (he e List.mem_cons_self) (ih fun e hm => he e (List.mem_cons_of_mem _ hm))

/-- A selection that the new entries are not part of stays as it is. -/
theorem filterMap_eq {f : ε → Option β} (h : Adds P log log') (hf : ∀ e, P e → f e = none) :
    log'.filterMap f = log.filterMap f := by
  refine h.rule (R := fun l => l.filterMap f = log.filterMap f) rfl fun e l he hl => ?_
  rw [List.filterMap_cons_none (hf e he), hl]

end Adds

/-! ### What each entry says of those before it -/

/-- Every entry meets `Q` of the entries before it. -/
def Each (Q : List ε → ε → Prop) : List ε → Prop
  | [] => True
  | e :: log => Q log e ∧ Each Q log

namespace Each

variable {Q : List ε → ε → Prop}

instance decidable [∀ log e, Decidable (Q log e)] : (log : List ε) → Decidable (Each Q log)
  | [] => isTrue trivial
  | e :: log => @instDecidableAnd (Q log e) (Each Q log) inferInstance (decidable log)

/-- Entries of a kind that meets `Q` anywhere may be added. -/
theorem adds (h : Each Q log) (ha : Adds P log log') (hP : ∀ l e, P e → Q l e) : Each Q log' :=
  ha.rule (R := Each Q) h fun e l he hl => ⟨hP l e he, hl⟩

end Each

/-! ### What the entries carry -/

section Gathered

variable {f : ε → List β}

/-- What the entries carry, the oldest first. -/
def gathered (f : ε → List β) : List ε → List β
  | [] => []
  | e :: log => gathered f log ++ f e

@[simp] theorem gathered_nil : gathered f [] = [] := rfl

@[simp] theorem gathered_cons : gathered f (e :: log) = gathered f log ++ f e := rfl

end Gathered

/-! ### What came after an entry -/

section Since

variable [DecidableEq ε] {e e' : ε} {evs : List ε}

/-- The entries newer than the latest `e`. -/
def since (e : ε) (log : List ε) : List ε := log.takeWhile (· ≠ e)

@[simp] theorem since_cons_self : since e (e :: log) = [] := by simp [since]

theorem since_cons (h : e' ≠ e) : since e (e' :: log) = e' :: since e log := by simp [since, h]

theorem since_append (h : ∀ e' ∈ evs, e' ≠ e) : since e (evs ++ log) = evs ++ since e log := by
  induction evs with
  | nil => rfl
  | cons e' evs ih =>
    rw [List.cons_append, since_cons (h e' List.mem_cons_self),
      ih fun e hm => h e (List.mem_cons_of_mem _ hm), List.cons_append]

theorem Adds.since (h : Adds P log log') (hP : ∀ e', P e' → e' ≠ e) :
    Adds P (since e log) (since e log') := by
  obtain ⟨evs, rfl, he⟩ := h
  exact ⟨evs, since_append fun e' hm => hP e' (he e' hm), he⟩

end Since

end History
