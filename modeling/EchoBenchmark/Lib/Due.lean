import Mathlib.Data.List.Perm.Subperm
import Mathlib.Order.Lattice
import Mathlib.Tactic.Common

/-!
A scan that takes the entries due before a limit, least key first, while between two takes entries
may go and others may come that are not due.
-/

namespace Due

variable {α τ : Type*} [LinearOrder τ] {now : τ} {l l' fs : List (α × τ)} {e : α × τ} {n : Nat}

/-- The entries with a key before `now`. -/
def due (now : τ) (l : List (α × τ)) : List (α × τ) := l.filter fun e => e.2 < now

/-- Every entry of `l'` was in `l`, or is not due. -/
def Refills (now : τ) (l l' : List (α × τ)) : Prop := ∀ e ∈ l', e ∈ l ∨ now ≤ e.2

theorem Refills.due_subset (h : Refills now l l') : due now l' ⊆ due now l := by
  intro e he
  obtain ⟨hmem, hlt⟩ := List.mem_filter.mp he
  refine List.mem_filter.mpr ⟨?_, hlt⟩
  exact (h e hmem).resolve_right (not_le.mpr (of_decide_eq_true hlt))

/-- Refilling adds no due entry. -/
theorem Refills.length_due_le (h : Refills now l l') (hn : l'.Nodup) :
    (due now l').length ≤ (due now l).length :=
  (List.subperm_of_subset (hn.filter _) h.due_subset).length_le

theorem length_due_cons (he : e.2 < now) :
    (due now (e :: l)).length = (due now l).length + 1 := by
  simp [due, he]

/-- The entries `fs` taken so far, latest first, against the entries `l` that are left. -/
structure Scan (now : τ) (n : Nat) (l fs : List (α × τ)) : Prop where
  early : ∀ f ∈ fs, f.2 < now
  ordered : fs.Pairwise fun f g => g.2 ≤ f.2
  ahead : ∀ f ∈ fs, ∀ e ∈ l, f.2 ≤ e.2
  once : (fs.map Prod.fst).Nodup
  again : ∀ f ∈ fs, ∀ e ∈ l, e.1 = f.1 → now ≤ e.2
  count : fs.length + (due now l).length ≤ n

namespace Scan

theorem start : Scan now (due now l).length l [] where
  early _ hf := (List.not_mem_nil hf).elim
  ordered := List.Pairwise.nil
  ahead _ hf := (List.not_mem_nil hf).elim
  once := List.nodup_nil
  again _ hf := (List.not_mem_nil hf).elim
  count := Nat.le_of_eq (Nat.zero_add _)

theorem refill (h : Scan now n l fs) (hr : Refills now l l') (hn : l'.Nodup) :
    Scan now n l' fs where
  early := h.early
  ordered := h.ordered
  ahead f hf e he := (hr e he).elim (h.ahead f hf e) fun hle => (h.early f hf).le.trans hle
  once := h.once
  again f hf e he heq := (hr e he).elim (fun hmem => h.again f hf e hmem heq) id
  count := Nat.le_trans (Nat.add_le_add_left (hr.length_due_le hn) _) h.count

theorem take (h : Scan now n (e :: l) fs) (he : e.2 < now) (hmin : ∀ x ∈ l, e.2 ≤ x.2)
    (hone : ∀ x ∈ l, x.1 ≠ e.1) : Scan now n l (e :: fs) where
  early f hf := (List.mem_cons.mp hf).elim (fun heq => heq ▸ he) (h.early f)
  ordered := List.pairwise_cons.mpr
    ⟨fun f hf => h.ahead f hf e List.mem_cons_self, h.ordered⟩
  ahead f hf x hx := by
    rcases List.mem_cons.mp hf with rfl | hf
    · exact hmin x hx
    · exact h.ahead f hf x (List.mem_cons_of_mem _ hx)
  once := by
    refine List.nodup_cons.mpr ⟨fun hmem => ?_, h.once⟩
    obtain ⟨f, hf, heq⟩ := List.mem_map.mp hmem
    exact (h.again f hf e List.mem_cons_self heq.symm).not_gt he
  again f hf x hx heq := by
    rcases List.mem_cons.mp hf with rfl | hf
    · exact (hone x hx heq).elim
    · exact h.again f hf x (List.mem_cons_of_mem _ hx) heq
  count := by
    have hc := h.count
    rw [length_due_cons he] at hc
    simp only [List.length_cons]
    omega

end Scan

end Due
