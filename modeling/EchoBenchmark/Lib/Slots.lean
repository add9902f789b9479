import Mathlib.Data.List.Nodup
import Mathlib.Data.List.Perm.Subperm
import Mathlib.Tactic.Common

/-! Ranges of memory, and blocks cut into slots of one size. -/

/-- `len` bytes from `base` on. -/
structure Block where
  base : Nat
  len : Nat
  deriving DecidableEq

namespace Block

variable {b c b' c' : Block} {base size n p : Nat} {bases : List Nat}

/-- No byte belongs to both. -/
def Apart (b c : Block) : Prop := b.base + b.len ≤ c.base ∨ c.base + c.len ≤ b.base

/-- Every byte of `b` belongs to `c`. -/
def Inside (b c : Block) : Prop := c.base ≤ b.base ∧ b.base + b.len ≤ c.base + c.len

instance (b c : Block) : Decidable (b.Apart c) := inferInstanceAs (Decidable (_ ∨ _))
instance (b c : Block) : Decidable (b.Inside c) := inferInstanceAs (Decidable (_ ∧ _))

theorem Apart.symm (h : b.Apart c) : c.Apart b := Or.symm h

theorem Apart.mono (h : b.Apart c) (hb : b'.Inside b) (hc : c'.Inside c) : b'.Apart c' := by
  unfold Apart Inside at *
  omega

theorem Apart.ne (h : b.Apart c) (hb : 0 < b.len) (hc : 0 < c.len) : b.base ≠ c.base := by
  unfold Apart at h
  omega

/-- The `n` slots of `size` bytes from `base` on. -/
def cut (size n base : Nat) : List Nat := (List.range n).map fun i => base + i * size

theorem mem_cut : p ∈ cut size n base ↔ ∃ i < n, base + i * size = p := by
  simp [cut]

theorem length_cut : (cut size n base).length = n := by
  simp [cut]

theorem cut_zero_cons (hn : 0 < n) :
    cut size n base = base :: (List.range' 1 (n - 1)).map fun i => base + i * size := by
  obtain ⟨k, rfl⟩ : ∃ k, n = k + 1 := ⟨n - 1, by omega⟩
  simp [cut, List.range_eq_range', List.range'_succ]

theorem inside_of_mem_cut (hp : p ∈ cut size n base) : Inside ⟨p, size⟩ ⟨base, size * n⟩ := by
  obtain ⟨i, hi, rfl⟩ := mem_cut.mp hp
  have hle : size * (i + 1) ≤ size * n := Nat.mul_le_mul_left size hi
  rw [Nat.mul_succ, Nat.mul_comm size i] at hle
  unfold Inside
  dsimp only
  omega

theorem cut_apart : (cut size n base).Pairwise fun p q => Apart ⟨p, size⟩ ⟨q, size⟩ := by
  rw [cut, List.pairwise_map]
  refine List.pairwise_lt_range.imp ?_
  intro i j hij
  have hle : (i + 1) * size ≤ j * size := Nat.mul_le_mul_right size hij
  rw [Nat.succ_mul] at hle
  left
  dsimp only
  omega

/-- The slots of all blocks, each of `n` slots. -/
def slots (size n : Nat) (bases : List Nat) : List Nat := bases.flatMap (cut size n)

@[simp] theorem slots_cons : slots size n (base :: bases) = cut size n base ++ slots size n bases :=
  rfl

theorem length_slots : (slots size n bases).length = bases.length * n := by
  induction bases with
  | nil => simp [slots]
  | cons base bases ih =>
    rw [slots_cons, List.length_append, length_cut, ih, List.length_cons, Nat.succ_mul]
    omega

theorem inside_of_mem_slots (hp : p ∈ slots size n bases) :
    ∃ base ∈ bases, Inside ⟨p, size⟩ ⟨base, size * n⟩ := by
  obtain ⟨base, hb, hp⟩ := List.mem_flatMap.mp hp
  exact ⟨base, hb, inside_of_mem_cut hp⟩

/-- Slots of blocks that lie apart lie apart. -/
theorem slots_apart (h : bases.Pairwise fun a b => Apart ⟨a, size * n⟩ ⟨b, size * n⟩) :
    (slots size n bases).Pairwise fun p q => Apart ⟨p, size⟩ ⟨q, size⟩ := by
  induction bases with
  | nil => exact List.Pairwise.nil
  | cons base bases ih =>
    obtain ⟨hbase, hrest⟩ := List.pairwise_cons.mp h
    rw [slots_cons, List.pairwise_append]
    refine ⟨cut_apart, ih hrest, ?_⟩
    intro p hp q hq
    obtain ⟨b, hb, hin⟩ := inside_of_mem_slots hq
    exact (hbase b hb).mono (inside_of_mem_cut hp) hin

theorem nodup_of_apart {l : List Nat} (hsize : 0 < size)
    (h : l.Pairwise fun p q => Apart ⟨p, size⟩ ⟨q, size⟩) : l.Nodup :=
  h.imp fun hpq => hpq.ne hsize hsize

/-- No more slots lie apart in a block than its length allows. -/
theorem length_mul_le {l : List Nat} (h : l.Pairwise fun p q => Apart ⟨p, size⟩ ⟨q, size⟩)
    (hin : ∀ p ∈ l, Inside ⟨p, size⟩ b) : l.length * size ≤ b.len := by
  have hnodup : (l.flatMap fun p => List.range' p size).Nodup := by
    rw [List.nodup_flatMap]
    refine ⟨fun p _ => List.nodup_range', h.imp ?_⟩
    intro p q hpq u hp hq
    rw [List.mem_range'_1] at hp hq
    unfold Apart at hpq
    dsimp only at hpq
    omega
  have hsub : (l.flatMap fun p => List.range' p size) ⊆ List.range' b.base b.len := by
    intro u hu
    obtain ⟨p, hp, hu⟩ := List.mem_flatMap.mp hu
    have hpb := hin p hp
    rw [List.mem_range'_1] at hu ⊢
    unfold Inside at hpb
    dsimp only at hpb
    omega
  have hle := (List.subperm_of_subset hnodup hsub).length_le
  have hlen : ∀ l : List Nat, (l.flatMap fun p => List.range' p size).length = l.length * size := by
    intro l
    induction l with
    | nil => simp
    | cons p l ih =>
      rw [List.flatMap_cons, List.length_append, ih, List.length_range', List.length_cons,
        Nat.succ_mul]
      omega
  rwa [hlen, List.length_range'] at hle

end Block
