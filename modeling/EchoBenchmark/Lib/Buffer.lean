import Mathlib.Data.List.Basic
import Mathlib.Tactic.Common

/-!
A buffer with a position and a limit: what is put is stored from the position on, what is taken is
read from there, and `flip` turns a buffer that was filled into one to be drained.
-/

/-- Cells, the next cell to be put or taken, and the first that is not to be. -/
structure Buffer (α : Type*) where
  cells : List α
  position : Nat
  limit : Nat
  position_le : position ≤ limit
  limit_le : limit ≤ cells.length

namespace Buffer

variable {α : Type*} {b : Buffer α} {xs : List α} {n : Nat}

def capacity (b : Buffer α) : Nat := b.cells.length

/-- The cells between the position and the limit. -/
def remaining (b : Buffer α) : Nat := b.limit - b.position

/-- A new buffer holds the same value everywhere. -/
def allocate (n : Nat) (a : α) : Buffer α where
  cells := List.replicate n a
  position := 0
  limit := n
  position_le := Nat.zero_le n
  limit_le := Nat.le_of_eq List.length_replicate.symm

def flip (b : Buffer α) : Buffer α where
  cells := b.cells
  position := 0
  limit := b.position
  position_le := Nat.zero_le _
  limit_le := Nat.le_trans b.position_le b.limit_le

def clear (b : Buffer α) : Buffer α where
  cells := b.cells
  position := 0
  limit := b.capacity
  position_le := Nat.zero_le _
  limit_le := Nat.le_refl _

theorem le_limit_of_le_remaining (h : n ≤ b.remaining) : b.position + n ≤ b.limit := by
  have := b.position_le
  unfold remaining at h
  omega

theorem length_put (h : xs.length ≤ b.remaining) :
    (b.cells.take b.position ++ xs ++ b.cells.drop (b.position + xs.length)).length =
      b.cells.length := by
  have := le_limit_of_le_remaining h
  have := b.limit_le
  simp only [List.length_append, List.length_take, List.length_drop]
  omega

/-- A relative bulk put of no more than remains. -/
def put (b : Buffer α) (xs : List α) (h : xs.length ≤ b.remaining) : Buffer α where
  cells := b.cells.take b.position ++ xs ++ b.cells.drop (b.position + xs.length)
  position := b.position + xs.length
  limit := b.limit
  position_le := le_limit_of_le_remaining h
  limit_le := by rw [length_put h]; exact b.limit_le

/-- The next `n` cells. -/
def front (b : Buffer α) (n : Nat) : List α := (b.cells.drop b.position).take n

/-- A relative bulk take of no more than remains. -/
def skip (b : Buffer α) (n : Nat) (h : n ≤ b.remaining) : Buffer α where
  cells := b.cells
  position := b.position + n
  limit := b.limit
  position_le := le_limit_of_le_remaining h
  limit_le := b.limit_le

@[simp] theorem capacity_allocate (a : α) : (allocate n a).capacity = n := List.length_replicate
@[simp] theorem position_allocate (a : α) : (allocate n a).position = 0 := rfl
@[simp] theorem limit_allocate (a : α) : (allocate n a).limit = n := rfl
@[simp] theorem capacity_flip : b.flip.capacity = b.capacity := rfl
@[simp] theorem position_flip : b.flip.position = 0 := rfl
@[simp] theorem capacity_clear : b.clear.capacity = b.capacity := rfl
@[simp] theorem position_clear : b.clear.position = 0 := rfl
@[simp] theorem limit_clear : b.clear.limit = b.capacity := rfl

@[simp] theorem capacity_put (h : xs.length ≤ b.remaining) : (b.put xs h).capacity = b.capacity :=
  length_put h

@[simp] theorem capacity_skip (h : n ≤ b.remaining) : (b.skip n h).capacity = b.capacity := rfl

/-- As much remains to be taken as was put since the position was at the start. -/
@[simp] theorem remaining_flip : b.flip.remaining = b.position := rfl

/-- What was put into an empty buffer is what is taken after a flip. -/
theorem front_flip_put (h : xs.length ≤ b.remaining) (hb : b.position = 0) :
    (b.put xs h).flip.front n = xs.take n ++
      (b.cells.drop xs.length).take (n - xs.length) := by
  simp only [front, flip, put, hb, List.take_zero, List.nil_append, Nat.zero_add, List.drop_zero,
    List.take_append]

theorem front_flip_put_of_le (h : xs.length ≤ b.remaining) (hb : b.position = 0)
    (hn : n ≤ xs.length) : (b.put xs h).flip.front n = xs.take n := by
  rw [front_flip_put h hb, Nat.sub_eq_zero_of_le hn, List.take_zero, List.append_nil]

end Buffer
