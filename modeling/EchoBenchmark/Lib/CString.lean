import Mathlib.Data.List.TakeWhile
import Mathlib.Logic.Function.Basic
import Mathlib.Tactic.Common

/-! Strings that end in a zero byte, in a buffer that remembers where it was stored to. -/

namespace CString

def NUL : Char := Char.ofNat 0

/-- The bytes from the start of a buffer on, and the indices of the stores into it. -/
structure Frame where
  cells : Nat → Char
  stores : List Nat

/-- The part of a text before its first zero byte. -/
def visible (text : List Char) : List Char := text.takeWhile (· != NUL)

namespace Frame

variable {f : Frame} {off off' n bound i : Nat} {w w' text : List Char}

def store (f : Frame) (i : Nat) (c : Char) : Frame :=
  ⟨Function.update f.cells i c, i :: f.stores⟩

/-- Stores in a row, from index `off` on. -/
def storeAll (f : Frame) (off : Nat) : List Char → Frame
  | [] => f
  | c :: cs => (f.store off c).storeAll (off + 1) cs

/-- `snprintf(buf + off, n, …)`, which prints `text`. -/
def snprintf (f : Frame) (off n : Nat) (text : List Char) : Frame :=
  if n = 0 then f else f.storeAll off (text.take (n - 1) ++ [NUL])

/-- `strlen(buf + off)`; `none` is a string that goes on for `bound` bytes. -/
def strlen (f : Frame) (off bound : Nat) : Option Nat :=
  (List.range bound).find? fun i => f.cells (off + i) == NUL

/-- `strcat(buf + off, text)`. -/
def strcat (f : Frame) (off bound : Nat) (text : List Char) : Option Frame :=
  match f.strlen off bound with
  | some n => some (f.storeAll (off + n) (text ++ [NUL]))
  | none => none

/-- The first `n` bytes. -/
def bytes (f : Frame) (n : Nat) : List Char := (List.range n).map f.cells

/-- The bytes at `off` are `w`. -/
def Holds (f : Frame) (off : Nat) (w : List Char) : Prop :=
  ∀ i c, w[i]? = some c → f.cells (off + i) = c

/-- Without a byte to write to, nothing is written. -/
@[simp] theorem snprintf_zero : f.snprintf off 0 text = f := if_pos rfl

theorem cells_storeAll_of_lt (h : i < off) : (f.storeAll off w).cells i = f.cells i := by
  induction w generalizing f off with
  | nil => rfl
  | cons c w ih =>
    rw [storeAll, ih (Nat.lt_succ_of_lt h)]
    exact Function.update_of_ne (Nat.ne_of_lt h) _ _

theorem stores_storeAll :
    i ∈ (f.storeAll off w).stores ↔ i ∈ f.stores ∨ off ≤ i ∧ i < off + w.length := by
  induction w generalizing f off with
  | nil =>
    simp only [storeAll, List.length_nil, Nat.add_zero]
    refine ⟨Or.inl, ?_⟩
    rintro (h | ⟨hle, hlt⟩)
    · exact h
    · omega
  | cons c w ih =>
    rw [storeAll, ih]
    simp only [store, List.mem_cons, List.length_cons]
    by_cases hi : i ∈ f.stores
    · simp [hi]
    · simp only [hi, or_false, false_or]
      omega

theorem holds_storeAll : (f.storeAll off w).Holds off w := by
  induction w generalizing f off with
  | nil =>
    intro i c hc
    cases hc
  | cons c w ih =>
    intro i d hd
    rw [storeAll]
    cases i with
    | zero =>
      cases hd
      have hcell : ((f.store off c).storeAll (off + 1) w).cells off = c :=
        (cells_storeAll_of_lt (Nat.lt_succ_self off)).trans (Function.update_self _ _ _)
      exact hcell
    | succ i =>
      have h := @ih (f.store off c) (off + 1) i d hd
      rw [← h]
      congr 1
      omega

namespace Holds

/-- Stores behind a text leave it as it is. -/
theorem storeAll (h : f.Holds off w) (hle : off + w.length ≤ off') :
    (f.storeAll off' w').Holds off w := by
  intro i c hc
  obtain ⟨hi, -⟩ := List.getElem?_eq_some_iff.mp hc
  rw [cells_storeAll_of_lt (by omega)]
  exact h i c hc

theorem left (h : f.Holds off (w ++ w')) : f.Holds off w := by
  intro i c hc
  obtain ⟨hi, -⟩ := List.getElem?_eq_some_iff.mp hc
  exact h i c ((List.getElem?_append_left hi).trans hc)

theorem right (h : f.Holds off (w ++ w')) : f.Holds (off + w.length) w' := by
  intro i c hc
  rw [Nat.add_assoc]
  refine h _ c ?_
  rw [List.getElem?_append_right (Nat.le_add_right _ _), Nat.add_sub_cancel_left]
  exact hc

theorem append (h : f.Holds off w) (h' : f.Holds (off + w.length) w') : f.Holds off (w ++ w') := by
  intro i c hc
  by_cases hi : i < w.length
  · rw [List.getElem?_append_left hi] at hc
    exact h i c hc
  · rw [List.getElem?_append_right (Nat.le_of_not_lt hi)] at hc
    have hcell := h' _ c hc
    rw [← hcell]
    congr 1
    omega

theorem bytes_eq (h : f.Holds 0 w) : f.bytes w.length = w := by
  refine List.ext_getElem? ?_
  intro i
  by_cases hi : i < w.length
  · have hc := h i w[i] (List.getElem?_eq_getElem hi)
    rw [Nat.zero_add] at hc
    simp [bytes, hi, hc]
  · rw [List.getElem?_eq_none (Nat.le_of_not_lt hi), List.getElem?_eq_none]
    simpa [bytes] using hi

/-- The length of a string that ends inside the bound. -/
theorem strlen_eq (h : f.Holds off (w ++ [NUL])) (hw : NUL ∉ w) (hlt : w.length < bound) :
    f.strlen off bound = some w.length := by
  rw [strlen, List.find?_range_eq_some]
  refine ⟨?_, List.mem_range.mpr hlt, ?_⟩
  · rw [h w.length NUL (by simp)]
    rfl
  · intro j hj
    rw [h.left j w[j] (List.getElem?_eq_getElem hj)]
    have hne : w[j] ≠ NUL := by
      intro he
      exact hw (he ▸ List.getElem_mem hj)
    simpa using hne

end Holds

end Frame

/-! ### Visible texts -/

variable {text : List Char}

theorem nul_not_mem_visible : NUL ∉ visible text := by
  intro h
  have hp := List.mem_takeWhile_imp h
  simp at hp

theorem length_visible_le : (visible text).length ≤ text.length :=
  (List.takeWhile_sublist _).length_le

/-- A terminated text begins with its visible part and a zero byte. -/
theorem exists_visible (text : List Char) :
    ∃ rest, text ++ [NUL] = (visible text ++ [NUL]) ++ rest := by
  induction text with
  | nil => exact ⟨[], rfl⟩
  | cons c text ih =>
    by_cases hc : c = NUL
    · refine ⟨text ++ [NUL], ?_⟩
      simp [visible, hc]
    · obtain ⟨rest, hrest⟩ := ih
      refine ⟨rest, ?_⟩
      have hcons : visible (c :: text) = c :: visible text :=
        List.takeWhile_cons_of_pos (by simpa using hc)
      rw [hcons, List.cons_append, hrest]
      rfl

end CString
