import Mathlib.Order.Defs.LinearOrder
import Mathlib.Data.List.Sort

/-!
An ordered set of references whose comparator reads only a key behind the reference, as a list
in key order. Two references with equal keys are one element to such a set.
-/

namespace KeyedSet

variable {α κ : Type*} [LinearOrder κ] {key key' : α → κ} {x y : α} {l : List α}

/-- The representation invariant: keys strictly increase along the list. -/
def Sorted (key : α → κ) (l : List α) : Prop := l.Pairwise (fun a b => key a < key b)

/-- Insertion; refused, with `false`, when an element with the same key is present. -/
def insert (key : α → κ) (x : α) (l : List α) : List α × Bool :=
  if l.any (fun y => key y = key x) then (l, false)
  else (l.orderedInsert (fun a b => key a ≤ key b) x, true)

/-- Erasure removes whatever has the key of `x`, which need not be `x`. -/
def erase (key : α → κ) (x : α) (l : List α) : List α := l.filter (fun y => key y ≠ key x)

theorem any_key_iff : l.any (fun y => key y = key x) = true ↔ ∃ y ∈ l, key y = key x := by
  simp

theorem insert_of_free (h : ∀ y ∈ l, key y ≠ key x) :
    insert key x l = (l.orderedInsert (fun a b => key a ≤ key b) x, true) := by
  have hn : ¬ (l.any (fun y => key y = key x) = true) := by
    rw [any_key_iff]
    rintro ⟨y, hy, he⟩
    exact h y hy he
  simp [insert, hn]

theorem insert_of_taken (h : ∃ y ∈ l, key y = key x) : insert key x l = (l, false) := by
  have ha := any_key_iff.mpr h
  simp [insert, ha]

theorem insert_snd_iff : (insert key x l).2 = true ↔ ∀ y ∈ l, key y ≠ key x := by
  constructor
  · intro h y hy he
    rw [insert_of_taken ⟨y, hy, he⟩] at h
    cases h
  · intro h
    rw [insert_of_free h]

theorem mem_insert_of_free (h : ∀ z ∈ l, key z ≠ key x) :
    y ∈ (insert key x l).1 ↔ y = x ∨ y ∈ l := by
  rw [insert_of_free h]
  exact List.mem_orderedInsert (fun a b => key a ≤ key b)

theorem mem_of_mem_insert (h : y ∈ (insert key x l).1) : y = x ∨ y ∈ l := by
  by_cases hf : ∀ z ∈ l, key z ≠ key x
  · exact (mem_insert_of_free hf).mp h
  · push Not at hf
    rw [insert_of_taken hf] at h
    exact Or.inr h

/-- An absent reference becomes a member exactly when its key is free. -/
theorem mem_insert_self_iff (hx : x ∉ l) : x ∈ (insert key x l).1 ↔ ∀ y ∈ l, key y ≠ key x := by
  constructor
  · intro h y hy he
    rw [insert_of_taken ⟨y, hy, he⟩] at h
    exact hx h
  · intro h
    exact (mem_insert_of_free h).mpr (Or.inl rfl)

theorem sorted_insert (h : Sorted key l) : Sorted key (insert key x l).1 := by
  by_cases hf : ∀ z ∈ l, key z ≠ key x
  · rw [insert_of_free hf]
    induction l with
    | nil => simp [Sorted]
    | cons a l ih =>
      obtain ⟨ha, hl⟩ := List.pairwise_cons.mp h
      have hxa : key x ≠ key a := fun he => hf a (by simp) he.symm
      by_cases hle : key x ≤ key a
      · rw [List.orderedInsert_cons, if_pos hle]
        have hlt : key x < key a := lt_of_le_of_ne hle hxa
        refine List.pairwise_cons.mpr ⟨?_, h⟩
        intro b hb
        rcases List.mem_cons.mp hb with rfl | hb
        · exact hlt
        · exact hlt.trans (ha b hb)
      · rw [List.orderedInsert_cons, if_neg hle]
        refine List.pairwise_cons.mpr ⟨?_, ih hl (fun z hz => hf z (by simp [hz]))⟩
        intro b hb
        rcases (List.mem_orderedInsert (fun a b => key a ≤ key b)).mp hb with rfl | hb
        · exact lt_of_not_ge hle
        · exact ha b hb
  · push Not at hf
    rw [insert_of_taken hf]
    exact h

@[simp] theorem mem_erase : y ∈ erase key x l ↔ y ∈ l ∧ key y ≠ key x := by
  simp [erase]

theorem sorted_erase (h : Sorted key l) : Sorted key (erase key x l) :=
  List.Pairwise.sublist List.filter_sublist h

theorem Sorted.tail (h : Sorted key (x :: l)) : Sorted key l := (List.pairwise_cons.mp h).2

theorem Sorted.head_lt (h : Sorted key (x :: l)) (hy : y ∈ l) : key x < key y :=
  (List.pairwise_cons.mp h).1 y hy

theorem Sorted.eq_of_key (h : Sorted key l) (hx : x ∈ l) (hy : y ∈ l) (he : key x = key y) :
    x = y := by
  induction l with
  | nil => cases hx
  | cons a l ih =>
    rcases List.mem_cons.mp hx with hxa | hxl <;> rcases List.mem_cons.mp hy with hya | hyl
    · exact hxa.trans hya.symm
    · subst hxa
      exact absurd he (ne_of_lt (h.head_lt hyl))
    · subst hya
      exact absurd he.symm (ne_of_lt (h.head_lt hxl))
    · exact ih h.tail hxl hyl

theorem Sorted.nodup (h : Sorted key l) : l.Nodup :=
  List.Pairwise.imp (fun hab he => absurd (congrArg key he) (ne_of_lt hab)) h

/-- Only the keys of members matter. -/
theorem Sorted.congr (h : Sorted key l) (he : ∀ y ∈ l, key' y = key y) : Sorted key' l := by
  refine List.Pairwise.imp_of_mem ?_ h
  intro a b ha hb hab
  rwa [he a ha, he b hb]

theorem not_mem_erase_self : x ∉ erase key x l := by
  simp

/-- Erasure of several references, one after the other. -/
def eraseAll (key : α → κ) (xs : List α) (l : List α) : List α :=
  xs.foldl (fun l x => erase key x l) l

theorem mem_eraseAll {xs : List α} : y ∈ eraseAll key xs l ↔ y ∈ l ∧ ∀ x ∈ xs, key y ≠ key x := by
  induction xs generalizing l with
  | nil => simp [eraseAll]
  | cons x xs ih =>
    have hstep : eraseAll key (x :: xs) l = eraseAll key xs (erase key x l) := rfl
    rw [hstep, ih, mem_erase, List.forall_mem_cons, and_assoc]

theorem eraseAll_sublist {xs : List α} : (eraseAll key xs l).Sublist l := by
  induction xs generalizing l with
  | nil => exact List.Sublist.refl l
  | cons x xs ih => exact ih.trans List.filter_sublist

/-- Erasing some references takes out no others exactly when no other member has one of their
keys. -/
theorem eraseAll_spares_iff [DecidableEq α] {xs : List α} (h : Sorted key l) :
    eraseAll key xs l = l.filter (fun y => y ∉ xs) ↔
      ∀ y ∈ l, y ∉ xs → ∀ x ∈ xs, key y ≠ key x := by
  constructor
  · intro he y hy hxs
    have hm : y ∈ l.filter (fun y => y ∉ xs) := by simp [hy, hxs]
    rw [← he, mem_eraseAll] at hm
    exact hm.2
  · intro hfree
    have hsub : (l.filter (fun y => y ∉ xs)).Sublist l := List.filter_sublist
    have hlt : (eraseAll key xs l).Pairwise fun a b => key a < key b := h.sublist eraseAll_sublist
    refine List.Perm.eq_of_pairwise ?_ hlt (h.sublist hsub) ?_
    · intro a b _ _ hab hba
      exact absurd hba hab.asymm
    · rw [List.perm_ext_iff_of_nodup (h.nodup.sublist eraseAll_sublist) (h.nodup.sublist hsub)]
      intro y
      rw [mem_eraseAll, List.mem_filter, decide_eq_true_eq]
      refine and_congr_right fun hy => ⟨fun hk hmem => hk y hmem rfl, hfree y hy⟩

end KeyedSet
