import Mathlib.Data.List.Nodup
import Mathlib.Logic.Function.Basic
import Mathlib.Tactic.Common

/-!
Circular doubly linked lists through a head node: what the two pointers of every node represent, and
the pointer updates that put a node at the end and that take one out.
-/

/-- The two pointers of every node; `none` is the null pointer. -/
structure Links (ν : Type*) where
  next : ν → Option ν
  prev : ν → Option ν

namespace Links

variable {ν : Type*} {r r' : Links ν} {f : ν → Option ν} {head x y z : ν} {l l₁ l₂ : List ν}

/-- Following `f` from `x` visits exactly `l` before it comes to `y`. -/
def Follows (f : ν → Option ν) (x : ν) : List ν → ν → Prop
  | [], y => f x = some y
  | z :: l, y => f x = some z ∧ Follows f z l y

instance Follows.decidable [DecidableEq ν] (f : ν → Option ν) :
    (x : ν) → (l : List ν) → (y : ν) → Decidable (Follows f x l y)
  | x, [], y => inferInstanceAs (Decidable (f x = some y))
  | x, z :: l, y => @instDecidableAnd (f x = some z) (Follows f z l y) inferInstance
      (decidable f z l y)

/-- The nodes of `l` are linked both ways, in order, between `x` and `y`. -/
def Segment (r : Links ν) (x : ν) : List ν → ν → Prop
  | [], y => r.next x = some y ∧ r.prev y = some x
  | z :: l, y => (r.next x = some z ∧ r.prev z = some x) ∧ Segment r z l y

/-- The ring through `head` is `l`, and every other node has null pointers. -/
structure Represents (r : Links ν) (head : ν) (l : List ν) : Prop where
  nodup : (head :: l).Nodup
  ring : r.Segment head l head
  next_none : ∀ x, x ∉ head :: l → r.next x = none
  prev_none : ∀ x, x ∉ head :: l → r.prev x = none

theorem follows_append :
    Follows f x (l₁ ++ z :: l₂) y ↔ Follows f x l₁ z ∧ Follows f z l₂ y := by
  induction l₁ generalizing x with
  | nil => exact Iff.rfl
  | cons w l₁ ih => simp only [List.cons_append, Follows, ih, and_assoc]

theorem segment_append :
    r.Segment x (l₁ ++ z :: l₂) y ↔ r.Segment x l₁ z ∧ r.Segment z l₂ y := by
  induction l₁ generalizing x with
  | nil => exact Iff.rfl
  | cons w l₁ ih => simp only [List.cons_append, Segment, ih, and_assoc]

namespace Segment

theorem follows_next (h : r.Segment x l y) : Follows r.next x l y := by
  induction l generalizing x with
  | nil => exact h.1
  | cons z l ih => exact ⟨h.1.1, ih h.2⟩

theorem follows_prev (h : r.Segment x l y) : Follows r.prev y l.reverse x := by
  induction l generalizing x with
  | nil => exact h.2
  | cons z l ih =>
    rw [List.reverse_cons, follows_append]
    exact ⟨ih h.2, h.1.2⟩

/-- Every node of a segment has a node before it. -/
theorem prev_isSome (h : r.Segment x l y) : ∀ u ∈ l, (r.prev u).isSome := by
  induction l generalizing x with
  | nil =>
    intro u hu
    cases hu
  | cons z l ih =>
    intro u hu
    rcases List.mem_cons.mp hu with rfl | hu
    · rw [h.1.2]
      rfl
    · exact ih h.2 u hu

theorem congr (h : r.Segment x l y) (hnext : ∀ u ∈ x :: l, r'.next u = r.next u)
    (hprev : ∀ u ∈ l, r'.prev u = r.prev u) (hy : r'.prev y = r.prev y) : r'.Segment x l y := by
  induction l generalizing x with
  | nil => exact ⟨(hnext x List.mem_cons_self).trans h.1, hy.trans h.2⟩
  | cons z l ih =>
    refine ⟨⟨?_, ?_⟩, ih h.2 ?_ ?_⟩
    · exact (hnext x List.mem_cons_self).trans h.1.1
    · exact (hprev z List.mem_cons_self).trans h.1.2
    · intro u hu
      exact hnext u (List.mem_cons_of_mem _ hu)
    · intro u hu
      exact hprev u (List.mem_cons_of_mem _ hu)

/-- The last node of a segment can be linked to another end. -/
theorem retarget (h : r.Segment x l y) (hn : (x :: l).Nodup) : ∃ p ∈ x :: l, r.prev y = some p ∧
    ∀ (r' : Links ν) (z : ν), (∀ u ∈ x :: l, u ≠ p → r'.next u = r.next u) →
      (∀ u ∈ l, r'.prev u = r.prev u) → r'.next p = some z → r'.prev z = some p →
      r'.Segment x l z := by
  induction l generalizing x with
  | nil =>
    refine ⟨x, List.mem_cons_self, h.2, ?_⟩
    intro r' z _ _ hp hz
    exact ⟨hp, hz⟩
  | cons w l ih =>
    obtain ⟨p, hmem, hy, hre⟩ := ih h.2 (List.nodup_cons.mp hn).2
    have hxp : x ≠ p := by
      rintro rfl
      exact (List.nodup_cons.mp hn).1 hmem
    refine ⟨p, List.mem_cons_of_mem _ hmem, hy, ?_⟩
    intro r' z hnext hprev hp hz
    refine ⟨⟨?_, ?_⟩, hre r' z ?_ ?_ hp hz⟩
    · exact (hnext x List.mem_cons_self hxp).trans h.1.1
    · exact (hprev w List.mem_cons_self).trans h.1.2
    · intro u hu
      exact hnext u (List.mem_cons_of_mem _ hu)
    · intro u hu
      exact hprev u (List.mem_cons_of_mem _ hu)

end Segment

section Updates

variable [DecidableEq ν]

def setNext (r : Links ν) (x : ν) (y : Option ν) : Links ν :=
  { r with next := Function.update r.next x y }

def setPrev (r : Links ν) (x : ν) (y : Option ν) : Links ν :=
  { r with prev := Function.update r.prev x y }

@[simp] theorem next_setNext (u : ν) (o : Option ν) :
    (r.setNext x o).next u = if u = x then o else r.next u := by
  simp [setNext, Function.update_apply]

@[simp] theorem prev_setPrev (u : ν) (o : Option ν) :
    (r.setPrev x o).prev u = if u = x then o else r.prev u := by
  simp [setPrev, Function.update_apply]

@[simp] theorem prev_setNext (o : Option ν) : (r.setNext x o).prev = r.prev := rfl
@[simp] theorem next_setPrev (o : Option ν) : (r.setPrev x o).next = r.next := rfl

end Updates

namespace Represents

variable [DecidableEq ν]

/-- A head linked to itself is the empty ring. -/
theorem empty : (Links.mk (fun x => if x = head then some head else none)
    (fun x => if x = head then some head else none)).Represents head [] where
  nodup := List.nodup_singleton head
  ring := ⟨if_pos rfl, if_pos rfl⟩
  next_none x hx := if_neg (by simpa using hx)
  prev_none x hx := if_neg (by simpa using hx)

theorem prev_isSome_iff (h : r.Represents head l) (hx : x ≠ head) :
    (r.prev x).isSome ↔ x ∈ l := by
  constructor
  · intro hs
    by_contra hxl
    rw [h.prev_none x (by simp [hx, hxl])] at hs
    cases hs
  · exact h.ring.prev_isSome x

/-- A node put between the last node and the head. -/
theorem push (h : r.Represents head l) (hx : x ∉ head :: l) : ∃ p, r.prev head = some p ∧ p ≠ x ∧
    ((((r.setNext x (some head)).setPrev x (some p)).setNext p (some x)).setPrev head
      (some x)).Represents head (l ++ [x]) := by
  obtain ⟨p, hmem, hp, hre⟩ := h.ring.retarget h.nodup
  have hxh := List.ne_of_not_mem_cons hx
  have hxl := List.not_mem_of_not_mem_cons hx
  obtain ⟨hhl, hl⟩ := List.nodup_cons.mp h.nodup
  have hpx : p ≠ x := by
    rintro rfl
    exact hx hmem
  refine ⟨p, hp, hpx, ?_, ?_, ?_, ?_⟩
  · rw [← List.cons_append, List.nodup_append]
    refine ⟨h.nodup, List.nodup_singleton x, ?_⟩
    intro a ha b hb
    rw [List.mem_singleton.mp hb]
    rintro rfl
    exact hx ha
  · refine segment_append.mpr ⟨hre _ x ?_ ?_ ?_ ?_, ?_, ?_⟩
    · intro u hu hup
      have hux : u ≠ x := ne_of_mem_of_not_mem hu hx
      simp [hup, hux]
    · intro u hu
      have hux : u ≠ x := ne_of_mem_of_not_mem hu hxl
      have huh : u ≠ head := ne_of_mem_of_not_mem hu hhl
      simp [hux, huh]
    · simp
    · simp [hxh]
    · simp [hpx.symm]
    · simp
  · intro u hu
    simp only [List.mem_cons, List.mem_append, List.not_mem_nil, or_false, not_or] at hu
    have hup : u ≠ p := by
      rintro rfl
      rcases List.mem_cons.mp hmem with rfl | hul
      · exact hu.1 rfl
      · exact hu.2.1 hul
    simpa [hup, hu.2.2] using h.next_none u (by simp [hu.1, hu.2.1])
  · intro u hu
    simp only [List.mem_cons, List.mem_append, List.not_mem_nil, or_false, not_or] at hu
    simpa [hu.1, hu.2.2] using h.prev_none u (by simp [hu.1, hu.2.1])

/-- A node taken out, wherever it is, by linking its two neighbours. -/
theorem unlink (h : r.Represents head (l₁ ++ x :: l₂)) : ∃ p n, r.prev x = some p ∧
    r.next x = some n ∧ p ≠ x ∧ n ≠ x ∧
    ((((r.setPrev n (some p)).setNext p (some n)).setPrev x none).setNext x none).Represents head
      (l₁ ++ l₂) := by
  obtain ⟨hseg₁, hseg₂⟩ := segment_append.mp h.ring
  have hn := h.nodup
  rw [List.nodup_cons, List.nodup_append, List.nodup_cons] at hn
  obtain ⟨hhead, hl₁, ⟨hxl₂, hl₂⟩, hdisj⟩ := hn
  simp only [List.mem_append, List.mem_cons, not_or] at hhead
  obtain ⟨hhl₁, hhx, hhl₂⟩ := hhead
  have hxl₁ : x ∉ l₁ := fun hx => hdisj x hx x List.mem_cons_self rfl
  obtain ⟨p, hmem, hp, hre⟩ := hseg₁.retarget (List.nodup_cons.mpr ⟨hhl₁, hl₁⟩)
  have hpx : p ≠ x := by
    rintro rfl
    rcases List.mem_cons.mp hmem with rfl | hpl
    · exact hhx rfl
    · exact hxl₁ hpl
  have hnodup : (head :: (l₁ ++ l₂)).Nodup := by
    rw [List.nodup_cons, List.nodup_append]
    refine ⟨by simp [hhl₁, hhl₂], hl₁, hl₂, ?_⟩
    intro a ha b hb
    exact hdisj a ha b (List.mem_cons_of_mem _ hb)
  -- the node after `x` is the head or the first of `l₂`
  obtain ⟨n, hnx, hnmem, hnext, hseg⟩ : ∃ n, n ≠ x ∧ n ∈ head :: l₂ ∧ r.next x = some n ∧
      ∀ r' : Links ν, (∀ u ∈ head :: l₁, u ≠ p → r'.next u = r.next u) →
        (∀ u ∈ l₂, r'.next u = r.next u) →
        (∀ u, u ≠ n → u ≠ x → r'.prev u = r.prev u) → r'.next p = some n → r'.prev n = some p →
        r'.Segment head (l₁ ++ l₂) head := by
    cases l₂ with
    | nil =>
      refine ⟨head, hhx, List.mem_cons_self, hseg₂.1, ?_⟩
      intro r' hnext₁ _ hprev hpn hnp
      rw [List.append_nil]
      refine hre r' head hnext₁ ?_ hpn hnp
      intro u hu
      exact hprev u (ne_of_mem_of_not_mem hu hhl₁) (ne_of_mem_of_not_mem hu hxl₁)
    | cons n l₂ =>
      obtain ⟨hnl₂, -⟩ := List.nodup_cons.mp hl₂
      have hnl₁ : n ∉ l₁ := fun hm =>
        hdisj n hm n (List.mem_cons_of_mem _ List.mem_cons_self) rfl
      have hnx : n ≠ x := by
        rintro rfl
        exact hxl₂ List.mem_cons_self
      have hhn : head ≠ n := by
        rintro rfl
        exact hhl₂ List.mem_cons_self
      refine ⟨n, hnx, List.mem_cons_of_mem _ List.mem_cons_self, hseg₂.1.1, ?_⟩
      intro r' hnext₁ hnext₂ hprev hpn hnp
      refine segment_append.mpr ⟨hre r' n hnext₁ ?_ hpn hnp, hseg₂.2.congr hnext₂ ?_ ?_⟩
      · intro u hu
        exact hprev u (ne_of_mem_of_not_mem hu hnl₁) (ne_of_mem_of_not_mem hu hxl₁)
      · intro u hu
        refine hprev u (ne_of_mem_of_not_mem hu hnl₂) ?_
        exact ne_of_mem_of_not_mem (List.mem_cons_of_mem _ hu) hxl₂
      · exact hprev head hhn hhx
  refine ⟨p, n, hp, hnext, hpx, hnx, hnodup, hseg _ ?_ ?_ ?_ ?_ ?_, ?_, ?_⟩
  · intro u hu hup
    have hux : u ≠ x := by
      rintro rfl
      rcases List.mem_cons.mp hu with rfl | hul
      · exact hhx rfl
      · exact hxl₁ hul
    simp [hup, hux]
  · intro u hu
    have hux : u ≠ x := ne_of_mem_of_not_mem hu hxl₂
    have hup : u ≠ p := by
      rintro rfl
      rcases List.mem_cons.mp hmem with rfl | hul
      · exact hhl₂ hu
      · exact hdisj u hul u (List.mem_cons_of_mem _ hu) rfl
    simp [hup, hux]
  · intro u hun hux
    simp [hun, hux]
  · simp [hpx]
  · simp [hnx]
  · intro u hu
    by_cases hux : u = x
    · simp [hux]
    · have hup : u ≠ p := by
        rintro rfl
        rcases List.mem_cons.mp hmem with rfl | hul
        · exact hu List.mem_cons_self
        · exact hu (List.mem_cons_of_mem _ (List.mem_append_left _ hul))
      simp only [next_setNext, next_setPrev, if_neg hux, if_neg hup]
      refine h.next_none u fun hmem' => hu ?_
      simpa [hux] using hmem'
  · intro u hu
    by_cases hux : u = x
    · simp [hux]
    · have hun : u ≠ n := by
        rintro rfl
        rcases List.mem_cons.mp hnmem with rfl | hul
        · exact hu List.mem_cons_self
        · exact hu (List.mem_cons_of_mem _ (List.mem_append_right _ hul))
      simp only [prev_setNext, prev_setPrev, if_neg hux, if_neg hun]
      refine h.prev_none u fun hmem' => hu ?_
      simpa [hux] using hmem'

end Represents

end Links
