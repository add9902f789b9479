import Mathlib.Tactic.Common

/-!
Resources that are acquired, handed on and released. As long as each of these is done with what is
there, a resource has one owner, unless it was lost when it was acquired.
-/

namespace Custody

variable {ι ρ : Type*}

/-- Which resources are there, which of them nobody can reach any more, and who has which. -/
structure Books (ι ρ : Type*) where
  there : ρ → Prop
  lost : ρ → Prop
  holds : ι → Option ρ

/-- Each resource that is there has one owner or is lost, and nothing else has either. -/
structure Kept (b : Books ι ρ) : Prop where
  owned : ∀ r, b.there r ↔ (∃ i, b.holds i = some r) ∨ b.lost r
  sole : ∀ i j r, b.holds i = some r → b.holds j = some r → i = j
  apart : ∀ i r, b.holds i = some r → ¬ b.lost r

/-- What one step does with the resources. -/
inductive Deal (b b' : Books ι ρ) : Prop
  | keeps : (∀ q, b'.there q ↔ b.there q) → (∀ q, b'.lost q ↔ b.lost q) →
      (∀ j, b'.holds j = b.holds j) → Deal b b'
  | acquires {i : ι} {r : ρ} : ¬ b.there r → b.holds i = none →
      (∀ q, b'.there q ↔ q = r ∨ b.there q) → (∀ q, b'.lost q ↔ b.lost q) →
      b'.holds i = some r → (∀ j, j ≠ i → b'.holds j = b.holds j) → Deal b b'
  | hands {i j : ι} {r : ρ} : b.holds i = some r → b.holds j = none →
      (∀ q, b'.there q ↔ b.there q) → (∀ q, b'.lost q ↔ b.lost q) → b'.holds i = none →
      b'.holds j = some r → (∀ k, k ≠ i → k ≠ j → b'.holds k = b.holds k) → Deal b b'
  | releases {i : ι} {r : ρ} : b.holds i = some r → (∀ q, b'.there q ↔ q ≠ r ∧ b.there q) →
      (∀ q, b'.lost q ↔ q ≠ r ∧ b.lost q) → b'.holds i = none →
      (∀ j, j ≠ i → b'.holds j = b.holds j) → Deal b b'
  | loses {r : ρ} : ¬ b.there r → (∀ q, b'.there q ↔ q = r ∨ b.there q) →
      (∀ q, b'.lost q ↔ q = r ∨ b.lost q) → (∀ j, b'.holds j = b.holds j) → Deal b b'

namespace Kept

variable {b b' : Books ι ρ} {i j : ι} {q r : ρ}

theorem there_of_holds (hk : Kept b) (hi : b.holds i = some r) : b.there r :=
  (hk.owned r).mpr (.inl ⟨i, hi⟩)

theorem there_of_lost (hk : Kept b) (hr : b.lost r) : b.there r := (hk.owned r).mpr (.inr hr)

/-- Owners are compared only where they differ from before. -/
theorem of_changed (hk : Kept b) (hown : ∀ q, b'.there q ↔ (∃ k, b'.holds k = some q) ∨ b'.lost q)
    (hlost : ∀ q k, b'.holds k = some q → b.holds k = some q → b'.lost q → b.lost q)
    (hnew : ∀ q k, b'.holds k = some q → b.holds k ≠ some q →
      (∀ l, b'.holds l = some q → l = k) ∧ ¬ b'.lost q) : Kept b' where
  owned := hown
  sole k l q hk' hl := by
    by_cases hold : b.holds k = some q
    · by_cases hold' : b.holds l = some q
      · exact hk.sole k l q hold hold'
      · exact (hnew q l hl hold').1 k hk'
    · exact ((hnew q k hk' hold).1 l hl).symm
  apart k q hk' hq := by
    by_cases hold : b.holds k = some q
    · exact hk.apart k q hold (hlost q k hk' hold hq)
    · exact (hnew q k hk' hold).2 hq

theorem keeps (hk : Kept b) (hthere : ∀ q, b'.there q ↔ b.there q)
    (hlost : ∀ q, b'.lost q ↔ b.lost q) (hholds : ∀ j, b'.holds j = b.holds j) : Kept b' := by
  refine hk.of_changed (fun q => ?_) (fun q _ _ _ h => (hlost q).mp h) ?_
  · rw [hthere, hlost, hk.owned]
    simp only [hholds]
  · intro q k hk' hold
    exact (hold ((hholds k).symm.trans hk')).elim

theorem acquires (hk : Kept b) (hnew : ¬ b.there r) (hnone : b.holds i = none)
    (hthere : ∀ q, b'.there q ↔ q = r ∨ b.there q) (hlost : ∀ q, b'.lost q ↔ b.lost q)
    (hi : b'.holds i = some r) (hother : ∀ j, j ≠ i → b'.holds j = b.holds j) : Kept b' := by
  have hold : ∀ {q k}, b'.holds k = some q → k = i ∧ q = r ∨ b.holds k = some q := by
    intro q k hk'
    by_cases hki : k = i
    · subst hki
      exact .inl ⟨rfl, Option.some.inj (hk'.symm.trans hi)⟩
    · exact .inr ((hother k hki).symm.trans hk')
  refine hk.of_changed (fun q => ?_) (fun q _ _ _ h => (hlost q).mp h) ?_
  · rw [hthere, hlost, hk.owned]
    constructor
    · rintro (rfl | ⟨k, hk'⟩ | hq)
      · exact .inl ⟨i, hi⟩
      · have hki : k ≠ i := by
          rintro rfl
          rw [hnone] at hk'
          cases hk'
        exact .inl ⟨k, (hother k hki).trans hk'⟩
      · exact .inr hq
    · rintro (⟨k, hk'⟩ | hq)
      · rcases hold hk' with ⟨-, rfl⟩ | hk'
        · exact .inl rfl
        · exact .inr (.inl ⟨k, hk'⟩)
      · exact .inr (.inr hq)
  · intro q k hk' hnot
    rcases hold hk' with ⟨rfl, rfl⟩ | hk'
    · refine ⟨fun l hl => ?_, fun hq => hnew (hk.there_of_lost ((hlost q).mp hq))⟩
      rcases hold hl with ⟨rfl, -⟩ | hl
      · rfl
      · exact (hnew (hk.there_of_holds hl)).elim
    · exact (hnot hk').elim

theorem releases (hk : Kept b) (hi : b.holds i = some r)
    (hthere : ∀ q, b'.there q ↔ q ≠ r ∧ b.there q) (hlost : ∀ q, b'.lost q ↔ q ≠ r ∧ b.lost q)
    (hnone : b'.holds i = none) (hother : ∀ j, j ≠ i → b'.holds j = b.holds j) : Kept b' := by
  have hold : ∀ {q k}, b'.holds k = some q → k ≠ i ∧ b.holds k = some q := by
    intro q k hk'
    have hki : k ≠ i := by
      rintro rfl
      rw [hnone] at hk'
      cases hk'
    exact ⟨hki, (hother k hki).symm.trans hk'⟩
  refine hk.of_changed (fun q => ?_) (fun q _ _ _ h => ((hlost q).mp h).2) ?_
  · rw [hthere, hlost, hk.owned]
    constructor
    · rintro ⟨hne, ⟨k, hk'⟩ | hq⟩
      · have hki : k ≠ i := by
          rintro rfl
          exact hne (Option.some.inj (hk'.symm.trans hi))
        exact .inl ⟨k, (hother k hki).trans hk'⟩
      · exact .inr ⟨hne, hq⟩
    · rintro (⟨k, hk'⟩ | ⟨hne, hq⟩)
      · obtain ⟨hki, hk'⟩ := hold hk'
        refine ⟨?_, .inl ⟨k, hk'⟩⟩
        rintro rfl
        exact hki (hk.sole k i q hk' hi)
      · exact ⟨hne, .inr hq⟩
  · intro q k hk' hnot
    exact (hnot (hold hk').2).elim

/-- To hand a resource on is to release it and to acquire it again. -/
theorem hands (hk : Kept b) (hi : b.holds i = some r) (hj : b.holds j = none)
    (hthere : ∀ q, b'.there q ↔ b.there q) (hlost : ∀ q, b'.lost q ↔ b.lost q)
    (hi' : b'.holds i = none) (hj' : b'.holds j = some r)
    (hother : ∀ k, k ≠ i → k ≠ j → b'.holds k = b.holds k) : Kept b' := by
  classical
  have hji : j ≠ i := by
    rintro rfl
    rw [hj] at hi
    cases hi
  -- between the two nobody has it
  have hmid : Kept (⟨fun q => q ≠ r ∧ b.there q, fun q => q ≠ r ∧ b.lost q,
      fun k => if k = i then none else b.holds k⟩ : Books ι ρ) :=
    hk.releases hi (fun _ => Iff.rfl) (fun _ => Iff.rfl) (if_pos rfl) fun k hk' => if_neg hk'
  refine hmid.acquires (i := j) (r := r) (fun h => h.1 rfl) ((if_neg hji).trans hj) (fun q => ?_)
    (fun q => ?_) hj' fun k hkj => ?_
  · rw [hthere]
    by_cases hq : q = r
    · rw [hq]
      exact iff_of_true (hk.there_of_holds hi) (.inl rfl)
    · simp [hq]
  · rw [hlost]
    constructor
    · intro hq
      refine ⟨?_, hq⟩
      rintro rfl
      exact hk.apart i q hi hq
    · exact And.right
  · by_cases hki : k = i
    · rw [hki, hi']
      exact (if_pos rfl).symm
    · rw [hother k hki hkj]
      exact (if_neg hki).symm

theorem loses (hk : Kept b) (hnew : ¬ b.there r) (hthere : ∀ q, b'.there q ↔ q = r ∨ b.there q)
    (hlost : ∀ q, b'.lost q ↔ q = r ∨ b.lost q) (hholds : ∀ j, b'.holds j = b.holds j) :
    Kept b' := by
  refine hk.of_changed (fun q => ?_) (fun q k _ hold h => ?_) ?_
  · rw [hthere, hlost, hk.owned]
    simp only [hholds]
    exact or_left_comm
  · rcases (hlost q).mp h with rfl | hq
    · exact (hnew (hk.there_of_holds hold)).elim
    · exact hq
  · intro q k hk' hold
    exact (hold ((hholds k).symm.trans hk')).elim

/-- Every deal keeps the books. -/
theorem deal (hk : Kept b) (hd : Deal b b') : Kept b' := by
  cases hd with
  | keeps hthere hlost hholds => exact hk.keeps hthere hlost hholds
  | acquires hnew hnone hthere hlost hi hother =>
    exact hk.acquires hnew hnone hthere hlost hi hother
  | hands hi hj hthere hlost hi' hj' hother => exact hk.hands hi hj hthere hlost hi' hj' hother
  | releases hi hthere hlost hnone hother => exact hk.releases hi hthere hlost hnone hother
  | loses hnew hthere hlost hholds => exact hk.loses hnew hthere hlost hholds

end Kept

end Custody
