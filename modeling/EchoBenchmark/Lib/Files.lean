import Mathlib.Data.List.Count
import Mathlib.Logic.Function.Basic
import Mathlib.Tactic.Common

/-! Named files of entries: renaming, creation, appending, and where an entry is. -/

/-- The content of every name; `none` is no file. -/
abbrev Files (ν ρ : Type*) := ν → Option (List ρ)

namespace Files

variable {ν ρ : Type*} {f : Files ν ρ} {a b c : ν} {x y : ρ} {R : ρ → ρ → Prop}

/-- `x` is in file `a` alone, and there once. -/
structure Once [DecidableEq ρ] (f : Files ν ρ) (x : ρ) (a : ν) : Prop where
  count : ∃ l, f a = some l ∧ l.count x = 1
  alone : ∀ b l, f b = some l → x ∈ l → b = a

/-- `x` is in no file. -/
def Absent (f : Files ν ρ) (x : ρ) : Prop := ∀ a l, f a = some l → x ∉ l

/-- Any two entries of one file are related. -/
def Within (f : Files ν ρ) (R : ρ → ρ → Prop) : Prop :=
  ∀ a l, f a = some l → ∀ x ∈ l, ∀ y ∈ l, R x y

section Operations

variable [DecidableEq ν]

/-- What was in `b` is lost. -/
def rename (f : Files ν ρ) (a b : ν) : Files ν ρ :=
  if a = b then f else Function.update (Function.update f b (f a)) a none

def create (f : Files ν ρ) (a : ν) : Files ν ρ :=
  match f a with
  | some _ => f
  | none => Function.update f a (some [])

def append (f : Files ν ρ) (a : ν) (x : ρ) : Files ν ρ :=
  Function.update f a ((f a).map (· ++ [x]))

theorem rename_from (h : a ≠ b) : f.rename a b a = none := by
  simp [rename, h]

theorem rename_to (h : a ≠ b) : f.rename a b b = f a := by
  simp [rename, h, h.symm]

theorem rename_other (ha : c ≠ a) (hb : c ≠ b) : f.rename a b c = f c := by
  unfold rename
  split
  · rfl
  · simp [ha, hb]

theorem create_of_isSome (h : (f a).isSome) : f.create a = f := by
  obtain ⟨l, hl⟩ := Option.isSome_iff_exists.mp h
  simp [create, hl]

theorem create_of_none (h : f a = none) : f.create a = Function.update f a (some []) := by
  simp [create, h]

theorem create_self : (f.create a a).isSome := by
  cases hf : f a with
  | some l => simp [create_of_isSome, hf]
  | none => simp [create_of_none hf]

theorem create_other (h : b ≠ a) : f.create a b = f b := by
  cases hf : f a with
  | some l => rw [create_of_isSome (by simp [hf])]
  | none => simp [create_of_none hf, h]

/-- A created file is the old one, or empty. -/
theorem mem_create {l : List ρ} (h : f.create a b = some l) : f b = some l ∨ l = [] := by
  by_cases hba : b = a
  · subst hba
    cases hb : f b with
    | some l' =>
      rw [create_of_isSome (by simp [hb]), hb] at h
      exact .inl h
    | none =>
      right
      simpa [create_of_none hb] using h.symm
  · rw [create_other hba] at h
    exact .inl h

theorem append_self {l : List ρ} (h : f a = some l) : f.append a x a = some (l ++ [x]) := by
  simp [append, h]

theorem append_other (h : b ≠ a) : f.append a x b = f b := by
  simp [append, h]

/-- A file after an append is an old one, or the one with the new entry. -/
theorem mem_append {l : List ρ} (h : f.append a x b = some l) :
    (b ≠ a ∧ f b = some l) ∨ b = a ∧ ∃ l', f a = some l' ∧ l = l' ++ [x] := by
  by_cases hba : b = a
  · subst hba
    cases hf : f b with
    | none => simp [append, hf] at h
    | some l' =>
      rw [append_self hf] at h
      exact .inr ⟨rfl, l', rfl, (Option.some.inj h).symm⟩
  · rw [append_other hba] at h
    exact .inl ⟨hba, h⟩

/-- A renamed file is one that was there. -/
theorem mem_rename {l : List ρ} (h : f.rename a b c = some l) :
    f c = some l ∧ (c = a → a = b) ∨ f a = some l ∧ c = b ∧ a ≠ b := by
  by_cases hab : a = b
  · left
    refine ⟨?_, fun _ => hab⟩
    simpa [rename, hab] using h
  · by_cases hca : c = a
    · subst hca
      rw [rename_from hab] at h
      cases h
    · by_cases hcb : c = b
      · subst hcb
        rw [rename_to hab] at h
        exact .inr ⟨h, rfl, hab⟩
      · rw [rename_other hca hcb] at h
        exact .inl ⟨h, fun hc => (hca hc).elim⟩

namespace Once

variable [DecidableEq ρ]

/-- Entries go where their file goes. -/
theorem rename_from (h : f.Once x a) (hab : a ≠ b) : (f.rename a b).Once x b where
  count := by
    rw [rename_to hab]
    exact h.count
  alone c l hc hx := by
    rcases mem_rename hc with ⟨hc, hca⟩ | ⟨-, hcb, -⟩
    · exact (hab (hca (h.alone c l hc hx))).elim
    · exact hcb

/-- The other files that no name takes stay. -/
theorem rename_other (h : f.Once x c) (ha : c ≠ a) (hb : c ≠ b) : (f.rename a b).Once x c where
  count := by
    rw [Files.rename_other ha hb]
    exact h.count
  alone d l hd hx := by
    rcases mem_rename hd with ⟨hd, -⟩ | ⟨hl, -, -⟩
    · exact h.alone d l hd hx
    · exact (ha (h.alone a l hl hx).symm).elim

theorem create (h : f.Once x c) : (f.create a).Once x c where
  count := by
    obtain ⟨l, hl, hcount⟩ := h.count
    refine ⟨l, ?_, hcount⟩
    by_cases hca : c = a
    · subst hca
      rw [create_of_isSome (by simp [hl])]
      exact hl
    · rw [create_other hca]
      exact hl
  alone d l hd hx := by
    rcases mem_create hd with hd | rfl
    · exact h.alone d l hd hx
    · cases hx

theorem append_other (h : f.Once x c) (hxy : x ≠ y) : (f.append a y).Once x c where
  count := by
    obtain ⟨l, hl, hcount⟩ := h.count
    by_cases hca : c = a
    · subst hca
      refine ⟨l ++ [y], append_self hl, ?_⟩
      rw [List.count_append, hcount, List.count_singleton, if_neg]
      simpa using hxy.symm
    · exact ⟨l, (Files.append_other hca).trans hl, hcount⟩
  alone d l hd hx := by
    rcases mem_append hd with ⟨-, hd⟩ | ⟨rfl, l', hl', rfl⟩
    · exact h.alone d l hd hx
    · rcases List.mem_append.mp hx with hx | hx
      · exact h.alone d l' hl' hx
      · exact (hxy (List.mem_singleton.mp hx)).elim

end Once

namespace Absent

theorem rename (h : f.Absent x) : (f.rename a b).Absent x := by
  intro c l hc
  rcases mem_rename hc with ⟨hc, -⟩ | ⟨ha, -, -⟩
  · exact h c l hc
  · exact h a l ha

theorem create (h : f.Absent x) : (f.create a).Absent x := by
  intro c l hc
  rcases mem_create hc with hc | rfl
  · exact h c l hc
  · exact List.not_mem_nil

theorem append (h : f.Absent x) (hxy : x ≠ y) : (f.append a y).Absent x := by
  intro c l hc hx
  rcases mem_append hc with ⟨-, hc⟩ | ⟨rfl, l', hl', rfl⟩
  · exact h c l hc hx
  · rcases List.mem_append.mp hx with hx | hx
    · exact h c l' hl' hx
    · exact hxy (List.mem_singleton.mp hx)

/-- A new entry is where it was put. -/
theorem once_append [DecidableEq ρ] (h : f.Absent x) (ha : (f a).isSome) :
    (f.append a x).Once x a where
  count := by
    obtain ⟨l, hl⟩ := Option.isSome_iff_exists.mp ha
    refine ⟨l ++ [x], append_self hl, ?_⟩
    rw [List.count_append, List.count_eq_zero_of_not_mem (h a l hl)]
    simp
  alone c l hc hx := by
    by_contra hca
    rcases mem_append hc with ⟨-, hc⟩ | ⟨hc, -⟩
    · exact h c l hc hx
    · exact hca hc

end Absent

namespace Within

theorem rename (h : f.Within R) : (f.rename a b).Within R := by
  intro c l hc
  rcases mem_rename hc with ⟨hc, -⟩ | ⟨ha, -, -⟩
  · exact h c l hc
  · exact h a l ha

theorem create (h : f.Within R) : (f.create a).Within R := by
  intro c l hc
  rcases mem_create hc with hc | rfl
  · exact h c l hc
  · intro x hx
    cases hx

theorem append (h : f.Within R) (hy : R y y) (hxy : ∀ l, f a = some l → ∀ x ∈ l, R x y ∧ R y x) :
    (f.append a y).Within R := by
  intro c l hc
  rcases mem_append hc with ⟨-, hc⟩ | ⟨rfl, l', hl', rfl⟩
  · exact h c l hc
  · intro x hx z hz
    rcases List.mem_append.mp hx with hx | hx <;> rcases List.mem_append.mp hz with hz | hz
    · exact h c l' hl' x hx z hz
    · rw [List.mem_singleton.mp hz]
      exact (hxy l' hl' x hx).1
    · rw [List.mem_singleton.mp hx]
      exact (hxy l' hl' z hz).2
    · rw [List.mem_singleton.mp hx, List.mem_singleton.mp hz]
      exact hy

end Within

end Operations

end Files
