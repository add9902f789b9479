import EchoBenchmark.Pool.Ownership

/-!
A failed `malloc` is not noticed: its `NULL` goes to the list of chunks, and in the build with
`ENABLE_CHUNK` the slots carved from it go to the free list.
-/

namespace EchoBenchmark.Pool

variable {b : Build} {size : Nat} {s s' : State} {malloc ptr : Addr}

/-- A failed call returned `NULL` and left the pool as it was, and what calls returned lies in
blocks that `malloc` returned. -/
structure Intact (s : State) : Prop where
  failed : ∀ f ∈ s.failures, f.ret = NULL ∧ f.after = f.before
  inside : ∀ p ∈ s.returned, p ≠ NULL → ∃ block ∈ s.blocks, Block.Inside ⟨p, 1⟩ block

theorem failures_acquired {p : PoolBase} {ret : Addr} (hm : s.mallocs) (hnull : malloc = NULL) :
    (s.acquired b size malloc p ret).failures = ⟨s.pool, p, ret⟩ :: s.failures :=
  if_pos ⟨hm, hnull⟩

/-- A failed call returned `NULL`, but put it in the list of chunks. -/
theorem failures_step {a : Action} (h : ∀ f ∈ s.failures, f.ret = NULL ∧
      f.after.chunks = NULL :: f.before.chunks) (hs : s.step b size a = some s') :
    ∀ f ∈ s'.failures, f.ret = NULL ∧ f.after.chunks = NULL :: f.before.chunks := by
  cases a with
  | acquire malloc =>
    cases acquires_of_step hs with
    | reuses hfree he =>
      have hm : ¬ s.mallocs := by simp [State.mallocs, hfree]
      rw [he]
      simpa [State.acquired, hm] using h
    | carves hm _ he =>
      rw [he]
      by_cases hnull : malloc = NULL
      · intro f hf
        rw [failures_acquired hm hnull] at hf
        rcases List.mem_cons.mp hf with rfl | hf
        · exact ⟨hnull, congrArg (· :: s.pool.chunks) hnull⟩
        · exact h f hf
      · simpa [State.acquired, hnull] using h
    | overflows _ he =>
      rw [he]
      exact h
  | release ptr =>
    obtain ⟨-, rfl⟩ := released_of_step hs
    exact h

theorem failures_of_reachable (hr : (pool b size).Reachable (mayFail b size) s) :
    ∀ f ∈ s.failures, f.ret = NULL ∧ f.after.chunks = NULL :: f.before.chunks := by
  apply hr.invariant (I := fun s => ∀ f ∈ s.failures, f.ret = NULL ∧
    f.after.chunks = NULL :: f.before.chunks)
  · rintro s₀ rfl f hf
    cases hf
  · intro s₀ a s₁ _ h _ hs
    exact failures_step h hs

/-- Failures stay in the record. -/
theorem no_failures_of_step {a : Action} (hs : s.step b size a = some s')
    (hno : s'.failures = []) : s.failures = [] := by
  cases a with
  | acquire malloc =>
    cases acquires_of_step hs with
    | reuses hfree he =>
      have hm : ¬ s.mallocs := by simp [State.mallocs, hfree]
      rw [he] at hno
      simpa [State.acquired, hm] using hno
    | carves hm _ he =>
      rw [he] at hno
      by_cases hnull : malloc = NULL
      · rw [failures_acquired hm hnull] at hno
        cases hno
      · simpa [State.acquired, hnull] using hno
    | overflows _ he =>
      rw [he] at hno
      exact hno
  | release ptr =>
    obtain ⟨-, rfl⟩ := released_of_step hs
    exact hno

/-- A step that adds no failure is one whose `malloc` succeeds. -/
theorem succeeds_of_no_failures {a : Action} (hfit : b.Fits size) (hg : mayFail b size s a)
    (hs : s.step b size a = some s') (hno : s'.failures = []) : succeeds b size s a := by
  cases a with
  | acquire malloc =>
    intro hm
    rcases hg hm with hnull | hfresh
    · cases acquires_of_step hs with
      | reuses hfree he => simp [State.mallocs, hfree] at hm
      | carves _ _ he =>
        rw [he, failures_acquired hm hnull] at hno
        cases hno
      | overflows hover _ => exact (hover hfit).elim
    · exact hfresh
  | release ptr => trivial

theorem reachable_succeeds (hfit : b.Fits size)
    (hr : (pool b size).Reachable (mayFail b size) s) (hno : s.failures = []) :
    (pool b size).Reachable (succeeds b size) s := by
  revert hno
  apply hr.invariant (I := fun s => s.failures = [] →
    (pool b size).Reachable (succeeds b size) s)
  · rintro s₀ hi _
    exact Machine.Reachable.start hi
  · intro s₀ a s₁ _ ih hg hs hno
    exact (ih (no_failures_of_step hs hno)).step (succeeds_of_no_failures hfit hg hs hno) hs

/-- A history in which some `malloc` fails does not leave the pool intact; one in which none fails
does, where the size fits. -/
theorem intact_iff_no_failure (hsize : 0 < size)
    (hr : (pool b size).Reachable (mayFail b size) s) :
    (Intact s → s.failures = []) ∧ (b.Fits size → (Intact s ↔ s.failures = [])) := by
  have hpoisoned : Intact s → s.failures = [] := by
    intro hi
    apply List.eq_nil_iff_forall_not_mem.mpr
    intro f hf
    have hc := (failures_of_reachable hr f hf).2
    rw [(hi.failed f hf).2] at hc
    exact absurd (congrArg List.length hc) (by simp)
  refine ⟨hpoisoned, fun hfit => ⟨hpoisoned, fun hno => ?_⟩⟩
  have ht := tiled_of_reachable hsize hfit (reachable_succeeds hfit hr hno)
  refine ⟨?_, ?_⟩
  · intro f hf
    rw [hno] at hf
    cases hf
  · intro p hp _
    obtain ⟨block, hb, -, hin⟩ := ht.slot_inside hfit (ht.returned p hp)
    refine ⟨block, hb, ?_⟩
    unfold Block.Inside at hin ⊢
    dsimp only at hin ⊢
    omega

/-- The one `malloc` of the history fails, and the next call is served from what it left. -/
def oneFailure : List Action := [.acquire NULL, .acquire 4096]

/-- Two elements of a block, of which the first is released and handed out again, and a third. -/
def handedOutAgain : List Action :=
  [.acquire 4096, .acquire NULL, .release 4096, .acquire NULL, .acquire NULL]

theorem intact_iff_no_failure_handedOutAgain :
    ∃ s, (pool defaultBuild 16).Reachable (mayFail defaultBuild 16) s ∧ s.failures = [] ∧
      s.returned = [5664, 4096, 5680, 4096] ∧ Intact s := by
  obtain ⟨s, hr, hf⟩ := Machine.exists_of_exec (M := pool defaultBuild 16)
    (p := mayFail defaultBuild 16) (s := .initial) (l := handedOutAgain)
    (f := fun s => (s.failures, s.returned)) (b := ([], [5664, 4096, 5680, 4096])) rfl
    (by decide)
  obtain ⟨hno, hret⟩ := Prod.mk.inj hf
  exact ⟨s, hr, hno, hret, ((intact_iff_no_failure (by decide) hr).2 (by decide)).mpr hno⟩

/-- A pool of two elements a block hands out address 16 after its only `malloc` has failed. -/
theorem hands_out_a_bad_pointer :
    ∃ s, (pool (.chunk 2 (by decide)) 16).Reachable (mayFail (.chunk 2 (by decide)) 16) s ∧
      s.blocks = [] ∧ s.returned = [16, NULL] ∧ s.pool.chunks = [NULL] ∧ ¬ Intact s := by
  obtain ⟨s, hr, hf⟩ := Machine.exists_of_exec (M := pool (.chunk 2 (by decide)) 16)
    (p := mayFail (.chunk 2 (by decide)) 16) (s := .initial) (l := oneFailure)
    (f := fun s => (s.blocks, s.returned, s.pool.chunks)) (b := ([], [16, NULL], [NULL])) rfl
    (by decide)
  obtain ⟨hb, hf⟩ := Prod.mk.inj hf
  obtain ⟨hret, hc⟩ := Prod.mk.inj hf
  refine ⟨s, hr, hb, hret, hc, ?_⟩
  intro hi
  obtain ⟨block, hmem, -⟩ := hi.inside 16 (by rw [hret]; exact List.mem_cons_self) (by decide)
  rw [hb] at hmem
  cases hmem

end EchoBenchmark.Pool
