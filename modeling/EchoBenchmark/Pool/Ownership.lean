import EchoBenchmark.Pool.Basic

/-!
The pool hands out disjoint slots, and loses none, exactly when the size of its blocks stays in
`size_t` and its loop counter in `int`.
-/

namespace EchoBenchmark.Pool

variable {b : Build} {size : Nat} {s s' : State} {malloc ptr : Addr}

theorem Build.request_eq (h : b.Fits size) : b.request size = size * b.slots := by
  cases b with
  | plain => simp [request, slots]
  | chunk n _ => exact wrap_of_lt h.1

/-- What the pool promises about the pointers that are out. -/
structure Sound (b : Build) (size : Nat) (s : State) : Prop where
  defined : s.undefined = false
  apart : s.outstanding.Pairwise fun p q => Block.Apart ⟨p, size⟩ ⟨q, size⟩
  inside : ∀ p ∈ s.outstanding, ∃ block ∈ s.blocks, block.base ∈ s.pool.chunks ∧
    Block.Inside ⟨p, size⟩ block
  busy : ∀ p ∈ s.outstanding, p ∉ s.pool.free
  nodup : s.pool.free.Nodup
  counted : s.pool.freeSize + s.outstanding.length = s.pool.poolSize * b.slots

/-- The blocks lie apart, and each of their slots is either out or free, once. -/
structure Tiled (b : Build) (size : Nat) (s : State) : Prop where
  defined : s.undefined = false
  chunks : s.pool.chunks = s.blocks.map Block.base
  sized : ∀ block ∈ s.blocks, block.len = b.request size
  apart : s.blocks.Pairwise Block.Apart
  tiles : (s.outstanding ++ s.pool.free).Perm (Block.slots size b.slots s.pool.chunks)
  returned : ∀ p ∈ s.returned, p ∈ Block.slots size b.slots s.pool.chunks

namespace Tiled

theorem initial : Tiled b size State.initial where
  defined := rfl
  chunks := rfl
  sized block hb := by cases hb
  apart := List.Pairwise.nil
  tiles := List.Perm.refl []
  returned p hp := by cases hp

theorem reuse {ret : Addr} {free : List Addr} (h : Tiled b size s)
    (hfree : s.pool.free = ret :: free) :
    Tiled b size (s.acquired b size malloc { s.pool with free := free } ret) := by
  have hm : ¬ s.mallocs := by simp [State.mallocs, hfree]
  have htiles : (ret :: s.outstanding ++ free).Perm (Block.slots size b.slots s.pool.chunks) := by
    have ht := h.tiles
    rw [hfree] at ht
    exact List.perm_middle.symm.trans ht
  refine ⟨h.defined, ?_, ?_, ?_, htiles, ?_⟩
  · simpa [State.acquired, hm] using h.chunks
  · simpa [State.acquired, hm] using h.sized
  · simpa [State.acquired, hm] using h.apart
  · intro p hp
    rcases List.mem_cons.mp hp with rfl | hp
    · exact htiles.subset List.mem_cons_self
    · exact h.returned p hp

theorem carve {free : List Addr} (h : Tiled b size s) (hm : s.mallocs)
    (hfresh : Fresh b size s malloc)
    (hcut : malloc :: free.reverse = Block.cut size b.slots malloc) :
    Tiled b size (s.acquired b size malloc ⟨malloc :: s.pool.chunks, free⟩ malloc) := by
  obtain ⟨hnull, -, hapart⟩ := hfresh
  have hblocks : (s.acquired b size malloc ⟨malloc :: s.pool.chunks, free⟩ malloc).blocks =
      ⟨malloc, b.request size⟩ :: s.blocks := if_pos ⟨hm, hnull⟩
  have htiles : (malloc :: s.outstanding ++ free).Perm
      (Block.slots size b.slots (malloc :: s.pool.chunks)) := by
    have ht := h.tiles
    rw [show s.pool.free = [] from hm, List.append_nil] at ht
    rw [Block.slots_cons, ← hcut, List.cons_append, List.cons_append]
    refine List.Perm.cons _ ?_
    exact List.perm_append_comm.trans ((free.reverse_perm.symm).append ht)
  refine ⟨h.defined, ?_, ?_, ?_, htiles, ?_⟩
  · rw [hblocks]
    exact congrArg (malloc :: ·) h.chunks
  · rw [hblocks]
    intro block hb
    rcases List.mem_cons.mp hb with rfl | hb
    · rfl
    · exact h.sized block hb
  · rw [hblocks]
    exact List.pairwise_cons.mpr ⟨hapart, h.apart⟩
  · intro p hp
    rcases List.mem_cons.mp hp with rfl | hp
    · exact htiles.subset List.mem_cons_self
    · exact List.mem_append_right _ (h.returned p hp)

theorem release (h : Tiled b size s) (hp : ptr ∈ s.outstanding) :
    Tiled b size { s with
      pool := { s.pool with free := ptr :: s.pool.free }
      outstanding := s.outstanding.erase ptr } where
  defined := h.defined
  chunks := h.chunks
  sized := h.sized
  apart := h.apart
  tiles := by
    refine List.perm_middle.trans (List.Perm.trans ?_ h.tiles)
    exact (List.perm_cons_erase hp).symm.append_right _
  returned := h.returned

theorem step {a : Action} (h : Tiled b size s) (hsize : 0 < size) (hfit : b.Fits size)
    (hg : succeeds b size s a) (hs : s.step b size a = some s') : Tiled b size s' := by
  cases a with
  | acquire malloc =>
    cases acquires_of_step hs with
    | reuses hfree he =>
      rw [he]
      exact h.reuse hfree
    | carves hm hcut he =>
      rw [he]
      have hfresh := hg hm
      exact h.carve hm hfresh (hcut hfit hfresh.1 hsize hfresh.2.1)
    | overflows hno _ => exact (hno hfit).elim
  | release ptr =>
    obtain ⟨hp, rfl⟩ := released_of_step hs
    exact h.release hp

/-- All slots of the pool lie apart. -/
theorem slots_apart (h : Tiled b size s) (hfit : b.Fits size) :
    (Block.slots size b.slots s.pool.chunks).Pairwise
      fun p q => Block.Apart ⟨p, size⟩ ⟨q, size⟩ := by
  refine Block.slots_apart ?_
  rw [h.chunks, List.pairwise_map]
  refine h.apart.imp_of_mem ?_
  intro x y hx hy hxy
  have hlen := Build.request_eq hfit
  unfold Block.Apart at hxy ⊢
  rwa [h.sized x hx, h.sized y hy, hlen] at hxy

/-- Every slot lies in one of the blocks. -/
theorem slot_inside (h : Tiled b size s) (hfit : b.Fits size)
    (hp : ptr ∈ Block.slots size b.slots s.pool.chunks) :
    ∃ block ∈ s.blocks, block.base ∈ s.pool.chunks ∧ Block.Inside ⟨ptr, size⟩ block := by
  obtain ⟨base, hbase, hin⟩ := Block.inside_of_mem_slots hp
  have hmem := hbase
  rw [h.chunks] at hmem
  obtain ⟨block, hb, rfl⟩ := List.mem_map.mp hmem
  refine ⟨block, hb, hbase, ?_⟩
  rw [← Build.request_eq hfit, ← h.sized block hb] at hin
  exact hin

theorem sound (h : Tiled b size s) (hsize : 0 < size) (hfit : b.Fits size) : Sound b size s := by
  have hall := h.slots_apart hfit
  have hapart := (h.tiles.pairwise_iff fun hpq => hpq.symm).mpr hall
  have hnodup := Block.nodup_of_apart hsize hapart
  obtain ⟨-, hfree, hdisj⟩ := List.nodup_append.mp hnodup
  refine ⟨h.defined, (List.pairwise_append.mp hapart).1, ?_, ?_, hfree, ?_⟩
  · intro p hp
    exact h.slot_inside hfit (h.tiles.subset (List.mem_append_left _ hp))
  · intro p hp hq
    exact hdisj p hp p hq rfl
  · have hlen := h.tiles.length_eq
    rw [List.length_append, Block.length_slots] at hlen
    unfold PoolBase.freeSize PoolBase.poolSize
    omega

end Tiled

theorem tiled_of_reachable (hsize : 0 < size) (hfit : b.Fits size)
    (hr : (pool b size).Reachable (succeeds b size) s) : Tiled b size s := by
  apply hr.invariant
  · rintro s₀ rfl
    exact Tiled.initial
  · intro s₀ a s₁ _ h hg hs
    exact h.step hsize hfit hg hs

/-! ### Sizes that do not fit -/

/-- The users may take all that is free, without a call of `malloc`. -/
theorem exists_exhausted (hr : (pool b size).Reachable (succeeds b size) s)
    (hd : s.undefined = false) : ∃ s', (pool b size).Reachable (succeeds b size) s' ∧
      s'.blocks = s.blocks ∧
      s'.outstanding.length = s.outstanding.length + s.pool.free.length := by
  induction hfree : s.pool.free generalizing s with
  | nil => exact ⟨s, hr, rfl, rfl⟩
  | cons ret free ih =>
    have hm : ¬ s.mallocs := by simp [State.mallocs, hfree]
    have hs : s.step b size (.acquire NULL) =
        some (s.acquired b size NULL { s.pool with free := free } ret) := by
      simp [State.step, operatorNew, PoolBase.acquire, hd, hfree]
    obtain ⟨s', hr', hb, hlen⟩ := ih (hr.step (a := .acquire NULL) (fun h => (hm h).elim) hs) hd rfl
    refine ⟨s', hr', hb.trans (if_neg fun h => hm h.1), ?_⟩
    rw [hlen]
    simp only [State.acquired, List.length_cons]
    omega

/-- The first block is smaller than its slots, or the loop that carves it never ends well. -/
theorem exists_unsound (hno : ¬ b.Fits size) :
    ∃ s, (pool b size).Reachable (succeeds b size) s ∧ ¬ Sound b size s := by
  cases b with
  | plain => exact (hno trivial).elim
  | chunk n hn =>
    have hinit : (pool (.chunk n hn) size).Reachable (succeeds (.chunk n hn) size) .initial :=
      Machine.Reachable.start rfl
    have hlt : wrap (size * n) < 2 ^ 64 := Nat.mod_lt _ (by decide)
    have hg : succeeds (.chunk n hn) size .initial (.acquire 1) := by
      intro _
      refine ⟨by decide, ?_, ?_⟩
      · have hle : 1 + wrap (size * n) ≤ 2 ^ 64 := by omega
        exact hle
      · intro block hb
        cases hb
    by_cases hint : n ≤ INT_MAX
    · -- once all slots are out, they are too many for the block
      have hs : State.initial.step (.chunk n hn) size (.acquire 1) =
          some (State.initial.acquired (.chunk n hn) size 1 ⟨[1], carve 1 size n []⟩ 1) := by
        simp [State.step, operatorNew, PoolBase.acquire, State.initial, hint]
      obtain ⟨s, hr, hb, hlen⟩ := exists_exhausted (hinit.step hg hs) rfl
      refine ⟨s, hr, ?_⟩
      intro hsound
      have hout : s.outstanding.length = n := by
        rw [hlen]
        simp only [State.acquired, State.initial, List.length_cons, List.length_nil, length_carve]
        omega
      have hblocks : s.blocks = [⟨1, wrap (size * n)⟩] := by
        rw [hb]
        rfl
      have hle : s.outstanding.length * size ≤ wrap (size * n) := by
        refine Block.length_mul_le (b := ⟨1, wrap (size * n)⟩) hsound.apart ?_
        intro p hp
        obtain ⟨block, hmem, -, hin⟩ := hsound.inside p hp
        rw [hblocks, List.mem_singleton] at hmem
        rw [← hmem]
        exact hin
      rw [hout, Nat.mul_comm] at hle
      exact hno ⟨by omega, hint⟩
    · have hs : State.initial.step (.chunk n hn) size (.acquire 1) =
          some { State.initial with undefined := true } := by
        simp [State.step, operatorNew, PoolBase.acquire, State.initial, hint]
      refine ⟨_, hinit.step hg hs, ?_⟩
      intro hsound
      cases hsound.defined

/-- While `malloc` succeeds, the pointers that are out denote disjoint ranges of the size, each in
one block of the pool, none of them is free, nothing is free twice, and no slot is lost, in every
state that any sequence of calls reaches, if and only if the size fits. -/
theorem pool_sound_iff (hsize : 0 < size) :
    (∀ s, (pool b size).Reachable (succeeds b size) s → Sound b size s) ↔ b.Fits size := by
  constructor
  · intro h
    by_contra hno
    obtain ⟨s, hr, hs⟩ := exists_unsound hno
    exact hs (h s hr)
  · intro hfit s hr
    exact (tiled_of_reachable hsize hfit hr).sound hsize hfit

/-- `ENABLE_CHUNK` with the `CHUNK_SIZE` that the header gives it. -/
def defaultBuild : Build := .chunk 100 (by decide)

theorem pool_sound_iff_default :
    ∃ s, (pool defaultBuild 16).Reachable (succeeds defaultBuild 16) s ∧
      s.outstanding = [5664, 4096] ∧ Sound defaultBuild 16 s := by
  obtain ⟨s, hr, ho⟩ := Machine.exists_of_exec (M := pool defaultBuild 16)
    (p := succeeds defaultBuild 16) (s := .initial)
    (l := [.acquire 4096, .acquire NULL, .acquire NULL, .release 5680]) (f := State.outstanding)
    (b := [5664, 4096]) rfl (by decide)
  exact ⟨s, hr, ho, (pool_sound_iff (by decide)).mpr (by decide) s hr⟩

/-- Four elements of `2 ^ 62` bytes ask `malloc` for nothing at all. -/
theorem hands_out_an_empty_block :
    ∃ s, (pool (.chunk 4 (by decide)) (2 ^ 62)).Reachable
        (succeeds (.chunk 4 (by decide)) (2 ^ 62)) s ∧
      s.blocks = [⟨4096, 0⟩] ∧ s.outstanding = [4096] ∧
      ¬ Sound (.chunk 4 (by decide)) (2 ^ 62) s := by
  obtain ⟨s, hr, hf⟩ := Machine.exists_of_exec (M := pool (.chunk 4 (by decide)) (2 ^ 62))
    (p := succeeds (.chunk 4 (by decide)) (2 ^ 62)) (s := .initial) (l := [.acquire 4096])
    (f := fun s => (s.blocks, s.outstanding)) (b := ([⟨4096, 0⟩], [4096])) rfl (by decide)
  obtain ⟨hb, ho⟩ := Prod.mk.inj hf
  refine ⟨s, hr, hb, ho, ?_⟩
  intro hsound
  obtain ⟨block, hmem, -, hin⟩ := hsound.inside 4096 (by rw [ho]; exact List.mem_singleton.mpr rfl)
  rw [hb, List.mem_singleton] at hmem
  rw [hmem] at hin
  exact absurd hin (by decide)

end EchoBenchmark.Pool
