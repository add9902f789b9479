import EchoBenchmark.Lib.Machine
import EchoBenchmark.Lib.Slots

/-!
The memory pool of the clients, in both builds, and what its users and `malloc` do with it.
-/

namespace EchoBenchmark.Pool

/-- A `void*`. -/
abbrev Addr := Nat

def NULL : Addr := 0

/-- `size_t` arithmetic. -/
def wrap (n : Nat) : Nat := n % 2 ^ 64

theorem wrap_of_lt {n : Nat} (h : n < 2 ^ 64) : wrap n = n := Nat.mod_eq_of_lt h

def INT_MAX : Nat := 2 ^ 31 - 1

/-- Whether `ENABLE_CHUNK` is defined, and then `CHUNK_SIZE`. -/
inductive Build
  | plain
  | chunk (CHUNK_SIZE : Nat) (pos : 0 < CHUNK_SIZE)

/-- What `acquire` asks of `malloc`. -/
def Build.request (size : Nat) : Build → Nat
  | .plain => size
  | .chunk n _ => wrap (size * n)

/-- How many elements are served from one block. -/
def Build.slots : Build → Nat
  | .plain => 1
  | .chunk n _ => n

/-- The product that `acquire` computes and its loop counter stay in their types. -/
def Build.Fits (size : Nat) : Build → Prop
  | .plain => True
  | .chunk n _ => size * n < 2 ^ 64 ∧ n ≤ INT_MAX

instance (size : Nat) : (b : Build) → Decidable (b.Fits size)
  | .plain => isTrue trivial
  | .chunk n _ => inferInstanceAs (Decidable (size * n < 2 ^ 64 ∧ n ≤ INT_MAX))

/-- `pool_base`; both vectors with their back first. -/
structure PoolBase where
  chunks : List Addr
  free : List Addr
  deriving DecidableEq

/-- `((char*)ret) + (i * size)`. -/
def slot (ret : Addr) (size i : Nat) : Addr := wrap (ret + wrap (i * size))

/-- `for (int i=1; i<CHUNK_SIZE; ++i) _free.push_back(…)`. -/
def carve (ret : Addr) (size CHUNK_SIZE : Nat) (free : List Addr) : List Addr :=
  (List.range' 1 (CHUNK_SIZE - 1)).foldl (fun free i => slot ret size i :: free) free

/-- `acquire`, with the result of `malloc` in case it is called; `none` is the overflow of the loop
counter, which the language leaves undefined. -/
def PoolBase.acquire (b : Build) (size : Nat) (malloc : Addr) (p : PoolBase) :
    Option (PoolBase × Addr) :=
  match p.free with
  | ret :: free => some ({ p with free := free }, ret)
  | [] =>
    let chunks := malloc :: p.chunks
    match b with
    | .plain => some ({ p with chunks := chunks }, malloc)
    | .chunk n _ =>
      if n ≤ INT_MAX then some (⟨chunks, carve malloc size n p.free⟩, malloc) else none

def PoolBase.release (p : PoolBase) (ptr : Addr) : PoolBase := { p with free := ptr :: p.free }

def PoolBase.poolSize (p : PoolBase) : Nat := p.chunks.length

def PoolBase.freeSize (p : PoolBase) : Nat := p.free.length

/-- `memory_pool<T>::operator new`; `none` is also a failed assertion. -/
def operatorNew (b : Build) (sizeofT size : Nat) (malloc : Addr) (p : PoolBase) :
    Option (PoolBase × Addr) :=
  if sizeofT = size then p.acquire b size malloc else none

/-- `memory_pool<T>::operator delete`. -/
def operatorDelete (p : PoolBase) (ptr : Addr) : PoolBase := p.release ptr

/-- A call of `acquire` whose `malloc` returned `NULL`: the pool before and after, and what the call
returned. -/
structure Failure where
  before : PoolBase
  after : PoolBase
  ret : Addr
  deriving DecidableEq

/-- The pool, the blocks that `malloc` returned, the pointers acquired and not since released, all
that were ever acquired, and the calls whose `malloc` failed. -/
structure State where
  pool : PoolBase
  blocks : List Block
  outstanding : List Addr
  returned : List Addr
  failures : List Failure
  undefined : Bool
  deriving DecidableEq

inductive Action
  | acquire (malloc : Addr)
  | release (ptr : Addr)
  deriving DecidableEq

def State.initial : State := ⟨⟨[], []⟩, [], [], [], [], false⟩

/-- The next `acquire` calls `malloc`. -/
def State.mallocs (s : State) : Prop := s.pool.free = []

instance (s : State) : Decidable s.mallocs := inferInstanceAs (Decidable (_ = []))

/-- Bookkeeping of a call of `acquire` that returned `ret`. -/
def State.acquired (b : Build) (size : Nat) (malloc : Addr) (s : State) (pool : PoolBase)
    (ret : Addr) : State :=
  { s with
    pool := pool
    blocks := if s.mallocs ∧ malloc ≠ NULL then ⟨malloc, b.request size⟩ :: s.blocks else s.blocks
    outstanding := ret :: s.outstanding
    returned := ret :: s.returned
    failures := if s.mallocs ∧ malloc = NULL then ⟨s.pool, pool, ret⟩ :: s.failures
      else s.failures }

/-- The users create elements of `size` bytes, and delete those they have. -/
def State.step (b : Build) (size : Nat) (s : State) : Action → Option State
  | .acquire malloc =>
    if s.undefined then none
    else
      match operatorNew b size size malloc s.pool with
      | some (pool, ret) => some (s.acquired b size malloc pool ret)
      | none => some { s with undefined := true }
  | .release ptr =>
    if s.undefined = false ∧ ptr ∈ s.outstanding then
      some { s with
        pool := operatorDelete s.pool ptr
        outstanding := s.outstanding.erase ptr }
    else none

/-- The pool of elements of `size` bytes. -/
def pool (b : Build) (size : Nat) : Machine State Action where
  init s := s = .initial
  step := State.step b size

/-- `malloc` returned a block of the size it was asked for, away from those it returned before. -/
def Fresh (b : Build) (size : Nat) (s : State) (malloc : Addr) : Prop :=
  malloc ≠ NULL ∧ malloc + b.request size ≤ 2 ^ 64 ∧
    ∀ block ∈ s.blocks, Block.Apart ⟨malloc, b.request size⟩ block

instance (b : Build) (size : Nat) (s : State) (malloc : Addr) : Decidable (Fresh b size s malloc) :=
  inferInstanceAs (Decidable (_ ∧ _ ∧ ∀ block ∈ s.blocks, _))

/-- `malloc` succeeds. -/
def succeeds (b : Build) (size : Nat) (s : State) : Action → Prop
  | .acquire malloc => s.mallocs → Fresh b size s malloc
  | .release _ => True

/-- `malloc` may return `NULL`. -/
def mayFail (b : Build) (size : Nat) (s : State) : Action → Prop
  | .acquire malloc => s.mallocs → malloc = NULL ∨ Fresh b size s malloc
  | .release _ => True

instance (b : Build) (size : Nat) (s : State) : (a : Action) → Decidable (succeeds b size s a)
  | .acquire malloc => inferInstanceAs (Decidable (s.mallocs → Fresh b size s malloc))
  | .release _ => isTrue trivial

instance (b : Build) (size : Nat) (s : State) : (a : Action) → Decidable (mayFail b size s a)
  | .acquire malloc =>
    inferInstanceAs (Decidable (s.mallocs → malloc = NULL ∨ Fresh b size s malloc))
  | .release _ => isTrue trivial

/-! ### What a step does -/

variable {b : Build} {size : Nat} {s s' : State} {malloc ptr : Addr}

/-- What `malloc` returned is the first slot of its block, and the loop carves the others. -/
theorem carve_eq {malloc n : Nat} (h : malloc + size * n ≤ 2 ^ 64) (hsize : 0 < size) :
    carve malloc size n [] =
      ((List.range' 1 (n - 1)).map fun i => malloc + i * size).reverse := by
  have hfold : ∀ (l : List Nat) (free : List Addr), (∀ i ∈ l, i < n) →
      l.foldl (fun free i => slot malloc size i :: free) free =
        (l.map fun i => malloc + i * size).reverse ++ free := by
    intro l
    induction l with
    | nil => intro free _; rfl
    | cons i l ih =>
      intro free hl
      have hi : i < n := hl i List.mem_cons_self
      have hlt : i * size < size * n := by
        rw [Nat.mul_comm]
        exact Nat.mul_lt_mul_of_pos_left hi hsize
      have hslot : slot malloc size i = malloc + i * size := by
        rw [slot, wrap_of_lt (n := i * size) (by omega), wrap_of_lt (by omega)]
      rw [List.foldl_cons, ih _ fun j hj => hl j (List.mem_cons_of_mem _ hj), hslot]
      simp
  rw [carve, hfold, List.append_nil]
  intro i hi
  have := (List.mem_range'_1.mp hi).2
  have := (List.mem_range'_1.mp hi).1
  omega

theorem length_carve {n : Nat} {free : List Addr} :
    (carve malloc size n free).length = n - 1 + free.length := by
  have hfold : ∀ (l : List Nat) (free : List Addr),
      (l.foldl (fun free i => slot malloc size i :: free) free).length =
        l.length + free.length := by
    intro l
    induction l with
    | nil => intro free; simp
    | cons i l ih =>
      intro free
      rw [List.foldl_cons, ih, List.length_cons, List.length_cons]
      omega
  rw [carve, hfold, List.length_range']

/-- What a call of `acquire` does: it takes the back of the free list, or it takes a block. -/
inductive Acquires (b : Build) (size : Nat) (malloc : Addr) (s s' : State) : Prop
  | reuses {ret : Addr} {free : List Addr} : s.pool.free = ret :: free →
      s' = s.acquired b size malloc { s.pool with free := free } ret → Acquires b size malloc s s'
  | carves {free : List Addr} : s.mallocs →
      (b.Fits size → malloc ≠ NULL → 0 < size → malloc + b.request size ≤ 2 ^ 64 →
        malloc :: free.reverse = Block.cut size b.slots malloc) →
      s' = s.acquired b size malloc ⟨malloc :: s.pool.chunks, free⟩ malloc →
      Acquires b size malloc s s'
  | overflows : ¬ b.Fits size → s' = { s with undefined := true } → Acquires b size malloc s s'

theorem acquires_of_step (hs : s.step b size (.acquire malloc) = some s') :
    Acquires b size malloc s s' := by
  simp only [State.step] at hs
  split at hs
  · cases hs
  rw [operatorNew, if_pos rfl, PoolBase.acquire] at hs
  cases hfree : s.pool.free with
  | cons ret free =>
    rw [hfree] at hs
    exact .reuses hfree (Option.some.inj hs).symm
  | nil =>
    rw [hfree] at hs
    cases b with
    | plain =>
      refine .carves hfree ?_ (Option.some.inj hs).symm
      intro _ _ _ _
      simp [Block.cut, Build.slots]
    | chunk n hn =>
      by_cases hint : n ≤ INT_MAX
      · simp only [if_pos hint] at hs
        refine .carves hfree ?_ (Option.some.inj hs).symm
        intro hfit _ hsize hend
        rw [Build.request, wrap_of_lt hfit.1] at hend
        rw [carve_eq hend hsize, List.reverse_reverse]
        exact (Block.cut_zero_cons hn).symm
      · simp only [if_neg hint] at hs
        exact .overflows (fun hfit => hint hfit.2) (Option.some.inj hs).symm

theorem released_of_step (hs : s.step b size (.release ptr) = some s') :
    ptr ∈ s.outstanding ∧
      s' = { s with
        pool := { s.pool with free := ptr :: s.pool.free }
        outstanding := s.outstanding.erase ptr } := by
  simp only [State.step] at hs
  split at hs
  · rename_i h
    exact ⟨h.2, (Option.some.inj hs).symm⟩
  · cases hs

end EchoBenchmark.Pool
