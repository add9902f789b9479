import EchoBenchmark.Lib.Machine
import Mathlib.Data.List.Count
import Mathlib.Logic.Function.Basic

/-!
The load tester: its clients, the loop that delivers their completions, the timer and the signal
that stop the loop, and the end of `main`, which deletes every client.
-/

namespace EchoBenchmark.Tester

/-- The operation of a client whose handler is still to come. -/
inductive Pending
  | none | connect | write | read
  deriving DecidableEq

/-- Which handler was called, and whether with an error; and the calls of the destructor. -/
inductive Event
  | handled (id : Nat) (op : Pending) (ok : Bool)
  | destroyed (id : Nat)
  deriving DecidableEq

/-- Where `main` is: in `ioService.run()`, in the loop that deletes, or behind it. -/
inductive Phase
  | run
  | delete (i : Nat)
  | done
  deriving DecidableEq

/-- `g_global`, as far as the clients use it, the operations of the clients, the timer, whether
`io_service::stop` was called, and the history with the newest entry first. -/
structure State where
  phase : Phase
  stopped : Bool
  timer : Bool
  pending : Nat → Pending
  stop : Bool
  success : Nat
  fail : Nat
  log : List Event

inductive Action
  | complete (id : Nat) (ok : Bool)
  | onTimer (ok : Bool)
  | signal
  | returns
  | next
  deriving DecidableEq

namespace State

/-- `main` before `ioService.run()`: `count` clients, which connect, and the timer. -/
def start (count : Nat) : State where
  phase := .run
  stopped := false
  timer := true
  pending i := if i < count then .connect else .none
  stop := false
  success := 0
  fail := 0
  log := []

def setPending (s : State) (id : Nat) (p : Pending) : State :=
  { s with pending := Function.update s.pending id p }

def emit (s : State) (e : Event) : State := { s with log := e :: s.log }

/-- `~TestClient`. -/
def destroy (s : State) (id : Nat) : State := s.emit (.destroyed id)

/-- `++g_global.fail; delete this;` -/
def abandon (s : State) (id : Nat) : State := { s with fail := s.fail + 1 }.destroy id

/-- `TestClient::onConnect`. -/
def onConnect (s : State) (id : Nat) (ok : Bool) : State :=
  if ok then if s.stop then s else s.setPending id .write else s.abandon id

/-- `TestClient::onWrite`. -/
def onWrite (s : State) (id : Nat) (ok : Bool) : State :=
  if ok then if s.stop then s else s.setPending id .read else s.abandon id

/-- `TestClient::onRead`. -/
def onRead (s : State) (id : Nat) (ok : Bool) : State :=
  if ok then
    if s.stop then s else { s with success := s.success + 1 }.setPending id .write
  else s.abandon id

/-- `OnTimer`. -/
def onTimer (s : State) (ok : Bool) : State :=
  if ok then { s with stop := true, stopped := true } else s

/-- `io_service::run` invokes the handler of a started operation, once. -/
def complete (s : State) (id : Nat) (ok : Bool) : Option State :=
  let called := (s.setPending id .none).emit (.handled id (s.pending id) ok)
  match s.pending id with
  | .none => none
  | .connect => some (called.onConnect id ok)
  | .write => some (called.onWrite id ok)
  | .read => some (called.onRead id ok)

/-- `io_service::run` has nothing left to do. -/
def idle (count : Nat) (s : State) : Prop :=
  s.timer = false ∧ ∀ id < count, s.pending id = .none

instance (count : Nat) (s : State) : Decidable (idle count s) :=
  inferInstanceAs (Decidable (s.timer = false ∧ ∀ id < count, s.pending id = .none))

def step (count : Nat) (s : State) : Action → Option State
  | .complete id ok => if s.phase = .run then s.complete id ok else none
  | .onTimer ok =>
    if s.phase = .run ∧ s.timer = true then
      some ({ s with timer := false }.onTimer ok)
    else none
  | .signal => if s.phase = .done then none else some { s with stopped := true }
  | .returns =>
    if s.phase = .run ∧ (s.stopped = true ∨ s.idle count) then some { s with phase := .delete 0 }
    else none
  | .next =>
    match s.phase with
    | .delete i =>
      if i < count then some { s.destroy i with phase := .delete (i + 1) }
      else some { s with phase := .done }
    | _ => none

end State

/-- The tester with `count` connections, from its call of `ioService.run()` on. -/
def tester (count : Nat) : Machine State Action where
  init s := s = State.start count
  step := State.step count

/-! ### Destruction -/

def Event.handles (id : Nat) : Event → Prop
  | .handled j _ _ => j = id
  | .destroyed _ => False

/-- A handler of client `id` that was called with an error. -/
def Event.fails (id : Nat) : Event → Bool
  | .handled j _ ok => j == id && !ok
  | .destroyed _ => false

/-- Client `id` was destroyed once, and no handler of it ran after that. -/
structure DestroyedOnce (s : State) (id : Nat) : Prop where
  once : s.log.count (.destroyed id) = 1
  quiet : s.log.Pairwise fun newer older => older = .destroyed id → ¬ newer.handles id

/-- A handler of client `id` was called with an error. -/
def Failed (s : State) (id : Nat) : Prop := ∃ op, .handled id op false ∈ s.log

/-- How often `main` has deleted client `id`. -/
def Phase.deleted (count : Nat) (id : Nat) : Phase → Nat
  | .run => 0
  | .delete i => if id < i then 1 else 0
  | .done => if id < count then 1 else 0

/-- A client that failed has destroyed itself and has no operation left, and `main` destroys all. -/
structure Ledger (count : Nat) (id : Nat) (s : State) : Prop where
  gone : 0 < s.log.countP (Event.fails id) → s.pending id = .none
  counted : s.log.count (.destroyed id) =
    s.log.countP (Event.fails id) + s.phase.deleted count id
  quiet : s.log.Pairwise fun newer older => older = .destroyed id → ¬ newer.handles id
  bounded : ∀ i, s.phase = .delete i → i ≤ count

variable {count id j : Nat} {s s' : State} {a : Action} {ok : Bool} {op : Pending}

theorem failed_iff : Failed s id ↔ 0 < s.log.countP (Event.fails id) := by
  rw [List.countP_pos_iff]
  constructor
  · rintro ⟨op, hmem⟩
    exact ⟨_, hmem, by simp [Event.fails]⟩
  · rintro ⟨e, hmem, he⟩
    cases e with
    | destroyed j => cases he
    | handled j op ok =>
      simp only [Event.fails, Bool.and_eq_true, beq_iff_eq, Bool.not_eq_true'] at he
      obtain ⟨rfl, rfl⟩ := he
      exact ⟨op, hmem⟩

/-- What the handler of client `j` does: it starts the next operation or none, or the client
destroys itself. -/
inductive Completes (s : State) (j : Nat) (s' : State) : Prop
  | goesOn {p : Pending} : s'.log = .handled j (s.pending j) true :: s.log →
      s'.pending = Function.update s.pending j p → Completes s j s'
  | abandons : s'.log = .destroyed j :: .handled j (s.pending j) false :: s.log →
      s'.pending = Function.update s.pending j .none → Completes s j s'

theorem complete_cases (h : s.complete j ok = some s') :
    s.pending j ≠ .none ∧ s'.phase = s.phase ∧ Completes s j s' := by
  have hcalled : ∀ p, Function.update (Function.update s.pending j .none) j p =
      Function.update s.pending j p := fun p => Function.update_idem _ _ _
  unfold State.complete at h
  dsimp only at h
  cases hp : s.pending j with
  | none => simp [hp] at h
  | connect | write | read =>
    rw [hp] at h
    refine ⟨by simp, ?_⟩
    cases Option.some.inj h
    cases ok with
    | false =>
      refine ⟨rfl, .abandons ?_ rfl⟩
      rw [hp]
      rfl
    | true =>
      first
        | unfold State.onConnect
        | unfold State.onWrite
        | unfold State.onRead
      rw [if_pos rfl]
      split
      · refine ⟨rfl, .goesOn (p := .none) ?_ rfl⟩
        rw [hp]
        rfl
      · refine ⟨rfl, .goesOn ?_ (hcalled _)⟩
        rw [hp]
        rfl

namespace Ledger

theorem start : Ledger count id (State.start count) where
  gone h := by cases h
  counted := rfl
  quiet := List.Pairwise.nil
  bounded i hi := by cases hi

/-- In the loop of the service only a client that failed is destroyed. -/
theorem not_destroyed (h : Ledger count id s) (hrun : s.phase = .run) (hp : s.pending id ≠ .none) :
    .destroyed id ∉ s.log ∧ s.log.countP (Event.fails id) = 0 := by
  have hfails : s.log.countP (Event.fails id) = 0 := by
    by_contra hpos
    exact hp (h.gone (Nat.pos_of_ne_zero hpos))
  have hcount := h.counted
  rw [hfails, hrun] at hcount
  exact ⟨List.count_eq_zero.mp hcount, hfails⟩

/-- A handler of client `j` starts no operation of another one. -/
theorem complete (h : Ledger count id s) (hrun : s.phase = .run)
    (hs : s.complete j ok = some s') : Ledger count id s' := by
  obtain ⟨hp, hphase, hc⟩ := complete_cases hs
  have hbounded : ∀ i, s'.phase = .delete i → i ≤ count := by
    rw [hphase]
    exact h.bounded
  by_cases hj : j = id
  · subst hj
    obtain ⟨hnot, hfails⟩ := h.not_destroyed hrun hp
    have hquiet : ∀ ok, (Event.handled j (s.pending j) ok :: s.log).Pairwise
        fun newer older => older = .destroyed j → ¬ newer.handles j := by
      intro ok
      refine List.pairwise_cons.mpr ⟨?_, h.quiet⟩
      rintro e he rfl
      exact (hnot he).elim
    have hcount := List.count_eq_zero.mpr hnot
    cases hc with
    | goesOn hlog hpend =>
      refine ⟨?_, ?_, ?_, hbounded⟩
      · rw [hlog]
        simp [Event.fails, hfails]
      · rw [hlog, hphase, hrun]
        simp [Event.fails, hfails, hcount, Phase.deleted]
      · rw [hlog]
        exact hquiet true
    | abandons hlog hpend =>
      refine ⟨?_, ?_, ?_, hbounded⟩
      · intro _
        rw [hpend, Function.update_self]
      · rw [hlog, hphase, hrun]
        simp [Event.fails, hfails, hcount, Phase.deleted]
      · rw [hlog]
        refine List.pairwise_cons.mpr ⟨?_, hquiet false⟩
        intro e _ _ hh
        exact hh
  · have hne : id ≠ j := fun he => hj he.symm
    have hnew : ∀ op ok, (Event.handled j op ok :: s.log).Pairwise
        fun newer older => older = .destroyed id → ¬ newer.handles id := by
      intro op ok
      refine List.pairwise_cons.mpr ⟨?_, h.quiet⟩
      intro e _ _ hh
      exact hj hh
    cases hc with
    | goesOn hlog hpend =>
      refine ⟨?_, ?_, ?_, hbounded⟩
      · rw [hlog, hpend, Function.update_of_ne hne]
        simpa [Event.fails, hj] using h.gone
      · rw [hlog, hphase]
        simpa [Event.fails, hj] using h.counted
      · rw [hlog]
        exact hnew _ _
    | abandons hlog hpend =>
      refine ⟨?_, ?_, ?_, hbounded⟩
      · rw [hlog, hpend, Function.update_of_ne hne]
        simpa [Event.fails, hj] using h.gone
      · rw [hlog, hphase]
        simpa [Event.fails, hj] using h.counted
      · rw [hlog]
        refine List.pairwise_cons.mpr ⟨?_, hnew _ _⟩
        intro e _ _ hh
        exact hh

/-- A step that leaves the history and the operations alone. -/
theorem frame (h : Ledger count id s) (hlog : s'.log = s.log) (hpend : s'.pending = s.pending)
    (hdel : s'.phase.deleted count id = s.phase.deleted count id)
    (hbounded : ∀ i, s'.phase = .delete i → i ≤ count) : Ledger count id s' where
  gone := by
    rw [hlog, hpend]
    exact h.gone
  counted := by
    rw [hlog, hdel]
    exact h.counted
  quiet := by
    rw [hlog]
    exact h.quiet
  bounded := hbounded

theorem next (h : Ledger count id s) (hs : s.step count .next = some s') : Ledger count id s' := by
  simp only [State.step] at hs
  cases hp : s.phase with
  | run | done => simp [hp] at hs
  | delete i =>
    have hle := h.bounded i hp
    have hcounted := h.counted
    rw [hp] at hcounted
    simp only [hp] at hs
    split at hs
    · rename_i hlt
      cases hs
      refine ⟨h.gone, ?_, ?_, ?_⟩
      · simp only [State.destroy, State.emit, List.count_cons, Event.fails, Phase.deleted,
          List.countP_cons, Bool.false_eq_true, if_false, Nat.add_zero, hcounted]
        by_cases hid : i = id
        · subst hid
          simp
        · have hiff : id < i + 1 ↔ id < i := by omega
          simp [hid, hiff]
      · refine List.pairwise_cons.mpr ⟨?_, h.quiet⟩
        intro e _ _ hh
        exact hh
      · intro k hk
        cases hk
        exact hlt
    · rename_i hge
      cases hs
      have hi : i = count := by omega
      refine h.frame rfl rfl ?_ ?_
      · rw [hp, hi]
        rfl
      · intro k hk
        cases hk

theorem step (h : Ledger count id s) (hs : s.step count a = some s') : Ledger count id s' := by
  cases a with
  | complete j ok =>
    simp only [State.step] at hs
    split at hs
    · rename_i hrun
      exact h.complete hrun hs
    · cases hs
  | onTimer ok =>
    simp only [State.step] at hs
    split at hs
    · cases hs
      cases ok <;> exact h.frame rfl rfl rfl h.bounded
    · cases hs
  | signal =>
    simp only [State.step] at hs
    split at hs
    · cases hs
    · cases hs
      exact h.frame rfl rfl rfl h.bounded
  | returns =>
    simp only [State.step] at hs
    split at hs
    · rename_i hrun
      cases hs
      refine h.frame rfl rfl ?_ ?_
      · rw [hrun.1]
        rfl
      · intro i hi
        cases hi
        exact Nat.zero_le _
    · cases hs
  | next => exact h.next hs

end Ledger

theorem ledger_of_reachable (id : Nat) (hr : (tester count).Reachable Machine.free s) :
    Ledger count id s := by
  apply hr.invariant (I := Ledger count id)
  · rintro s₀ rfl
    exact Ledger.start
  · intro s₀ a s₁ _ h _ hs
    exact h.step hs

/-- No handler of a client runs once it was destroyed, in any run. -/
theorem quiet_of_reachable (hr : (tester count).Reachable Machine.free s) :
    s.log.Pairwise fun newer older => older = .destroyed id → ¬ newer.handles id :=
  (ledger_of_reachable id hr).quiet

/-- At the end of `main` every client was destroyed exactly once, and ran no handler after that, if
and only if no handler of a client was called with an error. -/
theorem destroyed_once_iff (hr : (tester count).Reachable Machine.free s)
    (hdone : s.phase = .done) :
    (∀ id < count, DestroyedOnce s id) ↔ ∀ id < count, ¬ Failed s id := by
  have hcount : ∀ id < count, s.log.count (.destroyed id) =
      s.log.countP (Event.fails id) + 1 := by
    intro id hid
    have h := (ledger_of_reachable id hr).counted
    rwa [hdone, Phase.deleted, if_pos hid] at h
  constructor
  · intro hall id hid hf
    have hpos := failed_iff.mp hf
    have honce := (hall id hid).once
    have hc := hcount id hid
    omega
  · intro hall id hid
    refine ⟨?_, quiet_of_reachable hr⟩
    have hno : ¬ 0 < s.log.countP (Event.fails id) := fun hpos => hall id hid (failed_iff.mpr hpos)
    have hc := hcount id hid
    omega

/-- One client goes through a round before the timer stops the service. -/
def oneRound : List Action :=
  [.complete 0 true, .complete 0 true, .complete 0 true, .onTimer true, .returns, .next, .next]

theorem destroyed_once_iff_oneRound :
    ∃ s, (tester 1).Reachable Machine.free s ∧ s.success = 1 ∧ ∀ id < 1, DestroyedOnce s id := by
  obtain ⟨s, hr, hf⟩ := Machine.exists_of_exec (M := tester 1) (p := Machine.free)
    (s := State.start 1) (l := oneRound) (f := fun s => (s.phase, s.success, s.log))
    (b := (.done, 1, [.destroyed 0, .handled 0 .read true, .handled 0 .write true,
      .handled 0 .connect true])) rfl (by decide)
  obtain ⟨hdone, hf⟩ := Prod.mk.inj hf
  obtain ⟨hsuccess, hlog⟩ := Prod.mk.inj hf
  refine ⟨s, hr, hsuccess, (destroyed_once_iff hr hdone).mpr ?_⟩
  rintro id - ⟨op, hmem⟩
  rw [hlog] at hmem
  simp at hmem

/-- A client whose connection is refused is deleted again at the end. -/
def refusedConnection : List Action :=
  [.complete 0 false, .onTimer true, .returns, .next, .next]

theorem refused_client_destroyed_twice :
    ∃ s, (tester 1).Reachable Machine.free s ∧ s.phase = .done ∧
      s.log = [.destroyed 0, .destroyed 0, .handled 0 .connect false] ∧
      ¬ ∀ id < 1, DestroyedOnce s id := by
  obtain ⟨s, hr, hf⟩ := Machine.exists_of_exec (M := tester 1) (p := Machine.free)
    (s := State.start 1) (l := refusedConnection) (f := fun s => (s.phase, s.log))
    (b := (.done, [.destroyed 0, .destroyed 0, .handled 0 .connect false])) rfl (by decide)
  obtain ⟨hdone, hlog⟩ := Prod.mk.inj hf
  refine ⟨s, hr, hdone, hlog, ?_⟩
  intro hall
  have honce := (hall 0 (by decide)).once
  rw [hlog] at honce
  exact absurd honce (by decide)

end EchoBenchmark.Tester
