import EchoBenchmark.Lib.Relay
import EchoBenchmark.Tester.Main
import Mathlib.Data.List.Count
import Mathlib.Data.List.Infix

/-!
The whole benchmark: the tester, a server, and the connections between them. At each end of a
connection arrives a beginning of what the other end put in.
-/

namespace EchoBenchmark.Bench

open Tester (Pending)

/-- A server as the clients of the tester see it: what came in from each, and what was sent back. -/
structure Served (σ α β : Type*) where
  machine : Machine σ α
  obeys : σ → α → Prop
  received : Nat → σ → List β
  sent : Nat → σ → List β

/-- The tester and the server. For each client, all that it put into its connection and took out of
it, how much of `g_global.buf` its `async_write` has put in, and what its `async_read` has stored in
`_buf`. And what `_buf` held whenever a success was counted. -/
structure State (σ β : Type*) where
  tester : Tester.State
  server : σ
  put : Nat → List β
  got : Nat → List β
  written : Nat → Nat
  buf : Nat → List β
  echoes : List (Nat × List β)

inductive Action (α : Type*)
  | tester (a : Tester.Action)
  /-- `async_write` of client `id` goes on by `n` bytes. -/
  | put (id n : Nat)
  /-- `async_read` of client `id` goes on by `n` bytes. -/
  | get (id n : Nat)
  | server (a : α)

section Defs

variable {σ α β : Type*}

namespace State

def start (count : Nat) (u : σ) : State σ β where
  tester := Tester.State.start count
  server := u
  put _ := []
  got _ := []
  written _ := 0
  buf _ := []
  echoes := []

/-- `async_write` and `async_read` succeed when they have transferred the whole buffer. -/
def ready (data : List β) (s : State σ β) : Tester.Action → Prop
  | .complete id true =>
    match s.tester.pending id with
    | .write => s.written id = data.length
    | .read => (s.buf id).length = data.length
    | _ => True
  | _ => True

instance (data : List β) (s : State σ β) (a : Tester.Action) : Decidable (s.ready data a) := by
  unfold ready
  repeat' split
  all_goals infer_instance

/-- The handler of client `id` was called; what it starts next begins with the buffer anew. -/
def handled (s : State σ β) (id : Nat) (t : Tester.State) : State σ β :=
  { s with
    tester := t
    written := Function.update s.written id 0
    buf := Function.update s.buf id []
    echoes := if t.success = s.tester.success then s.echoes else (id, s.buf id) :: s.echoes }

def testerStep (count : Nat) (data : List β) (s : State σ β) (a : Tester.Action) :
    Option (State σ β) :=
  if s.ready data a then
    match s.tester.step count a with
    | some t =>
      match a with
      | .complete id _ => some (s.handled id t)
      | _ => some { s with tester := t }
    | none => none
  else none

/-- Client `id` put the next `n` bytes of its buffer into the connection. -/
def wrote (data : List β) (s : State σ β) (id n : Nat) : State σ β :=
  { s with
    put := Function.update s.put id (s.put id ++ (data.drop (s.written id)).take n)
    written := Function.update s.written id (s.written id + n) }

def asyncWrite (data : List β) (s : State σ β) (id n : Nat) : Option (State σ β) :=
  if s.tester.phase = .run ∧ s.tester.pending id = .write ∧ 0 < n ∧
      s.written id + n ≤ data.length then
    some (s.wrote data id n)
  else none

/-- Client `id` took bytes out of the connection. -/
def took (s : State σ β) (id : Nat) (bytes : List β) : State σ β :=
  { s with
    got := Function.update s.got id (s.got id ++ bytes)
    buf := Function.update s.buf id (s.buf id ++ bytes) }

/-- What was sent to client `id` and not taken yet. -/
def unread (V : Served σ α β) (s : State σ β) (id : Nat) : List β :=
  (V.sent id s.server).drop (s.got id).length

def asyncRead (V : Served σ α β) (data : List β) (s : State σ β) (id n : Nat) :
    Option (State σ β) :=
  if s.tester.phase = .run ∧ s.tester.pending id = .read ∧ 0 < n ∧ n ≤ (s.unread V id).length ∧
      (s.buf id).length + n ≤ data.length then
    some (s.took id ((s.unread V id).take n))
  else none

variable [DecidableEq β]

/-- The server takes in what was put into the connections, and what was taken out of them it has
sent before. -/
def serve (V : Served σ α β) (count : Nat) (s : State σ β) (a : α) : Option (State σ β) :=
  match V.machine.step s.server a with
  | some u =>
    if ∀ id < count, V.received id u <+: s.put id ∧ s.got id <+: V.sent id u then
      some { s with server := u }
    else none
  | none => none

def step (V : Served σ α β) (count : Nat) (data : List β) (s : State σ β) :
    Action α → Option (State σ β)
  | .tester a => s.testerStep count data a
  | .put id n => s.asyncWrite data id n
  | .get id n => s.asyncRead V data id n
  | .server a => s.serve V count a

end State

/-- The tester with `count` clients, which write `data`, and the server. -/
def bench [DecidableEq β] (V : Served σ α β) (count : Nat) (data : List β) :
    Machine (State σ β) (Action α) where
  init s := ∃ u, V.machine.init u ∧ s = State.start count u
  step := State.step V count data

/-- The server keeps to its guard. -/
def obeys (V : Served σ α β) (s : State σ β) : Action α → Prop
  | .server a => V.obeys s.server a
  | _ => True

end Defs

section Acts

variable {σ α β : Type*} {V : Served σ α β} {count : Nat} {data : List β} {s s' : State σ β}
  {act : Action α}

/-- What a step does. -/
inductive Acts (V : Served σ α β) (count : Nat) (data : List β) (s : State σ β) :
    Action α → State σ β → Prop
  | handles {id : Nat} {ok : Bool} {t : Tester.State} : s.ready data (.complete id ok) →
      s.tester.complete id ok = some t →
      Acts V count data s (.tester (.complete id ok)) (s.handled id t)
  | passes {a : Tester.Action} {t : Tester.State} : (∀ id ok, a ≠ .complete id ok) →
      s.tester.step count a = some t → Acts V count data s (.tester a) { s with tester := t }
  | puts {id n : Nat} : s.tester.pending id = .write → 0 < n → s.written id + n ≤ data.length →
      Acts V count data s (.put id n) (s.wrote data id n)
  | gets {id n : Nat} : s.tester.pending id = .read → 0 < n → n ≤ (s.unread V id).length →
      (s.buf id).length + n ≤ data.length →
      Acts V count data s (.get id n) (s.took id ((s.unread V id).take n))
  | serves {a : α} {u : σ} : V.machine.step s.server a = some u →
      (∀ id < count, V.received id u <+: s.put id ∧ s.got id <+: V.sent id u) →
      Acts V count data s (.server a) { s with server := u }

theorem acts_of_step [DecidableEq β] (hs : s.step V count data act = some s') :
    Acts V count data s act s' := by
  cases act with
  | tester a =>
    simp only [State.step, State.testerStep] at hs
    split at hs
    · rename_i hready
      split at hs
      · rename_i t ht
        split at hs
        · rename_i id ok
          cases hs
          simp only [Tester.State.step] at ht
          split at ht
          · exact .handles hready ht
          · cases ht
        · rename_i hnot
          cases hs
          exact .passes hnot ht
      · cases hs
    · cases hs
  | put id n =>
    simp only [State.step, State.asyncWrite] at hs
    split at hs
    · rename_i hcan
      cases hs
      exact .puts hcan.2.1 hcan.2.2.1 hcan.2.2.2
    · cases hs
  | get id n =>
    simp only [State.step, State.asyncRead] at hs
    split at hs
    · rename_i hcan
      cases hs
      exact .gets hcan.2.1 hcan.2.2.1 hcan.2.2.2.1 hcan.2.2.2.2
    · cases hs
  | server a =>
    simp only [State.step, State.serve] at hs
    split at hs
    · rename_i u hu
      split at hs
      · rename_i hall
        cases hs
        exact .serves hu hall
      · cases hs
    · cases hs

end Acts

/-! ### What a handler of the tester does -/

section Tester

open Tester

variable {t t' : Tester.State} {id count : Nat} {ok : Bool} {a : Tester.Action}

/-- How the handler of client `id` goes on. -/
inductive Handles (t : Tester.State) (id : Nat) (ok : Bool) (t' : Tester.State) : Prop
  | connected : ok = true → t.pending id = .connect →
      t'.pending = Function.update t.pending id .write → t'.success = t.success →
      Handles t id ok t'
  | wrote : ok = true → t.pending id = .write →
      t'.pending = Function.update t.pending id .read → t'.success = t.success →
      Handles t id ok t'
  | read : ok = true → t.pending id = .read →
      t'.pending = Function.update t.pending id .write → t'.success = t.success + 1 →
      Handles t id ok t'
  | ends : t.pending id ≠ .none → t'.pending = Function.update t.pending id .none →
      t'.success = t.success → Handles t id ok t'

theorem handles_of_complete (h : t.complete id ok = some t') : Handles t id ok t' := by
  have hcalled : ∀ p, Function.update (Function.update t.pending id .none) id p =
      Function.update t.pending id p := fun p => Function.update_idem _ _ _
  have hsome := (complete_cases h).1
  cases ok with
  | false =>
    refine .ends hsome ?_ ?_
    all_goals
      unfold State.complete at h
      dsimp only at h
      split at h
      · cases h
      all_goals
        cases h
        rfl
  | true =>
    by_cases hstop : t.stop = true
    · refine .ends hsome ?_ ?_
      all_goals
        unfold State.complete at h
        dsimp only at h
        split at h
        · cases h
        all_goals
          cases h
          simp [State.onConnect, State.onWrite, State.onRead, State.setPending, State.emit, hstop]
    · unfold State.complete at h
      dsimp only at h
      split at h
      · cases h
      · rename_i hp
        cases h
        refine .connected rfl hp ?_ ?_
        all_goals
          simp [State.onConnect, State.setPending, State.emit, hstop]
      · rename_i hp
        cases h
        refine .wrote rfl hp ?_ ?_
        all_goals
          simp [State.onWrite, State.setPending, State.emit, hstop]
      · rename_i hp
        cases h
        refine .read rfl hp ?_ ?_
        all_goals
          simp [State.onRead, State.setPending, State.emit, hstop]

/-- The timer, the signal and the end of `main` start no operation and count nothing. -/
theorem step_eq_of_not_complete (hs : t.step count a = some t')
    (ha : ∀ id ok, a ≠ .complete id ok) : t'.pending = t.pending ∧ t'.success = t.success := by
  cases a with
  | complete id ok => exact (ha id ok rfl).elim
  | onTimer ok =>
    simp only [Tester.State.step] at hs
    split at hs
    · cases hs
      cases ok <;> exact ⟨rfl, rfl⟩
    · cases hs
  | signal =>
    simp only [Tester.State.step] at hs
    split at hs
    · cases hs
    · cases hs
      exact ⟨rfl, rfl⟩
  | returns =>
    simp only [Tester.State.step] at hs
    split at hs
    · cases hs
      exact ⟨rfl, rfl⟩
    · cases hs
  | next =>
    simp only [Tester.State.step] at hs
    split at hs
    · split at hs
      · cases hs
        exact ⟨rfl, rfl⟩
      · cases hs
        exact ⟨rfl, rfl⟩
    · cases hs

end Tester

end EchoBenchmark.Bench
