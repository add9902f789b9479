import EchoBenchmark.Lib.History
import EchoBenchmark.Lib.Sender

/-!
The .NET server: an asynchronous task that accepts, and one for each client, which reads and writes
in a `try` block and closes the stream in the end.
-/

namespace EchoBenchmark.Dotnet

open History (gathered)

abbrev ClientId := Nat

def MAX_SIZE : Nat := 1024

/-- What `ReadAsync` and `WriteAsync` throw. -/
inductive Exception
  | argumentNull
  | argumentOutOfRange
  | io
  | objectDisposed
  | other
  deriving DecidableEq

/-- A `catch` clause of `AsyncTcpProcess` names it. -/
def Exception.caught : Exception → Bool
  | .argumentNull | .argumentOutOfRange | .io | .objectDisposed => true
  | .other => false

/-- What `await stream.ReadAsync(buff, 0, buff.Length)` ends with. -/
inductive ReadResult
  | bytes (bytes : List UInt8)
  | throws (e : Exception)

inductive WriteResult
  | done
  | throws (e : Exception)

/-- Where `AsyncTcpProcess` stands: before its `GetStream`, at one of the two `await`s with `buff`
and `nbytes`, or behind its `finally`. -/
inductive Task
  | start
  | reading (buff : List UInt8)
  | writing (buff : List UInt8) (nbytes : Nat)
  | done
  deriving DecidableEq

/-- One entry of the history. -/
inductive Event
  | read (c : ClientId) (bytes : List UInt8)
  | wrote (c : ClientId) (bytes : List UInt8)
  /-- `stream.Close(); tc.Close();` -/
  | closed (c : ClientId)
  deriving DecidableEq

/-- The tasks of the clients, how many were accepted, whether an exception ended the process, and
the history with the newest entry first. -/
structure Server where
  tasks : ClientId → Option Task
  accepted : Nat
  crashed : Bool
  log : List Event

/-- What completes next. -/
inductive Action
  | accept (ok : Bool)
  | getStream (c : ClientId) (ok : Bool)
  | read (c : ClientId) (r : ReadResult)
  | write (c : ClientId) (r : WriteResult)

namespace Server

def initial : Server := ⟨fun _ => none, 0, false, []⟩

def set (s : Server) (c : ClientId) (t : Task) : Server :=
  { s with tasks := Function.update s.tasks c (some t) }

/-- An exception that nobody catches. -/
def crash (s : Server) : Server := { s with crashed := true }

/-- The `finally` block. -/
def «finally» (s : Server) (c : ClientId) : Server :=
  { s.set c .done with log := .closed c :: s.log }

/-- The exception leaves the `try` block; that of an `async void` method ends the process unless a
`catch` clause names it. -/
def «catch» (s : Server) (c : ClientId) (e : Exception) : Server :=
  if e.caught then s.finally c else (s.finally c).crash

/-- `AysncEchoServer`; its exception comes out of the `Wait` in `Main`. -/
def accept (s : Server) (ok : Bool) : Server :=
  if ok then { s.set s.accepted .start with accepted := s.accepted + 1 } else s.crash

/-- `tc.GetStream()` and `new byte[MAX_SIZE]`, both before the `try` block. -/
def getStream (s : Server) (c : ClientId) (ok : Bool) : Server :=
  if ok then s.set c (.reading (List.replicate MAX_SIZE 0)) else s.crash

def onRead (s : Server) (c : ClientId) (buff : List UInt8) : ReadResult → Option Server
  | .bytes bytes =>
    if bytes.length ≤ buff.length then
      if bytes.length ≤ 0 then some (s.finally c)
      else
        some { s.set c (.writing (bytes ++ buff.drop bytes.length) bytes.length) with
          log := .read c bytes :: s.log }
    else none
  | .throws e => some (s.catch c e)

def onWrite (s : Server) (c : ClientId) (buff : List UInt8) (nbytes : Nat) :
    WriteResult → Server
  | .done => { s.set c (.reading buff) with log := .wrote c (buff.take nbytes) :: s.log }
  | .throws e => s.catch c e

def step (s : Server) (a : Action) : Option Server :=
  match s.crashed, a with
  | true, _ => none
  | false, .accept ok => some (s.accept ok)
  | false, .getStream c ok => if s.tasks c = some .start then some (s.getStream c ok) else none
  | false, .read c r =>
    match s.tasks c with
    | some (.reading buff) => s.onRead c buff r
    | _ => none
  | false, .write c r =>
    match s.tasks c with
    | some (.writing buff nbytes) => some (s.onWrite c buff nbytes r)
    | _ => none

end Server

/-- The server with any clients. -/
def server : Machine Server Action where
  init s := s = Server.initial
  step := Server.step

variable {s s' : Server} {a : Action} {c d : ClientId} {bytes buff : List UInt8} {n : Nat}
  {t : Task}

/-- The operation that a step is. -/
inductive Does (s : Server) : Action → Server → Prop
  | accept (ok : Bool) : Does s (.accept ok) (s.accept ok)
  | getStream {c : ClientId} (ok : Bool) : s.tasks c = some .start →
      Does s (.getStream c ok) (s.getStream c ok)
  | reads {c : ClientId} {buff bytes : List UInt8} : s.tasks c = some (.reading buff) →
      bytes.length ≤ buff.length → 0 < bytes.length →
      Does s (.read c (.bytes bytes))
        { s.set c (.writing (bytes ++ buff.drop bytes.length) bytes.length) with
          log := .read c bytes :: s.log }
  | ends {c : ClientId} {buff : List UInt8} : s.tasks c = some (.reading buff) →
      Does s (.read c (.bytes [])) (s.finally c)
  | readThrows {c : ClientId} {buff : List UInt8} (e : Exception) :
      s.tasks c = some (.reading buff) → Does s (.read c (.throws e)) (s.catch c e)
  | writes {c : ClientId} {buff : List UInt8} {n : Nat} : s.tasks c = some (.writing buff n) →
      Does s (.write c .done)
        { s.set c (.reading buff) with log := .wrote c (buff.take n) :: s.log }
  | writeThrows {c : ClientId} {buff : List UInt8} {n : Nat} (e : Exception) :
      s.tasks c = some (.writing buff n) → Does s (.write c (.throws e)) (s.catch c e)

theorem does_of_step (hs : s.step a = some s') : s.crashed = false ∧ Does s a s' := by
  unfold Server.step at hs
  cases hc : s.crashed with
  | true => simp [hc] at hs
  | false =>
    refine ⟨rfl, ?_⟩
    rw [hc] at hs
    cases a with
    | accept ok =>
      cases hs
      exact .accept ok
    | getStream c ok =>
      dsimp only at hs
      split at hs
      · rename_i htask
        cases hs
        exact .getStream ok htask
      · cases hs
    | read c r =>
      dsimp only at hs
      split at hs
      · rename_i buff htask
        cases r with
        | bytes bytes =>
          simp only [Server.onRead] at hs
          split at hs
          · rename_i hlen
            split at hs
            · rename_i hzero
              cases hs
              obtain rfl : bytes = [] := List.length_eq_zero_iff.mp (Nat.le_zero.mp hzero)
              exact .ends htask
            · rename_i hpos
              cases hs
              exact .reads htask hlen (Nat.lt_of_not_le hpos)
          · cases hs
        | throws e =>
          cases hs
          exact .readThrows e htask
      · cases hs
    | write c r =>
      dsimp only at hs
      split at hs
      · rename_i buff n htask
        cases hs
        cases r with
        | done => exact .writes htask
        | throws e => exact .writeThrows e htask
      · cases hs

/-! ### The tasks -/

/-- The buffer of a task is the one it allocated. -/
def Task.sized : Task → Prop
  | .reading buff | .writing buff _ => buff.length = MAX_SIZE
  | .start | .done => True

/-- Clients have numbers below the count, a buffer of the size that was asked for, and were closed
once if they are done. -/
structure Kept (s : Server) : Prop where
  fresh : ∀ c, s.accepted ≤ c → s.tasks c = none
  sized : ∀ c t, s.tasks c = some t → t.sized
  closed : ∀ c, s.log.count (.closed c) = if s.tasks c = some .done then 1 else 0

/-- The task of one client goes on, and closes what it has only when it is done. -/
theorem Kept.goesOn (h : Kept s) (htasks : s'.tasks = Function.update s.tasks c (some t))
    (haccepted : s'.accepted = s.accepted) (hc : c < s.accepted) (hsized : t.sized)
    (hold : s.tasks c ≠ some .done)
    (hlog : ∀ d, s'.log.count (.closed d) =
      s.log.count (.closed d) + if d = c ∧ t = .done then 1 else 0) : Kept s' where
  fresh d hd := by
    rw [haccepted] at hd
    rw [htasks, Function.update_of_ne (Nat.ne_of_gt (Nat.lt_of_lt_of_le hc hd))]
    exact h.fresh d hd
  sized d u hu := by
    rw [htasks] at hu
    by_cases hd : d = c
    · rw [hd, Function.update_self] at hu
      cases hu
      exact hsized
    · rw [Function.update_of_ne hd] at hu
      exact h.sized d u hu
  closed d := by
    rw [hlog, h.closed, htasks]
    by_cases hd : d = c
    · rw [hd, Function.update_self, if_neg hold]
      simp
    · rw [Function.update_of_ne hd]
      simp [hd]

theorem Kept.lt (h : Kept s) (hc : s.tasks c = some t) : c < s.accepted := by
  by_contra hle
  rw [h.fresh c (Nat.le_of_not_lt hle)] at hc
  cases hc

theorem Kept.finally (h : Kept s) (hc : s.tasks c = some t) (ht : t ≠ .done) :
    Kept (s.finally c) := by
  have hold : s.tasks c ≠ some .done := by
    rw [hc]
    exact fun he => ht (Option.some.inj he)
  refine h.goesOn rfl rfl (h.lt hc) trivial hold fun d => ?_
  by_cases hd : d = c
  · simp [Server.finally, Server.set, hd]
  · have hne : c ≠ d := fun he => hd he.symm
    simp [Server.finally, Server.set, hd, hne]

theorem Kept.catch (h : Kept s) (hc : s.tasks c = some t) (ht : t ≠ .done) (e : Exception) :
    Kept (s.catch c e) := by
  have hf := h.finally hc ht
  unfold Server.catch
  split
  · exact hf
  · exact ⟨hf.fresh, hf.sized, hf.closed⟩

theorem Kept.step (h : Kept s) (hs : s.step a = some s') : Kept s' := by
  obtain ⟨-, hd⟩ := does_of_step hs
  cases hd with
  | accept ok =>
    cases ok with
    | true =>
      have hnone := h.fresh s.accepted (Nat.le_refl _)
      -- the count is one higher from here on, as it is for the new client
      have hmore : Kept { s with accepted := s.accepted + 1 } :=
        ⟨fun c hc => h.fresh c (Nat.le_of_succ_le hc), h.sized, h.closed⟩
      have hold : s.tasks s.accepted ≠ some .done := by
        rw [hnone]
        exact nofun
      exact hmore.goesOn (c := s.accepted) (t := .start) rfl rfl (Nat.lt_succ_self _) trivial hold
        fun d => by simp [Server.accept, Server.set]
    | false => exact ⟨h.fresh, h.sized, h.closed⟩
  | @getStream c ok htask =>
    cases ok with
    | true =>
      exact h.goesOn (t := .reading (List.replicate MAX_SIZE 0)) rfl rfl (h.lt htask)
        List.length_replicate (by simp [htask]) fun d => by simp [Server.getStream, Server.set]
    | false => exact ⟨h.fresh, h.sized, h.closed⟩
  | @reads c buff bytes htask hlen hpos =>
    have hsized : buff.length = MAX_SIZE := h.sized c _ htask
    refine h.goesOn rfl rfl (h.lt htask) ?_ (by simp [htask]) fun d => by simp
    simp only [Task.sized, List.length_append, List.length_drop]
    omega
  | ends htask => exact h.finally htask nofun
  | readThrows e htask => exact h.catch htask nofun e
  | @writes c buff n htask =>
    have hsized : buff.length = MAX_SIZE := h.sized c _ htask
    exact h.goesOn (t := .reading buff) rfl rfl (h.lt htask) hsized (by simp [htask])
      fun d => by simp
  | writeThrows e htask => exact h.catch htask nofun e

theorem kept_of_reachable {p : Server → Action → Prop} (hr : server.Reachable p s) : Kept s := by
  apply hr.invariant
  · rintro s₀ rfl
    exact ⟨fun _ _ => rfl, nofun, fun _ => rfl⟩
  · intro s₀ a s₁ _ h _ hs
    exact h.step hs

/-! ### The server as a relay -/

def Event.readFrom (c : ClientId) : Event → List UInt8
  | .read j bytes => if j = c then bytes else []
  | .wrote _ _ | .closed _ => []

def Event.writtenTo (c : ClientId) : Event → List UInt8
  | .wrote j bytes => if j = c then bytes else []
  | .read _ _ | .closed _ => []

/-- All that was read from a client. -/
def readFrom (c : ClientId) (log : List Event) : List UInt8 := gathered (Event.readFrom c) log

/-- All that was written to a client. -/
def writtenTo (c : ClientId) (log : List Event) : List UInt8 := gathered (Event.writtenTo c) log

/-- What the task has still to write, if it serves its client. -/
def Task.owes : Task → Option (List UInt8)
  | .start | .reading _ => some []
  | .writing buff nbytes => some (buff.take nbytes)
  | .done => none

def Server.owes (s : Server) (c : ClientId) : Option (List UInt8) :=
  (s.tasks c).elim (some []) Task.owes

@[simp] theorem owes_of_tasks (hc : s.tasks c = some t) : s.owes c = t.owes := by
  simp [Server.owes, hc]

theorem owes_of_update (htasks : s'.tasks = Function.update s.tasks c (some t)) :
    s'.owes c = t.owes :=
  owes_of_tasks (by rw [htasks, Function.update_self])

/-- The bytes of a client before and after a step. -/
def Turns (s s' : Server) (c : ClientId) : Prop :=
  Relay.Turn (Relay.halfDuplex MAX_SIZE) (readFrom c s.log) (writtenTo c s.log)
    (readFrom c s'.log) (writtenTo c s'.log) (s.owes c) (s'.owes c)

/-- Another client goes on. -/
theorem turns_other {j : ClientId} (hj : c ≠ j)
    (htasks : s'.tasks = Function.update s.tasks j (some t))
    (hread : readFrom c s'.log = readFrom c s.log)
    (hwritten : writtenTo c s'.log = writtenTo c s.log) : Turns s s' c := by
  refine .rests hread hwritten ?_
  rw [Server.owes, htasks, Function.update_of_ne hj]
  rfl

/-- The task of client `j` ends. -/
theorem turns_finally {j : ClientId} (c : ClientId) : Turns s (s.finally j) c := by
  by_cases hj : c = j
  · rw [hj]
    refine .stops ?_ ?_ (owes_of_update (s := s) (t := .done) rfl)
    · simp [Server.finally, Server.set, readFrom, Event.readFrom]
    · simp [Server.finally, Server.set, writtenTo, Event.writtenTo]
  · refine turns_other (t := .done) hj rfl ?_ ?_
    · simp [Server.finally, Server.set, readFrom, Event.readFrom]
    · simp [Server.finally, Server.set, writtenTo, Event.writtenTo]

theorem turns_catch {j : ClientId} (e : Exception) (c : ClientId) : Turns s (s.catch j e) c := by
  unfold Server.catch
  split
  · exact turns_finally c
  · exact turns_finally (j := j) c

theorem turns_of_step (hk : Kept s) (hs : s.step a = some s') (c : ClientId) : Turns s s' c := by
  obtain ⟨-, hd⟩ := does_of_step hs
  cases hd with
  | accept ok =>
    cases ok with
    | true =>
      by_cases hc : c = s.accepted
      · refine .rests rfl rfl ?_
        have hnone := hk.fresh s.accepted (Nat.le_refl _)
        have howes : (s.accept true).owes s.accepted = some [] :=
          owes_of_update (s := s) (t := .start) rfl
        rw [hc, howes, Server.owes, hnone]
        rfl
      · exact turns_other (t := .start) hc rfl rfl rfl
    | false => exact .rests rfl rfl rfl
  | @getStream j ok htask =>
    cases ok with
    | true =>
      by_cases hc : c = j
      · refine .rests rfl rfl ?_
        have howes : (s.getStream j true).owes j = some [] :=
          owes_of_update (s := s) (t := .reading (List.replicate MAX_SIZE 0)) rfl
        rw [hc, howes, owes_of_tasks htask]
        rfl
      · exact turns_other hc rfl rfl rfl
    | false => exact .rests rfl rfl rfl
  | @reads j buff bytes htask hlen _ =>
    have hsized : buff.length = MAX_SIZE := hk.sized j _ htask
    by_cases hc : c = j
    · subst hc
      have howes : s.owes c = some [] := owes_of_tasks htask
      refine .takes bytes howes ⟨rfl, by omega⟩ ?_ ?_ ?_
      · simp [readFrom, Event.readFrom]
      · simp [writtenTo, Event.writtenTo]
      · rw [owes_of_update (s := s) rfl, Task.owes, List.take_left]
        rfl
    · have hj : j ≠ c := fun he => hc he.symm
      refine turns_other hc rfl ?_ ?_
      · simp [readFrom, Event.readFrom, hj]
      · simp [writtenTo, Event.writtenTo]
  | ends htask => exact turns_finally c
  | readThrows e htask => exact turns_catch e c
  | @writes j buff n htask =>
    by_cases hc : c = j
    · subst hc
      have howes : s.owes c = some (buff.take n ++ []) := by
        rw [owes_of_tasks htask, Task.owes, List.append_nil]
      refine .gives (buff.take n) howes ?_ ?_ (owes_of_update (s := s) (t := .reading buff) rfl)
      · simp [readFrom, Event.readFrom]
      · simp [writtenTo, Event.writtenTo]
    · have hj : j ≠ c := fun he => hc he.symm
      refine turns_other hc rfl ?_ ?_
      · simp [readFrom, Event.readFrom]
      · simp [writtenTo, Event.writtenTo, hj]
  | writeThrows e htask => exact turns_catch e c

/-- The tasks keep what is read and not written yet, until they are done. -/
theorem keeps (c : ClientId) :
    Relay.Keeps server Machine.free (Relay.halfDuplex MAX_SIZE) (fun s => readFrom c s.log)
      (fun s => writtenTo c s.log) (fun s => s.owes c) where
  starts := by
    rintro s rfl
    exact ⟨rfl, rfl, fun _ he => (Option.some.inj he).symm⟩
  turns s a s' hr _ hs := turns_of_step (kept_of_reachable hr) hs c

/-- `WriteAsync` of the tasks. -/
def sender : Sender Server Action UInt8 where
  sent c s := writtenTo c s.log
  owes c s := s.owes c
  succeeds
    | .write c .done => some c
    | _ => none

theorem writtenTo_catch {j : ClientId} (e : Exception) :
    writtenTo c (s.catch j e).log = writtenTo c s.log := by
  unfold Server.catch
  split
  · simp [Server.finally, Server.set, writtenTo, Event.writtenTo]
  · simp [Server.crash, Server.finally, Server.set, writtenTo, Event.writtenTo]

theorem announces (c : ClientId) : Sender.Announces sender server Machine.free c := by
  intro s a s' _ _ hs hne
  obtain ⟨-, hd⟩ := does_of_step hs
  cases hd with
  | accept ok => cases ok <;> rfl
  | getStream ok _ => cases ok <;> rfl
  | reads _ _ _ => simp [sender, writtenTo, Event.writtenTo]
  | ends _ => simp [sender, Server.finally, Server.set, writtenTo, Event.writtenTo]
  | readThrows e _ | writeThrows e _ => exact writtenTo_catch e
  | @writes j buff n _ =>
    have hj : j ≠ c := fun he => hne (congrArg some he)
    simp [sender, writtenTo, Event.writtenTo, hj]

/-- Piece by piece. -/
theorem isRelay (c : ClientId) :
    Relay.IsRelay (sender.pieces server) (Sender.obeys Machine.free) Relay.never
      (Relay.halfDuplex MAX_SIZE) (fun s => readFrom c s.core.log) (fun s => s.out c) :=
  Sender.isRelay (keeps c) (announces c)

/-- Toward each client the server is the relay with one buffer, whose writes go out piece by piece,
and some of the pieces before a write that fails; and what the client has open is closed once, when
its task is done. -/
theorem server_refines_relay (c : ClientId) :
    (Relay.IsRelay (sender.pieces server) (Sender.obeys Machine.free) Relay.never
        (Relay.halfDuplex MAX_SIZE) (fun s => readFrom c s.core.log) (fun s => s.out c) ∧
      Relay.Refines (sender.pieces server) (Sender.obeys Machine.free) Relay.never
        (Relay.halfDuplex MAX_SIZE) (fun s => readFrom c s.core.log) (fun s => s.out c)) ∧
    ∀ s, server.Reachable Machine.free s →
      s.log.count (.closed c) = if s.tasks c = some .done then 1 else 0 :=
  ⟨⟨isRelay c, (isRelay c).refines⟩, fun _ hr => (kept_of_reachable hr).closed c⟩

end EchoBenchmark.Dotnet
