import EchoBenchmark.Boost.Client
import EchoBenchmark.Lib.Bisimulation

/-!
The echo server with stackless coroutines: a client and the server are one function each, which is
called for every completion and goes on behind the `yield` that it stopped at.
-/

namespace EchoBenchmark.Boost.Coroutine

open CString (Frame)

/-- The `boost::asio::coroutine` of a client. -/
inductive Resume
  | start
  | afterRead
  | afterWrite
  deriving DecidableEq

/-- `Client`, with the operation under way and the history. -/
structure Client where
  buf : Frame
  coro : Resume
  pending : Pending
  destroyed : Bool
  log : List Event

namespace Client

/-- `Client::Client`, over the bytes that the memory held. -/
def new (cells : Nat → Char) : Client := ⟨⟨cells, []⟩, .start, .none, false, []⟩

/-- `yield _soc.async_read_some(buffer(_buf, BUFLEN), …)`. -/
def asyncReadSome (c : Client) : Client :=
  { c with coro := .afterRead, pending := .read, log := .startedRead :: c.log }

/-- `yield async_write(_soc, buffer(_buf, length), …)`. -/
def asyncWrite (c : Client) (length : Nat) : Client :=
  { c with
    coro := .afterWrite
    pending := .write length
    log := .startedWrite (c.buf.bytes length) :: c.log }

/-- `delete this`. -/
def delete (c : Client) : Client := { c with destroyed := true, log := .destroyed :: c.log }

/-- `Client::run`. -/
def run (c : Client) (err : Bool) (length : Nat) : Client :=
  if err then c.delete
  else
    match c.coro with
    | .start | .afterWrite => c.asyncReadSome
    | .afterRead => c.asyncWrite length

/-- The read completes, with the bytes in `_buf` or with an error. -/
def readDone (c : Client) : Option Bytes → Client
  | none => { c with pending := .none, log := .readError :: c.log }.run true 0
  | some bytes =>
    { c with
      pending := .none
      buf := c.buf.storeAll 0 bytes
      log := .readDone bytes :: c.log }.run false bytes.length

/-- The write of `n` bytes completes, or fails. -/
def writeDone (c : Client) (n : Nat) (ok : Bool) : Client :=
  if ok then { c with pending := .none, log := .writeDone :: c.log }.run false n
  else { c with pending := .none, log := .writeError :: c.log }.run true 0

end Client

/-- The `boost::asio::coroutine` of the server. -/
inductive ServerResume
  | start
  | afterAccept

/-- `Server`: its clients, `_newClient`, the coroutine, whether an accept is under way, and how many
clients were created. -/
structure Server where
  clients : Nat → Option Client
  newClient : Option Nat
  coro : ServerResume
  accepting : Bool
  created : Nat

namespace Server

/-- `Server::Server`. -/
def new : Server := ⟨fun _ => none, none, .start, false, 0⟩

def set (s : Server) (id : Nat) (c : Client) : Server :=
  { s with clients := Function.update s.clients id (some c) }

/-- `_newClient = new Client(…); yield _acceptor.async_accept(_newClient->soc(), …);`. -/
def asyncAccept (s : Server) (cells : Nat → Char) : Server :=
  { s with
    clients := Function.update s.clients s.created (some (Client.new cells))
    newClient := some s.created
    coro := .afterAccept
    accepting := true
    created := s.created + 1 }

/-- `_newClient->run();`. -/
def runNewClient (s : Server) : Option Server :=
  match s.newClient with
  | some id => (s.clients id).map fun c => s.set id (c.run false 0)
  | none => none

/-- `Server::run`; the memory of the next client holds `cells`. -/
def run (s : Server) (err : Bool) (cells : Nat → Char) : Option Server :=
  if err then some s
  else
    match s.coro with
    | .start => some (s.asyncAccept cells)
    | .afterAccept => s.runNewClient.map fun s' => s'.asyncAccept cells

/-- `Server::~Server`. -/
def destroy (s : Server) : Server :=
  match s.newClient with
  | some id =>
    match s.clients id with
    | some c => s.set id c.delete
    | none => s
  | none => s

/-- `run` is called for an operation that was started, once. -/
def step (s : Server) : Action → Option Server
  | .accept ok cells =>
    if s.accepting then { s with accepting := false }.run (!ok) cells else none
  | .read id result =>
    match s.clients id with
    | some c =>
      if c.destroyed = false ∧ c.pending = .read then some (s.set id (c.readDone result)) else none
    | none => none
  | .write id ok =>
    match s.clients id with
    | some c =>
      match c.pending with
      | .write n => if c.destroyed then none else some (s.set id (c.writeDone n ok))
      | _ => none
    | none => none

end Server

/-- The server, from the first `server.run()` on. -/
def coroutine : Machine Server Action where
  init s := ∃ cells, Server.new.run false cells = some s
  step := Server.step

/-! ### The same with callbacks -/

/-- Where the coroutine of a client stands, by the operation under way. -/
def Pending.resume : Pending → Resume
  | .none => .start
  | .read => .afterRead
  | .write _ => .afterWrite

/-- A client and its like in the server with callbacks. -/
structure Twin (c : Client) (d : Boost.Client) : Prop where
  log : c.log = d.log
  pending : c.pending = d.pending
  destroyed : c.destroyed = d.destroyed
  coro : c.destroyed = false → c.coro = Pending.resume c.pending

/-- The two servers stand at the same place; the one with coroutines goes on after a failed
`accept`. -/
structure Twins (s : Server) (u : Boost.Server) : Prop where
  clients : ∀ id, Option.Rel Twin (s.clients id) (u.clients id)
  created : s.created = u.created
  newClient : s.accepting = true → ∃ id c, s.newClient = some id ∧ u.accepting = some id ∧
    s.clients id = some c
  deleted : u.deleted = !s.accepting
  coro : s.coro = .afterAccept
  tidy : Tidy u

variable {c : Client} {d : Boost.Client} {s s' : Server} {u : Boost.Server} {a : Action}
  {id n : Nat} {p : Server → Action → Prop}

namespace Twin

theorem new (cells cells' : Nat → Char) : Twin (Client.new cells) (Boost.Client.new cells') :=
  ⟨rfl, rfl, rfl, fun _ => rfl⟩

/-- A client that was not used yet begins to read. -/
theorem opened (h : Twin c d) (hd : c.destroyed = false) (hp : c.pending = .none) :
    Twin (c.run false 0) d.open := by
  have hrun : c.run false 0 = c.asyncReadSome := by
    have hcoro : c.coro = .start := by rw [h.coro hd, hp, Pending.resume]
    simp [Client.run, hcoro]
  rw [hrun]
  refine ⟨?_, rfl, h.destroyed, fun _ => rfl⟩
  exact congrArg (Event.startedRead :: ·) h.log

theorem readDone (h : Twin c d) (hd : c.destroyed = false) (hp : c.pending = .read)
    (r : Option Bytes) : Twin (c.readDone r) (d.onRead r) := by
  have hcoro : c.coro = .afterRead := by rw [h.coro hd, hp, Pending.resume]
  cases r with
  | none =>
    simp only [Client.readDone, Client.run, if_true, Client.delete, Boost.Client.onRead,
      Boost.Client.delete]
    refine ⟨by rw [h.log], rfl, rfl, ?_⟩
    intro hlive
    cases hlive
  | some bytes =>
    -- both write what was read; the zero byte of the callback lies behind it
    have hbytes : (c.buf.storeAll 0 bytes).bytes bytes.length = bytes :=
      CString.Frame.holds_storeAll.bytes_eq
    have hbytes' : ((d.buf.storeAll 0 bytes).store bytes.length CString.NUL).bytes bytes.length =
        bytes := (Sane.holds_onRead d bytes).bytes_eq
    simp only [Client.readDone, Client.run, hcoro, Client.asyncWrite, Boost.Client.onRead,
      Boost.Client.asyncWrite, hbytes, hbytes', Bool.false_eq_true, if_false]
    exact ⟨by rw [h.log], rfl, h.destroyed, fun _ => rfl⟩

theorem writeDone (h : Twin c d) (hd : c.destroyed = false) (hp : c.pending = .write n)
    (ok : Bool) : Twin (c.writeDone n ok) (d.onWrite ok) := by
  have hcoro : c.coro = .afterWrite := by rw [h.coro hd, hp, Pending.resume]
  cases ok with
  | true =>
    simp only [Client.writeDone, Client.run, hcoro, Client.asyncReadSome, Boost.Client.onWrite,
      Boost.Client.asyncReadSome, if_true, Bool.false_eq_true, if_false]
    exact ⟨by rw [h.log], rfl, h.destroyed, fun _ => rfl⟩
  | false =>
    simp only [Client.writeDone, Client.run, Client.delete, Boost.Client.onWrite,
      Boost.Client.delete, if_true, Bool.false_eq_true, if_false]
    refine ⟨by rw [h.log], rfl, rfl, ?_⟩
    intro hlive
    cases hlive

end Twin

theorem rel_update {f : Nat → Option Client} {g : Nat → Option Boost.Client}
    (h : ∀ j, Option.Rel Twin (f j) (g j)) (ht : Twin c d) (j : Nat) :
    Option.Rel Twin (Function.update f id (some c) j) (Function.update g id (some d) j) := by
  by_cases hj : j = id
  · rw [hj, Function.update_self, Function.update_self]
    exact .some ht
  · rw [Function.update_of_ne hj, Function.update_of_ne hj]
    exact h j

namespace Twins

theorem twin_of_some (h : Twins s u) (hc : s.clients id = some c) :
    ∃ d, u.clients id = some d ∧ Twin c d := by
  have hrel := h.clients id
  rw [hc] at hrel
  generalize hd : u.clients id = o at hrel
  cases hrel with
  | some ht => exact ⟨_, rfl, ht⟩

theorem none_of_none (h : Twins s u) (hc : s.clients id = none) : u.clients id = none := by
  have hrel := h.clients id
  rw [hc] at hrel
  generalize u.clients id = o at hrel
  cases hrel
  rfl

/-- A client whose operation completed goes on alike in both. -/
theorem set {u' : Boost.Server} (h : Twins s u) (ht : Twin c d) (hu' : u' = u.set id d)
    (htidy : Tidy u') : Twins (s.set id c) u' where
  clients := by
    rw [hu']
    exact rel_update h.clients ht
  created := by
    rw [hu']
    exact h.created
  newClient ha := by
    obtain ⟨j, e, hn, hu, he⟩ := h.newClient ha
    rw [hu']
    refine ⟨j, ?_⟩
    by_cases hj : j = id
    · exact ⟨c, hn, hu, by rw [hj]; exact Function.update_self _ _ _⟩
    · exact ⟨e, hn, hu, (Function.update_of_ne hj _ _).trans he⟩
  deleted := by
    rw [hu']
    exact h.deleted
  coro := h.coro
  tidy := htidy

theorem readDone (h : Twins s u) (hlive : u.deleted = false) (r : Option Bytes) :
    Option.Rel Twins (s.step (.read id r)) (u.step (.read id r)) := by
  simp only [Server.step, Boost.Server.step, hlive]
  cases hc : s.clients id with
  | none =>
    rw [h.none_of_none hc]
    exact .none
  | some c =>
    obtain ⟨d, hd, ht⟩ := h.twin_of_some hc
    rw [hd]
    simp only [← ht.destroyed, ← ht.pending]
    split
    · rename_i hready
      have hstep : u.step (.read id r) = some (u.set id (d.onRead r)) := by
        simp only [Boost.Server.step, hlive, hd, ← ht.destroyed, ← ht.pending]
        exact if_pos hready
      exact .some (h.set (ht.readDone hready.1 hready.2 r) rfl (h.tidy.step hstep))
    · exact .none

theorem writeDone (h : Twins s u) (hlive : u.deleted = false) (ok : Bool) :
    Option.Rel Twins (s.step (.write id ok)) (u.step (.write id ok)) := by
  simp only [Server.step, Boost.Server.step, hlive]
  cases hc : s.clients id with
  | none =>
    rw [h.none_of_none hc]
    exact .none
  | some c =>
    obtain ⟨d, hd, ht⟩ := h.twin_of_some hc
    rw [hd]
    simp only [← ht.destroyed, ← ht.pending]
    cases hp : c.pending with
    | none | read => exact .none
    | write n =>
      dsimp only
      split
      · exact .none
      · rename_i hopen
        have hopen' : c.destroyed = false := by simpa using hopen
        have hstep : u.step (.write id ok) = some (u.set id (d.onWrite ok)) := by
          simp only [Boost.Server.step, hlive, hd, ← ht.destroyed, ← ht.pending, hp, hopen']
          rfl
        exact .some (h.set (ht.writeDone hopen' hp ok) rfl (h.tidy.step hstep))

theorem accepted (h : Twins s u) (hlive : u.deleted = false) (ok : Bool) (cells : Nat → Char) :
    Option.Rel Twins (s.step (.accept ok cells)) (u.step (.accept ok cells)) := by
  have ha : s.accepting = true := by simpa [hlive] using h.deleted
  obtain ⟨id, c, hn, hu, hc⟩ := h.newClient ha
  obtain ⟨d, hd, ht⟩ := h.twin_of_some hc
  have hlog := h.tidy.fresh id d hu hd
  have hstep : ∀ u', u.step (.accept ok cells) = some u' → Tidy u' := fun _ => h.tidy.step
  simp only [Server.step, Boost.Server.step, hlive, ha, Boost.Server.onAccept, hu, hd] at hstep ⊢
  cases ok with
  | true =>
    have hnew : d.destroyed = false ∧ d.pending = .none := by
      cases (h.tidy.sane id d hd).life with
      | new _ hp hl => exact ⟨hl, hp⟩
      | reading hl _ _ | writing hl _ _ _ | gone hl _ _ =>
        rw [hlog] at hl
        cases hl
    have hopen : Twin (c.run false 0) d.open :=
      ht.opened (ht.destroyed.trans hnew.1) (ht.pending.trans hnew.2)
    simp only [Server.run, h.coro, Server.runNewClient, hn, hc, Bool.not_true,
      Bool.false_eq_true, if_false, if_true, Option.map_some] at hstep ⊢
    refine .some ⟨?_, ?_, ?_, ?_, rfl, hstep _ rfl⟩
    · have hcreated : (u.set id d.open).created = s.created := h.created.symm
      simp only [Server.asyncAccept, Boost.Server.newHandler, Server.set, hcreated]
      exact rel_update (rel_update h.clients hopen) (Twin.new cells cells)
    · exact congrArg (· + 1) h.created
    · intro _
      refine ⟨s.created, Client.new cells, rfl, ?_, Function.update_self _ _ _⟩
      exact congrArg some h.created.symm
    · exact h.deleted.trans (by rw [ha]; rfl)
  | false =>
    simp only [Server.run, Bool.not_false, if_true, Bool.false_eq_true, if_false] at hstep ⊢
    refine .some ⟨h.clients, h.created, ?_, rfl, h.coro, hstep _ rfl⟩
    intro haccepting
    cases haccepting

/-- As long as the server with callbacks lives, both take the same completions. -/
theorem step (h : Twins s u) (hlive : u.deleted = false) (a : Action) :
    Option.Rel Twins (s.step a) (u.step a) := by
  cases a with
  | accept ok cells => exact h.accepted hlive ok cells
  | read id r => exact h.readDone hlive r
  | write id ok => exact h.writeDone hlive ok

theorem start (cells cells' : Nat → Char) :
    Twins (Server.new.asyncAccept cells) (Boost.Server.start cells') where
  clients := rel_update (fun _ => .none) (Twin.new cells cells')
  created := rfl
  newClient _ := ⟨0, Client.new cells, rfl, rfl, rfl⟩
  deleted := rfl
  coro := rfl
  tidy := Tidy.newHandler (fun id c hc => by cases hc) (fun id _ => rfl) cells'

end Twins

/-- What the callbacks do, the coroutines do too, whichever completions are admitted. -/
theorem simulation (q : Action → Prop) :
    Machine.Simulation server (fun _ a => q a) coroutine (fun _ a => q a) fun u s => Twins s u where
  step {u s a v} h hp hs := by
    have hrel := h.step (Boost.Server.not_deleted_of_step hs) a
    rw [show u.step a = some v from hs] at hrel
    generalize hs' : s.step a = o at hrel
    cases hrel with
    | some ht => exact ⟨hp, _, hs', ht⟩

theorem exists_twin (u : Boost.Server) (hu : server.init u) :
    ∃ s, coroutine.init s ∧ Twins s u := by
  obtain ⟨cells, rfl⟩ := hu
  exact ⟨_, ⟨cells, rfl⟩, Twins.start cells cells⟩

/-- No `accept` fails, for which the server with callbacks would delete itself, and no read fills
the buffer, behind which it would store a zero byte. -/
def harmless : Action → Prop
  | .accept ok _ => ok = true
  | .read _ (some bytes) => bytes.length < BUFLEN
  | _ => True

instance : DecidablePred harmless
  | .accept ok _ => inferInstanceAs (Decidable (ok = true))
  | .write _ _ | .read _ none => isTrue trivial
  | .read _ (some bytes) => inferInstanceAs (Decidable (bytes.length < BUFLEN))

/-- Only a failed `accept` ends the server with callbacks. -/
theorem deleted_of_step {u v : Boost.Server} (ha : ∀ ok cells, a = .accept ok cells → ok = true)
    (hs : u.step a = some v) : v.deleted = false := by
  have hlive := Boost.Server.not_deleted_of_step hs
  simp only [Boost.Server.step, hlive] at hs
  cases a with
  | accept ok cells =>
    obtain rfl := ha ok cells rfl
    simp only [Boost.Server.onAccept, if_true] at hs
    split at hs
    · split at hs
      · cases hs
        exact hlive
      · cases hs
    · cases hs
  | read id r =>
    dsimp only at hs
    split at hs
    · split at hs
      · cases hs
        exact hlive
      · cases hs
    · cases hs
  | write id ok =>
    dsimp only at hs
    split at hs
    · split at hs
      · split at hs
        · cases hs
        · cases hs
          exact hlive
      · cases hs
    · cases hs

/-- As long as no `accept` fails, the coroutines and the callbacks take the same completions. -/
theorem bisimulation {q : Action → Prop} (hq : ∀ ok cells, q (.accept ok cells) → ok = true) :
    Machine.Bisimulation coroutine (fun _ a => q a) server (fun _ a => q a)
      fun s u => Twins s u ∧ u.deleted = false where
  guards _ _ _ _ := Iff.rfl
  steps s u a h hp := by
    have hrel := h.1.step h.2 a
    have hdeleted : ∀ v, u.step a = some v → v.deleted = false := by
      intro v
      apply deleted_of_step
      rintro ok cells rfl
      exact hq ok cells hp
    change Option.Rel _ (s.step a) (u.step a)
    generalize s.step a = o at hrel
    generalize u.step a = o' at hrel hdeleted
    cases hrel with
    | some ht => exact .some ⟨ht, hdeleted _ rfl⟩
    | none => exact .none

/-- What each client started and what completed. -/
def Server.histories (s : Server) (id : Nat) : Option (List Event) := (s.clients id).map Client.log

def callbackHistories (u : Boost.Server) (id : Nat) : Option (List Event) :=
  (u.clients id).map Boost.Client.log

theorem Twins.histories_eq (h : Twins s u) : s.histories = callbackHistories u := by
  funext id
  have hrel := h.clients id
  rw [Server.histories, callbackHistories]
  generalize s.clients id = o at hrel
  generalize u.clients id = o' at hrel
  cases hrel with
  | some ht => exact congrArg some ht.log
  | none => rfl

/-- As long as no `accept` fails and no read fills a buffer, the same completions are possible in
the same order with coroutines and with callbacks, and every client has the same history after
them; what the memory holds at the start does not matter. -/
theorem same_histories (cells cells' : Nat → Char) (as : List Action) :
    (coroutine.exec (fun _ a => harmless a) (Server.new.asyncAccept cells) as).map
        Server.histories =
      (server.exec (fun _ a => harmless a) (Boost.Server.start cells') as).map
        callbackHistories :=
  (bisimulation fun _ _ h => h).map_exec (fun _ _ h => h.1.histories_eq)
    ⟨Twins.start cells cells', rfl⟩ as

/-! ### The buffer, and the end of the clients -/

/-- `async_read_some` completes with an error, or with at most as many bytes as it asked for. -/
def delivers : Action → Prop
  | .read _ (some bytes) => bytes.length ≤ BUFLEN
  | _ => True

instance : DecidablePred delivers
  | .accept _ _ | .write _ _ | .read _ none => isTrue trivial
  | .read _ (some bytes) => inferInstanceAs (Decidable (bytes.length ≤ BUFLEN))

theorem clients_update {f : Nat → Option Client} {j : Nat} {c' : Client}
    (h : Function.update f id (some c) j = some c') : j = id ∧ c' = c ∨ j ≠ id ∧ f j = some c' := by
  by_cases hj : j = id
  · rw [hj, Function.update_self] at h
    exact .inl ⟨hj, (Option.some.inj h).symm⟩
  · rw [Function.update_of_ne hj] at h
    exact .inr ⟨hj, h⟩

/-- `_newClient` points to a client that was not used yet, and no other client is like that. -/
structure Waits (s : Server) : Prop where
  coro : s.coro = .afterAccept
  fresh : ∃ w c, s.newClient = some w ∧ s.clients w = some c ∧ c.pending = .none ∧ c.log = []
  bound : ∀ id, s.created ≤ id → s.clients id = none
  only : ∀ id c, s.clients id = some c → c.log = [] → s.newClient = some id

/-- Every call of `run` for a client is noted in its history. -/
theorem Client.log_run_ne_nil {length : Nat} (c : Client) (err : Bool) :
    (c.run err length).log ≠ [] := by
  unfold Client.run
  split
  · exact List.cons_ne_nil _ _
  · split <;> exact List.cons_ne_nil _ _

theorem Client.log_readDone_ne_nil (c : Client) (r : Option Bytes) : (c.readDone r).log ≠ [] := by
  cases r with
  | none => exact Client.log_run_ne_nil _ _
  | some bytes => exact Client.log_run_ne_nil _ _

theorem Client.log_writeDone_ne_nil (c : Client) (n : Nat) (ok : Bool) :
    (c.writeDone n ok).log ≠ [] := by
  unfold Client.writeDone
  split
  · exact Client.log_run_ne_nil _ _
  · exact Client.log_run_ne_nil _ _

namespace Waits

/-- A client with an operation under way gets another history. -/
theorem set {d : Client} (h : Waits s) (hc : s.clients id = some c) (hp : c.pending ≠ .none)
    (hd : d.log ≠ []) : Waits (s.set id d) where
  coro := h.coro
  fresh := by
    obtain ⟨w, e, hn, he, hidle, hlog⟩ := h.fresh
    have hw : w ≠ id := by
      rintro rfl
      cases he.symm.trans hc
      exact hp hidle
    exact ⟨w, e, hn, (Function.update_of_ne hw _ _).trans he, hidle, hlog⟩
  bound j hj := by
    have hne : j ≠ id := by
      rintro rfl
      cases (h.bound j hj).symm.trans hc
    exact (Function.update_of_ne hne _ _).trans (h.bound j hj)
  only j e he hlog := by
    rcases clients_update he with ⟨-, rfl⟩ | ⟨-, he⟩
    · exact (hd hlog).elim
    · exact h.only j e he hlog

/-- The client that waited is used now, and the next one waits. -/
theorem next {d : Client} {w : Nat} (h : Waits s) (hn : s.newClient = some w)
    (hw : s.clients w = some c) (hd : d.log ≠ []) (cells : Nat → Char) :
    Waits ((s.set w d).asyncAccept cells) where
  coro := rfl
  fresh := ⟨s.created, Client.new cells, rfl, Function.update_self _ _ _, rfl, rfl⟩
  bound j hj := by
    have hlt : s.created < j := hj
    have hne : j ≠ w := by
      rintro rfl
      cases (h.bound j (Nat.le_of_lt hlt)).symm.trans hw
    refine (Function.update_of_ne (Nat.ne_of_gt hlt) _ _).trans ?_
    exact (Function.update_of_ne hne _ _).trans (h.bound j (Nat.le_of_lt hlt))
  only j e he hlog := by
    rcases clients_update he with ⟨rfl, -⟩ | ⟨-, he⟩
    · rfl
    · rcases clients_update he with ⟨-, rfl⟩ | ⟨hj, he⟩
      · exact (hd hlog).elim
      · cases hn.symm.trans (h.only j e he hlog)
        exact (hj rfl).elim

theorem step (h : Waits s) (hs : s.step a = some s') : Waits s' := by
  cases a with
  | accept ok cells =>
    obtain ⟨w, c, hn, hc, hidle, hlog⟩ := h.fresh
    simp only [Server.step] at hs
    split at hs
    · simp only [Server.run] at hs
      split at hs
      · cases hs
        exact ⟨h.coro, ⟨w, c, hn, hc, hidle, hlog⟩, h.bound, h.only⟩
      · simp only [h.coro, Server.runNewClient, hn, hc] at hs
        cases hs
        exact h.next hn hc (Client.log_run_ne_nil c false) cells
    · cases hs
  | read id r =>
    simp only [Server.step] at hs
    cases hc : s.clients id with
    | none => simp [hc] at hs
    | some c =>
      simp only [hc] at hs
      split at hs
      · rename_i hready
        cases hs
        exact h.set hc (by rw [hready.2]; exact nofun) (Client.log_readDone_ne_nil c r)
      · cases hs
  | write id ok =>
    simp only [Server.step] at hs
    cases hc : s.clients id with
    | none => simp [hc] at hs
    | some c =>
      simp only [hc] at hs
      cases hp : c.pending with
      | none | read => simp [hp] at hs
      | write n =>
        simp only [hp] at hs
        split at hs
        · cases hs
        · cases hs
          exact h.set hc (by rw [hp]; exact nofun) (Client.log_writeDone_ne_nil c n ok)

end Waits

theorem waits_of_reachable (hr : coroutine.Reachable p s) : Waits s := by
  apply hr.invariant
  · rintro s₀ ⟨cells, hs⟩
    cases hs
    refine ⟨rfl, ⟨0, Client.new cells, rfl, rfl, rfl, rfl⟩, ?_, ?_⟩
    · intro id hid
      have hlt : 0 < id := hid
      exact (Function.update_of_ne (Nat.ne_of_gt hlt) _ _).trans rfl
    · intro id c hc _
      rcases clients_update hc with ⟨rfl, -⟩ | ⟨-, hc⟩
      · rfl
      · cases hc
  · intro s₀ a s₁ _ h _ hs
    exact h.step hs

/-- What a step makes of a client, or of none. -/
inductive Client.Next (a : Action) (id : Nat) (old : Option Client) : Option Client → Prop
  | same : Next a id old old
  | created (cells : Nat → Char) : old = none → Next a id old (some (Client.new cells))
  | opened {c : Client} : old = some c → c.log = [] → Next a id old (some (c.run false 0))
  | read {c : Client} {r : Option Bytes} : a = .read id r → old = some c → c.destroyed = false →
      c.pending = .read → Next a id old (some (c.readDone r))
  | wrote {c : Client} {n : Nat} {ok : Bool} : a = .write id ok → old = some c →
      c.destroyed = false → c.pending = .write n → Next a id old (some (c.writeDone n ok))

theorem next_of_step (hw : Waits s) (hs : s.step a = some s') (id : Nat) :
    Client.Next a id (s.clients id) (s'.clients id) := by
  cases a with
  | accept ok cells =>
    simp only [Server.step] at hs
    split at hs
    · simp only [Server.run] at hs
      split at hs
      · cases hs
        exact .same
      · obtain ⟨w, d, hn, hd, -, hlog⟩ := hw.fresh
        simp only [hw.coro, Server.runNewClient, hn, hd] at hs
        cases hs
        simp only [Server.asyncAccept, Server.set]
        by_cases hid : id = s.created
        · subst hid
          rw [Function.update_self]
          exact .created cells (hw.bound s.created (Nat.le_refl _))
        · rw [Function.update_of_ne hid]
          by_cases hid' : id = w
          · subst hid'
            rw [Function.update_self]
            exact .opened hd hlog
          · rw [Function.update_of_ne hid']
            exact .same
    · cases hs
  | read j r =>
    simp only [Server.step] at hs
    cases hd : s.clients j with
    | none => simp [hd] at hs
    | some d =>
      simp only [hd] at hs
      split at hs
      · rename_i hready
        cases hs
        simp only [Server.set]
        by_cases hid : id = j
        · subst hid
          rw [Function.update_self]
          exact .read rfl hd hready.1 hready.2
        · rw [Function.update_of_ne hid]
          exact .same
      · cases hs
  | write j ok =>
    simp only [Server.step] at hs
    cases hd : s.clients j with
    | none => simp [hd] at hs
    | some d =>
      simp only [hd] at hs
      cases hp : d.pending with
      | none | read => simp [hp] at hs
      | write n =>
        simp only [hp] at hs
        split at hs
        · cases hs
        · rename_i hlive
          cases hs
          simp only [Server.set]
          by_cases hid : id = j
          · subst hid
            rw [Function.update_self]
            exact .wrote rfl hd (by simpa using hlive) hp
          · rw [Function.update_of_ne hid]
            exact .same

/-- Every client is like a sane one with callbacks. -/
theorem exists_sane (hr : coroutine.Reachable p s) (hc : s.clients id = some c) :
    ∃ d, Twin c d ∧ Sane d := by
  suffices hall : ∀ id c, s.clients id = some c → ∃ d, Twin c d ∧ Sane d from hall id c hc
  apply hr.invariant (I := fun s => ∀ id c, s.clients id = some c → ∃ d, Twin c d ∧ Sane d)
  · rintro s₀ ⟨cells, hs⟩ id c hc
    cases hs
    rcases clients_update hc with ⟨-, rfl⟩ | ⟨-, hc⟩
    · exact ⟨Boost.Client.new cells, Twin.new cells cells, Sane.new cells⟩
    · cases hc
  · intro s a s' hr ih _ hs id c hc
    have hnext := next_of_step (waits_of_reachable hr) hs id
    rw [hc] at hnext
    generalize hold : s.clients id = old at hnext
    cases hnext with
    | same => exact ih id c hold
    | created cells _ => exact ⟨Boost.Client.new cells, Twin.new cells cells, Sane.new cells⟩
    | @opened c₀ hc₀ hlog =>
      obtain ⟨d, ht, hd⟩ := ih id c₀ (hold.trans hc₀)
      have hlog' : d.log = [] := ht.log.symm.trans hlog
      have hnew : d.destroyed = false ∧ d.pending = .none := by
        cases hd.life with
        | new _ hp hl => exact ⟨hl, hp⟩
        | reading hl _ _ | writing hl _ _ _ | gone hl _ _ =>
          rw [hlog'] at hl
          cases hl
      exact ⟨d.open, ht.opened (ht.destroyed.trans hnew.1) (ht.pending.trans hnew.2),
        hd.opened hlog'⟩
    | @read c₀ r _ hc₀ hlive hp =>
      obtain ⟨d, ht, hd⟩ := ih id c₀ (hold.trans hc₀)
      exact ⟨d.onRead r, ht.readDone hlive hp r, hd.onRead (ht.pending.symm.trans hp) r⟩
    | @wrote c₀ n ok _ hc₀ hlive hp =>
      obtain ⟨d, ht, hd⟩ := ih id c₀ (hold.trans hc₀)
      exact ⟨d.onWrite ok, ht.writeDone hlive hp ok, hd.onWrite (ht.pending.symm.trans hp) ok⟩

/-- The function of a client does not touch the buffer. -/
theorem Client.buf_run (c : Client) (err : Bool) (length : Nat) :
    (c.run err length).buf = c.buf := by
  unfold Client.run
  split
  · rfl
  · split <;> rfl

/-- Every store of a client is inside its buffer. -/
theorem inside_of_reachable (hr : coroutine.Reachable (fun _ a => delivers a) s)
    (hc : s.clients id = some c) : ∀ i ∈ c.buf.stores, i < BUFLEN := by
  have h : ∀ id c, s.clients id = some c → ∀ i ∈ c.buf.stores, i < BUFLEN := by
    apply hr.invariant (I := fun s => ∀ id c, s.clients id = some c →
      ∀ i ∈ c.buf.stores, i < BUFLEN)
    · rintro s₀ ⟨cells, hs⟩ id c hc
      cases hs
      rcases clients_update hc with ⟨-, rfl⟩ | ⟨-, hc⟩
      · intro i hi
        cases hi
      · cases hc
    · intro s a s' hr ih hp hs id c hc
      have hnext := next_of_step (waits_of_reachable hr) hs id
      rw [hc] at hnext
      generalize hclient : s.clients id = old at hnext
      cases hnext with
      | same => exact ih id c hclient
      | created cells _ =>
        intro i hi
        cases hi
      | @opened c hold _ =>
        rw [Client.buf_run]
        exact ih id c (hclient.trans hold)
      | @read c r ha hold _ _ =>
        cases r with
        | none => exact ih id c (hclient.trans hold)
        | some bytes =>
          rw [ha] at hp
          have hlen : bytes.length ≤ BUFLEN := hp
          rw [Client.readDone, Client.buf_run]
          intro i hi
          rcases CString.Frame.stores_storeAll.mp hi with hi | ⟨-, hi⟩
          · exact ih id c (hclient.trans hold) i hi
          · omega
      | @wrote c n ok _ hold _ _ =>
        have hbuf : (c.writeDone n ok).buf = c.buf := by
          unfold Client.writeDone
          split
          · exact Client.buf_run _ _ _
          · exact Client.buf_run _ _ _
        rw [hbuf]
        exact ih id c (hclient.trans hold)
  exact h id c hc

/-- Nothing comes behind the end of a client. -/
theorem not_destroyed_of_chain {e : Event} {l : List Event}
    (h : (e :: l).IsChain fun newer older => older.LeadsTo newer) : .destroyed ∉ l := by
  induction l generalizing e with
  | nil => exact List.not_mem_nil
  | cons e' l ih =>
    obtain ⟨hlead, htail⟩ := List.isChain_cons_cons.mp h
    intro hmem
    rcases List.mem_cons.mp hmem with rfl | hmem
    · exact hlead
    · exact ih htail hmem

theorem count_destroyed {e : Event} {l : List Event}
    (h : (e :: l).IsChain fun newer older => older.LeadsTo newer) :
    (e :: l).count .destroyed = if e = .destroyed then 1 else 0 := by
  rw [List.count_cons, List.count_eq_zero.mpr (not_destroyed_of_chain h)]
  simp

/-- At the end of `main`, whenever the service stops: every client was destroyed once, but for those
with an operation under way, which nobody destroys. -/
theorem destroyed_of_reachable (hr : coroutine.Reachable p s)
    (hc : s.destroy.clients id = some c) :
    c.log.count .destroyed = if c.pending = .none then 1 else 0 := by
  have hw := waits_of_reachable hr
  obtain ⟨w, e, hn, he, hidle, hlog⟩ := hw.fresh
  have hdestroy : s.destroy = s.set w e.delete := by simp only [Server.destroy, hn, he]
  rw [hdestroy] at hc
  rcases clients_update hc with ⟨-, rfl⟩ | ⟨hid, hc⟩
  · have hpend : e.delete.pending = .none := hidle
    have hend : e.delete.log = [.destroyed] := congrArg (Event.destroyed :: ·) hlog
    rw [hpend, hend]
    rfl
  · obtain ⟨d, htwin, hsane⟩ := exists_sane hr hc
    have hchain := hsane.alternates.chain
    rw [htwin.log, htwin.pending]
    cases hsane.life with
    | new hl _ _ =>
      have hid' := hw.only id c hc (htwin.log.trans hl)
      cases hn.symm.trans hid'
      exact (hid rfl).elim
    | reading hl hp _ | writing hl hp _ _ | gone hl hp _ =>
      rw [hl] at hchain ⊢
      rw [hp, count_destroyed hchain]
      rfl

/-- However much a read delivers, a client stores inside its buffer only; and whenever the service
stops, `main` ends with every client destroyed once, but for those with an operation under way. -/
theorem coroutine_clients (hr : coroutine.Reachable (fun _ a => delivers a) s) :
    (∀ id c, s.clients id = some c → ∀ i ∈ c.buf.stores, i < BUFLEN) ∧
    ∀ id c, s.destroy.clients id = some c →
      c.log.count .destroyed = if c.pending = .none then 1 else 0 :=
  ⟨fun _ _ hc => inside_of_reachable hr hc, fun _ _ hc => destroyed_of_reachable hr hc⟩

/-- Two bytes come from one client, and another one hangs up. -/
def twoClients : List Action :=
  [.accept true fun _ => CString.NUL, .accept true fun _ => CString.NUL, .read 0 (some ['h', 'i']),
    .read 1 none]

theorem coroutine_clients_two :
    ∃ s, coroutine.Reachable (fun _ a => delivers a) s ∧
      s.histories 0 = some [.startedWrite ['h', 'i'], .readDone ['h', 'i'], .startedRead] ∧
      ∀ id c, s.destroy.clients id = some c →
        c.log.count .destroyed = if c.pending = .none then 1 else 0 := by
  obtain ⟨s, hr, hf⟩ := Machine.exists_of_exec (M := coroutine) (p := fun _ a => delivers a)
    (s := Server.new.asyncAccept fun _ => CString.NUL) (l := twoClients)
    (f := fun s => s.histories 0)
    (b := some [.startedWrite ['h', 'i'], .readDone ['h', 'i'], .startedRead]) ⟨_, rfl⟩ (by decide)
  exact ⟨s, hr, hf, (coroutine_clients hr).2⟩

end EchoBenchmark.Boost.Coroutine
