import EchoBenchmark.Lib.CString
import EchoBenchmark.Lib.Machine

/-!
The echo server on boost::asio: its clients, each with at most one operation under way, and the
buffer that each of them reads into and writes from.
-/

namespace EchoBenchmark.Boost

open CString (Frame NUL)

def BUFLEN : Nat := 1024

abbrev Bytes := List Char

/-- What a client starts, what completes, and its end. -/
inductive Event
  | startedRead
  | readDone (bytes : Bytes)
  | readError
  | startedWrite (bytes : Bytes)
  | writeDone
  | writeError
  | destroyed
  deriving DecidableEq

/-- The operation whose handler is still to come. -/
inductive Pending
  | none
  | read
  | write (n : Nat)
  deriving DecidableEq

/-- `Client`: `_buf` and where it was stored to, the operation under way, and the history with the
newest entry first. -/
structure Client where
  buf : Frame
  pending : Pending
  destroyed : Bool
  log : List Event

namespace Client

/-- `Client::Client`, over the bytes that the memory held. -/
def new (cells : Nat → Char) : Client := ⟨⟨cells, []⟩, .none, false, []⟩

/-- `_soc.async_read_some(buffer(_buf, BUFLEN), …onRead…)`. -/
def asyncReadSome (c : Client) : Client :=
  { c with pending := .read, log := .startedRead :: c.log }

/-- `async_write(_soc, buffer(_buf, n), …onWrite…)`. -/
def asyncWrite (c : Client) (n : Nat) : Client :=
  { c with pending := .write n, log := .startedWrite (c.buf.bytes n) :: c.log }

/-- `delete this`. -/
def delete (c : Client) : Client := { c with destroyed := true, log := .destroyed :: c.log }

/-- `Client::open`. -/
def «open» (c : Client) : Client := c.asyncReadSome

/-- `Client::onRead`, with the bytes that were read into `_buf`, or an error. -/
def onRead (c : Client) : Option Bytes → Client
  | none => { c with pending := .none, log := .readError :: c.log }.delete
  | some bytes =>
    let c := { c with
      pending := .none
      buf := c.buf.storeAll 0 bytes
      log := .readDone bytes :: c.log }
    let c := { c with buf := c.buf.store bytes.length NUL }
    c.asyncWrite bytes.length

/-- `Client::onWrite`, for all the bytes or for an error. -/
def onWrite (c : Client) (ok : Bool) : Client :=
  if ok then { c with pending := .none, log := .writeDone :: c.log }.asyncReadSome
  else { c with pending := .none, log := .writeError :: c.log }.delete

end Client

/-- `Server`: its clients, the one that `async_accept` waits with, and how many were created;
`deleted` tells that it deleted itself. It lives on the stack of `main`, so the process does not go
on after that. -/
structure Server where
  clients : Nat → Option Client
  accepting : Option Nat
  created : Nat
  deleted : Bool

namespace Server

/-- `newHandler`. -/
def newHandler (s : Server) (cells : Nat → Char) : Server :=
  { s with
    clients := Function.update s.clients s.created (some (Client.new cells))
    accepting := some s.created
    created := s.created + 1 }

/-- `Server::Server`. -/
def start (cells : Nat → Char) : Server :=
  newHandler ⟨fun _ => none, none, 0, false⟩ cells

def set (s : Server) (id : Nat) (c : Client) : Server :=
  { s with clients := Function.update s.clients id (some c) }

@[simp] theorem clients_set_self (s : Server) (id : Nat) (c : Client) :
    (s.set id c).clients id = some c := Function.update_self _ _ _

theorem clients_set_other (s : Server) {id j : Nat} (c : Client) (h : j ≠ id) :
    (s.set id c).clients j = s.clients j := Function.update_of_ne h _ _

@[simp] theorem clients_newHandler_self (s : Server) (cells : Nat → Char) :
    (s.newHandler cells).clients s.created = some (Client.new cells) := Function.update_self _ _ _

theorem clients_newHandler_other (s : Server) {j : Nat} (cells : Nat → Char) (h : j ≠ s.created) :
    (s.newHandler cells).clients j = s.clients j := Function.update_of_ne h _ _

/-- `Server::onAccept`; the memory of the next client holds `cells`. -/
def onAccept (s : Server) (ok : Bool) (cells : Nat → Char) : Option Server :=
  match s.accepting with
  | some id =>
    match s.clients id with
    | some c =>
      if ok then some ((s.set id c.open).newHandler cells)
      else some { s with accepting := none, deleted := true }
    | none => none
  | none => none

end Server

/-- What `ioService.run()` delivers next. -/
inductive Action
  | accept (ok : Bool) (cells : Nat → Char)
  | read (id : Nat) (result : Option Bytes)
  | write (id : Nat) (ok : Bool)

namespace Server

/-- A handler is called for an operation that was started, once. -/
def step (s : Server) (a : Action) : Option Server :=
  match s.deleted, a with
  | true, _ => none
  | false, .accept ok cells => s.onAccept ok cells
  | false, .read id result =>
    match s.clients id with
    | some c =>
      if c.destroyed = false ∧ c.pending = .read then some (s.set id (c.onRead result)) else none
    | none => none
  | false, .write id ok =>
    match s.clients id with
    | some c =>
      match c.pending with
      | .write _ => if c.destroyed then none else some (s.set id (c.onWrite ok))
      | _ => none
    | none => none

end Server

/-- The server, from its first `async_accept` on. -/
def server : Machine Server Action where
  init s := ∃ cells, s = Server.start cells
  step := Server.step

/-- `async_read_some` completes with an error, or with at least one byte and as many as it asked
for at most. -/
def asio (_ : Server) : Action → Prop
  | .read _ (some bytes) => 1 ≤ bytes.length ∧ bytes.length ≤ BUFLEN
  | _ => True

instance (s : Server) : (a : Action) → Decidable (asio s a)
  | .accept _ _ | .write _ _ | .read _ none => isTrue trivial
  | .read _ (some bytes) => inferInstanceAs (Decidable (1 ≤ bytes.length ∧ bytes.length ≤ BUFLEN))

/-! ### The life of a client -/

/-- What comes directly after an entry of the history. -/
def Event.LeadsTo : Event → Event → Prop
  | .startedRead, .readDone _ | .startedRead, .readError => True
  | .readDone bytes, .startedWrite bytes' => bytes' = bytes
  | .startedWrite _, .writeDone | .startedWrite _, .writeError => True
  | .writeDone, .startedRead => True
  | .readError, .destroyed | .writeError, .destroyed => True
  | _, _ => False

/-- Reads and writes alternate, every write is of what was read last, and the first error is
followed by the end. -/
structure Alternates (log : List Event) : Prop where
  chain : log.IsChain fun newer older => older.LeadsTo newer
  first : ∀ e, log.getLast? = some e → e = .startedRead

/-- How the state of a client goes with its history. -/
inductive Life : Client → Prop
  | new {c : Client} : c.log = [] → c.pending = .none → c.destroyed = false → Life c
  | reading {c : Client} {l : List Event} : c.log = .startedRead :: l → c.pending = .read →
      c.destroyed = false → Life c
  | writing {c : Client} {bytes : Bytes} {l : List Event} : c.log = .startedWrite bytes :: l →
      c.pending = .write bytes.length → c.destroyed = false → c.buf.bytes bytes.length = bytes →
      Life c
  | gone {c : Client} {l : List Event} : c.log = .destroyed :: l → c.pending = .none →
      c.destroyed = true → Life c

/-- A client keeps within its buffer, alternates, and stands where its history ends. -/
structure Proper (c : Client) : Prop where
  stores : ∀ i ∈ c.buf.stores, i < BUFLEN
  alternates : Alternates c.log
  life : Life c

/-- What holds of every client, whatever was read. -/
structure Sane (c : Client) : Prop where
  alternates : Alternates c.log
  life : Life c
  stores : ∀ i, i ∈ c.buf.stores ↔ ∃ bytes, .readDone bytes ∈ c.log ∧ i ≤ bytes.length

variable {c : Client} {s s' : Server} {a : Action} {id n : Nat} {bytes : Bytes} {e : Event}
  {l : List Event}

theorem Alternates.cons {e' : Event} (h : Alternates (e' :: l)) (he : e'.LeadsTo e) :
    Alternates (e :: e' :: l) where
  chain := List.isChain_cons_cons.mpr ⟨he, h.chain⟩
  first := by
    intro x hx
    rw [List.getLast?_cons_cons] at hx
    exact h.first x hx

namespace Sane

theorem new (cells : Nat → Char) : Sane (Client.new cells) where
  alternates := ⟨List.IsChain.nil, fun e he => by cases he⟩
  life := .new rfl rfl rfl
  stores i := by simp [Client.new]

theorem opened (h : Sane c) (hp : c.log = []) : Sane c.open where
  alternates := by
    rw [Client.open, Client.asyncReadSome, hp]
    exact ⟨List.IsChain.singleton _, fun e he => (Option.some.inj he).symm⟩
  life := by
    cases h.life with
    | new _ _ hd => exact .reading rfl rfl hd
    | reading hl _ _ | writing hl _ _ _ | gone hl _ _ =>
      rw [hp] at hl
      cases hl
  stores i := by
    rw [Client.open, Client.asyncReadSome]
    simpa using h.stores i

/-- The buffer after `onRead` holds what was read, with a zero byte behind it. -/
theorem holds_onRead (c : Client) (bytes : Bytes) :
    ((c.buf.storeAll 0 bytes).store bytes.length NUL).Holds 0 bytes :=
  (Frame.holds_storeAll.storeAll (Nat.le_of_eq (Nat.zero_add _)) :
    ((c.buf.storeAll 0 bytes).storeAll bytes.length [NUL]).Holds 0 bytes)

theorem onRead (h : Sane c) (hp : c.pending = .read) (r : Option Bytes) : Sane (c.onRead r) := by
  obtain ⟨l, hl⟩ : ∃ l, c.log = .startedRead :: l := by
    cases h.life with
    | reading hl _ _ => exact ⟨_, hl⟩
    | new _ hq _ | writing _ hq _ _ | gone _ hq _ =>
      rw [hp] at hq
      cases hq
  have halt := h.alternates
  have hst := h.stores
  rw [hl] at halt hst
  cases r with
  | none =>
    refine ⟨?_, .gone rfl rfl rfl, ?_⟩
    · simp only [Client.onRead, Client.delete, hl]
      exact (halt.cons (e := .readError) trivial).cons trivial
    · intro i
      simp only [Client.onRead, Client.delete, hl]
      rw [hst i]
      simp
  | some bytes =>
    have hbytes := (holds_onRead c bytes).bytes_eq
    have hd : c.destroyed = false := by
      cases h.life with
      | reading _ _ hd | new _ _ hd | writing _ _ hd _ => exact hd
      | gone _ hq _ =>
        rw [hp] at hq
        cases hq
    refine ⟨?_, ?_, ?_⟩
    · simp only [Client.onRead, Client.asyncWrite, hl]
      rw [hbytes]
      exact (halt.cons (e := .readDone bytes) trivial).cons rfl
    · refine .writing (l := .readDone bytes :: c.log) ?_ rfl hd hbytes
      simp only [Client.onRead, Client.asyncWrite]
      rw [hbytes]
    · intro i
      simp only [Client.onRead, Client.asyncWrite, Frame.store, List.mem_cons,
        Frame.stores_storeAll, hl, hst i]
      constructor
      · rintro (rfl | ⟨b, hb, hle⟩ | ⟨-, hlt⟩)
        · exact ⟨bytes, by simp, Nat.le_refl _⟩
        · exact ⟨b, by simp_all, hle⟩
        · exact ⟨bytes, by simp, by omega⟩
      · rintro ⟨b, hb, hle⟩
        simp only [reduceCtorEq, Event.readDone.injEq, false_or] at hb
        rcases hb with rfl | hb
        · omega
        · exact .inr (.inl ⟨b, .inr hb, hle⟩)

theorem onWrite (h : Sane c) (hp : c.pending = .write n) (ok : Bool) : Sane (c.onWrite ok) := by
  obtain ⟨bytes, l, hl, hd⟩ : ∃ bytes l, c.log = .startedWrite bytes :: l ∧
      c.destroyed = false := by
    cases h.life with
    | writing hl _ hd _ => exact ⟨_, _, hl, hd⟩
    | new _ hq _ | reading _ hq _ | gone _ hq _ =>
      rw [hp] at hq
      cases hq
  have halt := h.alternates
  have hst := h.stores
  rw [hl] at halt hst
  cases ok with
  | true =>
    refine ⟨?_, .reading rfl rfl hd, ?_⟩
    · simp only [Client.onWrite, Client.asyncReadSome, hl, if_true]
      exact (halt.cons (e := .writeDone) trivial).cons trivial
    · intro i
      simp only [Client.onWrite, Client.asyncReadSome, hl, if_true]
      rw [hst i]
      simp
  | false =>
    refine ⟨?_, .gone rfl rfl rfl, ?_⟩
    · simp only [Client.onWrite, Client.delete, hl, Bool.false_eq_true, if_false]
      exact (halt.cons (e := .writeError) trivial).cons trivial
    · intro i
      simp only [Client.onWrite, Client.delete, hl, Bool.false_eq_true, if_false]
      rw [hst i]
      simp

/-- A client stores behind its buffer exactly when a read fills it. -/
theorem proper_iff (h : Sane c) :
    Proper c ↔ ∀ bytes, .readDone bytes ∈ c.log → bytes.length < BUFLEN := by
  constructor
  · intro hp bytes hb
    exact hp.stores _ ((h.stores _).mpr ⟨bytes, hb, Nat.le_refl _⟩)
  · intro hall
    refine ⟨?_, h.alternates, h.life⟩
    intro i hi
    obtain ⟨bytes, hb, hle⟩ := (h.stores i).mp hi
    exact Nat.lt_of_le_of_lt hle (hall bytes hb)

end Sane

/-! ### The server -/

theorem Server.not_deleted_of_step (hs : s.step a = some s') : s.deleted = false := by
  cases hd : s.deleted with
  | false => rfl
  | true => simp [Server.step, hd] at hs

/-- Every client is sane, and the one that waits for a connection is new. -/
structure Tidy (s : Server) : Prop where
  sane : ∀ id c, s.clients id = some c → Sane c
  fresh : ∀ id c, s.accepting = some id → s.clients id = some c → c.log = []
  bound : ∀ id, s.created ≤ id → s.clients id = none

namespace Tidy

/-- A client that waits for no connection goes on. -/
theorem set (h : Tidy s) (hc : Sane c) (hid : (s.clients id).isSome) (hne : s.accepting ≠ some id) :
    Tidy (s.set id c) where
  sane j d hd := by
    by_cases hj : j = id
    · subst hj
      rw [Server.clients_set_self] at hd
      cases hd
      exact hc
    · rw [Server.clients_set_other s _ hj] at hd
      exact h.sane j d hd
  fresh j d hj hd := by
    have hjid : j ≠ id := by
      rintro rfl
      exact hne hj
    rw [Server.clients_set_other s c hjid] at hd
    exact h.fresh j d hj hd
  bound j hj := by
    have hjid : j ≠ id := by
      rintro rfl
      rw [h.bound j hj] at hid
      cases hid
    rw [Server.clients_set_other s _ hjid]
    exact h.bound j hj

theorem newHandler (hs : ∀ id c, s.clients id = some c → Sane c)
    (hb : ∀ id, s.created ≤ id → s.clients id = none) (cells : Nat → Char) :
    Tidy (s.newHandler cells) where
  sane j d hd := by
    by_cases hj : j = s.created
    · subst hj
      rw [Server.clients_newHandler_self] at hd
      cases hd
      exact Sane.new cells
    · rw [Server.clients_newHandler_other s cells hj] at hd
      exact hs j d hd
  fresh j d hj hd := by
    cases hj
    rw [Server.clients_newHandler_self] at hd
    cases hd
    rfl
  bound j hj := by
    have hlt : s.created < j := hj
    rw [Server.clients_newHandler_other s cells (Nat.ne_of_gt hlt)]
    exact hb j (Nat.le_of_lt hlt)

/-- A client with an operation under way does not wait for a connection. -/
theorem not_accepting (h : Tidy s) (hc : s.clients id = some c) (hp : c.pending ≠ .none) :
    s.accepting ≠ some id := by
  intro ha
  have hl := h.fresh id c ha hc
  cases (h.sane id c hc).life with
  | new _ hq _ => exact hp hq
  | reading he _ _ | writing he _ _ _ | gone he _ _ =>
    rw [hl] at he
    cases he

theorem step (h : Tidy s) (hs : s.step a = some s') : Tidy s' := by
  have hlive := Server.not_deleted_of_step hs
  simp only [Server.step, hlive] at hs
  cases a with
  | accept ok cells =>
    simp only [Server.onAccept] at hs
    cases ha : s.accepting with
    | none => simp [ha] at hs
    | some id =>
      cases hc : s.clients id with
      | none => simp [ha, hc] at hs
      | some c =>
        simp only [ha, hc] at hs
        cases ok with
        | true =>
          cases hs
          have hopen : Sane c.open := (h.sane id c hc).opened (h.fresh id c ha hc)
          refine newHandler ?_ ?_ cells
          · intro j d hd
            by_cases hj : j = id
            · subst hj
              rw [Server.clients_set_self] at hd
              cases hd
              exact hopen
            · rw [Server.clients_set_other s _ hj] at hd
              exact h.sane j d hd
          · intro j hj
            have hjid : j ≠ id := by
              rintro rfl
              rw [h.bound j hj] at hc
              cases hc
            rw [Server.clients_set_other s _ hjid]
            exact h.bound j hj
        | false =>
          cases hs
          exact ⟨h.sane, fun j d hj _ => (Option.some_ne_none j hj.symm).elim, h.bound⟩
  | read id result =>
    cases hc : s.clients id with
    | none => simp [hc] at hs
    | some c =>
      simp only [hc] at hs
      split at hs
      · rename_i hd
        cases hs
        refine h.set ((h.sane id c hc).onRead hd.2 result) (by rw [hc]; rfl) ?_
        exact h.not_accepting hc (by rw [hd.2]; decide)
      · cases hs
  | write id ok =>
    cases hc : s.clients id with
    | none => simp [hc] at hs
    | some c =>
      simp only [hc] at hs
      cases hp : c.pending with
      | none | read => simp [hp] at hs
      | write n =>
        simp only [hp] at hs
        split at hs
        · cases hs
        · cases hs
          refine h.set ((h.sane id c hc).onWrite hp ok) (by rw [hc]; rfl) ?_
          exact h.not_accepting hc (by rw [hp]; exact Pending.noConfusion)

end Tidy

theorem tidy_of_reachable (hr : server.Reachable asio s) : Tidy s := by
  apply hr.invariant
  · rintro s₀ ⟨cells, rfl⟩
    exact Tidy.newHandler (fun id c hc => by cases hc) (fun id _ => rfl) cells
  · intro s₀ a s₁ _ h _ hs
    exact h.step hs

/-- A client stays in its buffer, writes what it read, alternates until the first error, and is
destroyed then and done, if and only if no read filled its buffer. -/
theorem client_proper_iff (hr : server.Reachable asio s) (hc : s.clients id = some c) :
    Proper c ↔ ∀ bytes, .readDone bytes ∈ c.log → bytes.length < BUFLEN :=
  ((tidy_of_reachable hr).sane id c hc).proper_iff

/-- One round of a client that then hangs up. -/
def oneRound : List Action :=
  [.accept true fun _ => NUL, .read 0 (some ['h', 'i']), .write 0 true, .read 0 none]

theorem client_proper_iff_oneRound :
    ∃ s c, server.Reachable asio s ∧ s.clients 0 = some c ∧
      c.log = [.destroyed, .readError, .startedRead, .writeDone, .startedWrite ['h', 'i'],
        .readDone ['h', 'i'], .startedRead] ∧ Proper c := by
  obtain ⟨s, hr, hf⟩ := Machine.exists_of_exec (M := server) (p := asio)
    (s := Server.start fun _ => NUL) (l := oneRound) (f := fun s => (s.clients 0).map Client.log)
    (b := some [.destroyed, .readError, .startedRead, .writeDone, .startedWrite ['h', 'i'],
      .readDone ['h', 'i'], .startedRead]) ⟨_, rfl⟩ (by decide)
  obtain ⟨c, hc, hl⟩ := Option.map_eq_some_iff.mp hf
  refine ⟨s, c, hr, hc, hl, (client_proper_iff hr hc).mpr ?_⟩
  intro bytes hb
  rw [hl] at hb
  simp only [List.mem_cons, reduceCtorEq, Event.readDone.injEq, List.not_mem_nil, or_false,
    false_or] at hb
  rw [hb]
  decide

/-- As many bytes as the buffer has. -/
def fullRead : Bytes := List.replicate BUFLEN '1'

/-- A read that fills the buffer makes the client store behind it. -/
theorem full_read_overruns :
    ∃ s c, server.Reachable asio s ∧ s.clients 0 = some c ∧ BUFLEN ∈ c.buf.stores ∧
      ¬ Proper c := by
  have h₀ : server.Reachable asio (Server.start fun _ => NUL) := Machine.Reachable.start ⟨_, rfl⟩
  have h₁ := h₀.step (a := Action.accept true fun _ => NUL) trivial rfl
  have hlen : fullRead.length = BUFLEN := List.length_replicate
  have h₂ := h₁.step (a := Action.read 0 (some fullRead)) ⟨by rw [hlen]; decide, by rw [hlen]⟩ rfl
  have hc := Server.clients_set_self (((Server.start fun _ => NUL).set 0
    (Client.new fun _ => NUL).open).newHandler fun _ => NUL) 0
    ((Client.new fun _ => NUL).open.onRead (some fullRead))
  have hmem : BUFLEN ∈ ((Client.new fun _ => NUL).open.onRead (some fullRead)).buf.stores := by
    rw [← hlen]
    exact List.mem_cons_self
  refine ⟨_, _, h₂, hc, hmem, ?_⟩
  intro hp
  exact Nat.lt_irrefl _ (hp.stores _ hmem)

end EchoBenchmark.Boost
