import EchoBenchmark.Boost.Coroutine
import EchoBenchmark.Lib.Sender

/-! Both servers on boost::asio are relays with one buffer for each client. -/

namespace EchoBenchmark.Boost

variable {log : List Event} {e : Event} {bytes : Bytes}

/-- All that was read from the client. -/
def received : List Event → Bytes
  | [] => []
  | .readDone bytes :: log => received log ++ bytes
  | _ :: log => received log

/-- All that was written to the client, by the writes that completed. -/
def sent : List Event → Bytes
  | .writeDone :: .startedWrite bytes :: log => sent log ++ bytes
  | _ :: log => sent log
  | [] => []

/-- What the write under way was started with, as long as the client lives. -/
def owes : List Event → Option Bytes
  | .startedWrite bytes :: _ => some bytes
  | .readError :: _ | .writeError :: _ | .destroyed :: _ => none
  | _ => some []

@[simp] theorem received_readDone : received (.readDone bytes :: log) = received log ++ bytes := rfl

@[simp] theorem received_startedRead : received (.startedRead :: log) = received log := rfl

@[simp] theorem received_startedWrite : received (.startedWrite bytes :: log) = received log := rfl

@[simp] theorem received_writeDone : received (.writeDone :: log) = received log := rfl

@[simp] theorem received_readError : received (.readError :: log) = received log := rfl

@[simp] theorem received_writeError : received (.writeError :: log) = received log := rfl

@[simp] theorem received_destroyed : received (.destroyed :: log) = received log := rfl

@[simp] theorem sent_written :
    sent (.writeDone :: .startedWrite bytes :: log) = sent log ++ bytes := rfl

@[simp] theorem sent_startedRead : sent (.startedRead :: log) = sent log := by simp [sent]

@[simp] theorem sent_readDone : sent (.readDone bytes :: log) = sent log := by simp [sent]

@[simp] theorem sent_startedWrite : sent (.startedWrite bytes :: log) = sent log := by simp [sent]

@[simp] theorem sent_readError : sent (.readError :: log) = sent log := by simp [sent]

@[simp] theorem sent_writeError : sent (.writeError :: log) = sent log := by simp [sent]

@[simp] theorem sent_destroyed : sent (.destroyed :: log) = sent log := by simp [sent]

/-- What was read from client `id`, by the histories of the clients. -/
def receivedIn (histories : Nat → Option (List Event)) (id : Nat) : Bytes :=
  (histories id).elim [] received

def sentIn (histories : Nat → Option (List Event)) (id : Nat) : Bytes :=
  (histories id).elim [] sent

def owesIn (histories : Nat → Option (List Event)) (id : Nat) : Option Bytes :=
  (histories id).elim (some []) owes

/-- The client whose write an action completes. -/
def Action.succeeds : Action → Option Nat
  | .write id true => some id
  | _ => none

namespace Coroutine

variable {c : Client} {s s' : Server} {a : Action} {id n : Nat} {old new : Option Client}
  {p : Server → Action → Prop}

/-- The bytes of client `id` before and after a step. -/
structure Turns (a : Action) (id : Nat) (old new : Option Client) : Prop where
  turn : Relay.Turn (Relay.halfDuplex BUFLEN) (old.elim [] fun c => received c.log)
    (old.elim [] fun c => sent c.log) (new.elim [] fun c => received c.log)
    (new.elim [] fun c => sent c.log) (old.elim (some []) fun c => owes c.log)
    (new.elim (some []) fun c => owes c.log)
  announced : a.succeeds ≠ some id →
    (new.elim [] fun c => sent c.log) = old.elim [] fun c => sent c.log

/-- A client that reads has started to. -/
theorem log_of_reading (hr : coroutine.Reachable p s) (hc : s.clients id = some c)
    (hp : c.pending = .read) : c.coro = .afterRead ∧ ∃ l, c.log = .startedRead :: l := by
  obtain ⟨d, ht, hd⟩ := exists_sane hr hc
  rw [ht.log]
  cases hd.life with
  | reading hl _ hlive =>
    refine ⟨?_, _, hl⟩
    rw [ht.coro (ht.destroyed.trans hlive), hp, Pending.resume]
  | new _ hq _ | writing _ hq _ _ | gone _ hq _ =>
    rw [← ht.pending, hp] at hq
    cases hq

/-- A client that writes has started to. -/
theorem log_of_writing (hr : coroutine.Reachable p s) (hc : s.clients id = some c)
    (hp : c.pending = .write n) :
    c.coro = .afterWrite ∧ ∃ bytes l, c.log = .startedWrite bytes :: l := by
  obtain ⟨d, ht, hd⟩ := exists_sane hr hc
  rw [ht.log]
  cases hd.life with
  | writing hl _ hlive _ =>
    refine ⟨?_, _, _, hl⟩
    rw [ht.coro (ht.destroyed.trans hlive), hp, Pending.resume]
  | new _ hq _ | reading _ hq _ | gone _ hq _ =>
    rw [← ht.pending, hp] at hq
    cases hq

/-- A client that is new begins to read. -/
theorem turns_opened (hr : coroutine.Reachable p s) (hc : s.clients id = some c)
    (hlog : c.log = []) : Turns a id (some c) (some (c.run false 0)) := by
  obtain ⟨d, ht, hd⟩ := exists_sane hr hc
  have hcoro : c.coro = .start := by
    cases hd.life with
    | new _ hp hlive =>
      rw [ht.coro (ht.destroyed.trans hlive), ht.pending, hp, Pending.resume]
    | reading hl _ _ | writing hl _ _ _ | gone hl _ _ =>
      rw [← ht.log, hlog] at hl
      cases hl
  have hrun : (c.run false 0).log = [.startedRead] := by
    simp [Client.run, hcoro, Client.asyncReadSome, hlog]
  have hsent : sent (c.run false 0).log = sent c.log := by simp [hrun, hlog]
  refine ⟨.rests ?_ hsent ?_, fun _ => hsent⟩
  · simp [hrun, hlog]
  · simp [hrun, hlog, owes]

/-- The read of a client completes. -/
theorem turns_readDone {r : Option Bytes} (hr : coroutine.Reachable p s)
    (hc : s.clients id = some c) (hp : c.pending = .read) (hd : delivers (.read id r)) :
    Turns a id (some c) (some (c.readDone r)) := by
  obtain ⟨hcoro, l, hl⟩ := log_of_reading hr hc hp
  cases r with
  | none =>
    have hlog : (c.readDone none).log = .destroyed :: .readError :: c.log := rfl
    have hsent : sent (c.readDone none).log = sent c.log := by simp [hlog]
    exact ⟨.stops (by simp [hlog]) hsent (by simp [hlog, owes]), fun _ => hsent⟩
  | some bytes =>
    have hbytes : (c.buf.storeAll 0 bytes).bytes bytes.length = bytes :=
      CString.Frame.holds_storeAll.bytes_eq
    have hlog : (c.readDone (some bytes)).log =
        .startedWrite bytes :: .readDone bytes :: c.log := by
      simp [Client.readDone, Client.run, hcoro, Client.asyncWrite, hbytes]
    have hlen : bytes.length ≤ BUFLEN := hd
    have hsent : sent (c.readDone (some bytes)).log = sent c.log := by simp [hlog]
    have howes : owes c.log = some [] := by simp [hl, owes]
    refine ⟨.takes bytes howes ⟨rfl, hlen⟩ ?_ hsent ?_, fun _ => hsent⟩
    · simp [hlog]
    · simp [hlog, owes]

/-- The write of a client completes. -/
theorem turns_writeDone {ok : Bool} (hr : coroutine.Reachable p s) (hc : s.clients id = some c)
    (hp : c.pending = .write n) :
    Turns (.write id ok) id (some c) (some (c.writeDone n ok)) := by
  obtain ⟨hcoro, bytes, l, hl⟩ := log_of_writing hr hc hp
  cases ok with
  | false =>
    have hlog : (c.writeDone n false).log = .destroyed :: .writeError :: c.log := rfl
    have hsent : sent (c.writeDone n false).log = sent c.log := by simp [hlog]
    exact ⟨.stops (by simp [hlog]) hsent (by simp [hlog, owes]), fun _ => hsent⟩
  | true =>
    have hlog : (c.writeDone n true).log = .startedRead :: .writeDone :: c.log := by
      simp [Client.writeDone, Client.run, hcoro, Client.asyncReadSome]
    have howes : owes c.log = some (bytes ++ []) := by simp [hl, owes]
    refine ⟨.gives bytes howes ?_ ?_ ?_, fun hne => (hne rfl).elim⟩
    · simp [hlog]
    · simp [hlog, hl]
    · simp [hlog, owes]

theorem turns_of_step (hr : coroutine.Reachable p s) (hd : delivers a)
    (hs : s.step a = some s') (id : Nat) : Turns a id (s.clients id) (s'.clients id) := by
  have hnext := next_of_step (waits_of_reachable hr) hs id
  generalize hold : s.clients id = old at hnext
  generalize s'.clients id = new at hnext
  cases hnext with
  | same => exact ⟨.rests rfl rfl rfl, fun _ => rfl⟩
  | created cells hnone =>
    rw [hnone]
    exact ⟨.rests rfl rfl rfl, fun _ => rfl⟩
  | @opened c hc hlog =>
    rw [hc]
    exact turns_opened hr (hold.trans hc) hlog
  | @read c r ha hc _ hp =>
    rw [hc]
    rw [ha] at hd
    exact turns_readDone hr (hold.trans hc) hp hd
  | @wrote c n ok ha hc _ hp =>
    rw [ha, hc]
    exact turns_writeDone hr (hold.trans hc) hp

theorem receivedIn_histories :
    receivedIn s.histories id = (s.clients id).elim [] fun c => received c.log := by
  rw [receivedIn, Server.histories]
  cases s.clients id <;> rfl

theorem sentIn_histories :
    sentIn s.histories id = (s.clients id).elim [] fun c => sent c.log := by
  rw [sentIn, Server.histories]
  cases s.clients id <;> rfl

theorem owesIn_histories :
    owesIn s.histories id = (s.clients id).elim (some []) fun c => owes c.log := by
  rw [owesIn, Server.histories]
  cases s.clients id <;> rfl

/-- The clients keep what is read and not written yet. -/
theorem keeps (id : Nat) :
    Relay.Keeps coroutine (fun _ a => delivers a) (Relay.halfDuplex BUFLEN)
      (fun s => receivedIn s.histories id) (fun s => sentIn s.histories id)
      (fun s => owesIn s.histories id) where
  starts := by
    rintro s ⟨cells, hs⟩
    cases hs
    rw [receivedIn_histories, sentIn_histories, owesIn_histories]
    by_cases hid : id = 0
    · rw [hid]
      exact ⟨rfl, rfl, fun _ he => (Option.some.inj he).symm⟩
    · have hnone : (Server.new.asyncAccept cells).clients id = none :=
        Function.update_of_ne hid _ _
      rw [hnone]
      exact ⟨rfl, rfl, fun _ he => (Option.some.inj he).symm⟩
  turns s a s' hr hp hs := by
    simp only [receivedIn_histories, sentIn_histories, owesIn_histories]
    exact (turns_of_step hr hp hs id).turn

/-- `async_write` of the clients. -/
def sender : Sender Server Action Char where
  sent id s := sentIn s.histories id
  owes id s := owesIn s.histories id
  succeeds := Action.succeeds

theorem announces (id : Nat) : Sender.Announces sender coroutine (fun _ a => delivers a) id := by
  intro s a s' hr hp hs hne
  simp only [sender, sentIn_histories]
  exact (turns_of_step hr hp hs id).announced hne

theorem isRelay (id : Nat) :
    Relay.IsRelay (sender.pieces coroutine) (Sender.obeys fun _ a => delivers a) Relay.never
      (Relay.halfDuplex BUFLEN) (fun s => receivedIn s.core.histories id) (fun s => s.out id) :=
  Sender.isRelay (keeps id) (announces id)

end Coroutine

open Coroutine (delivers callbackHistories)

/-- `async_write` of the clients with callbacks. -/
def sender : Sender Server Action Char where
  sent id s := sentIn (callbackHistories s) id
  owes id s := owesIn (callbackHistories s) id
  succeeds := Action.succeeds

/-- The clients with callbacks keep what those with coroutines keep. -/
theorem keeps (id : Nat) :
    Relay.Keeps server (fun _ a => delivers a) (Relay.halfDuplex BUFLEN)
      (fun s => receivedIn (callbackHistories s) id) (sender.sent id) (sender.owes id) := by
  apply (Coroutine.keeps id).of_simulation (Coroutine.simulation delivers) Coroutine.exists_twin
  intro u s ht
  rw [ht.histories_eq]
  exact ⟨rfl, rfl, rfl⟩

theorem announces (id : Nat) : Sender.Announces sender server (fun _ a => delivers a) id := by
  intro u a v hr hp hs hne
  have hsim := Coroutine.simulation delivers
  obtain ⟨s, hreach, ht⟩ := hsim.reachable Coroutine.exists_twin hr
  obtain ⟨hq, s', hs', ht'⟩ := hsim.step ht hp hs
  have hsame := Coroutine.announces id s a s' hreach hq hs' hne
  simp only [sender, ← ht.histories_eq, ← ht'.histories_eq]
  exact hsame

theorem isRelay (id : Nat) :
    Relay.IsRelay (sender.pieces server) (Sender.obeys fun _ a => delivers a) Relay.never
      (Relay.halfDuplex BUFLEN) (fun s => receivedIn (callbackHistories s.core) id)
      (fun s => s.out id) :=
  Sender.isRelay (keeps id) (announces id)

/-- Toward each client, both servers are the relay with one buffer of `BUFLEN` bytes, and go on as
it: their writes go out piece by piece, and some of the pieces before a write that fails. The zero
byte that the callbacks store behind a full buffer is taken to fall where nothing is read. -/
theorem boost_servers_refine_relay (id : Nat) :
    (Relay.IsRelay (Coroutine.sender.pieces Coroutine.coroutine)
        (Sender.obeys fun _ a => delivers a) Relay.never (Relay.halfDuplex BUFLEN)
        (fun s => receivedIn s.core.histories id) (fun s => s.out id) ∧
      Relay.Refines (Coroutine.sender.pieces Coroutine.coroutine)
        (Sender.obeys fun _ a => delivers a) Relay.never (Relay.halfDuplex BUFLEN)
        (fun s => receivedIn s.core.histories id) (fun s => s.out id)) ∧
    (Relay.IsRelay (sender.pieces server) (Sender.obeys fun _ a => delivers a) Relay.never
        (Relay.halfDuplex BUFLEN) (fun s => receivedIn (callbackHistories s.core) id)
        (fun s => s.out id) ∧
      Relay.Refines (sender.pieces server) (Sender.obeys fun _ a => delivers a) Relay.never
        (Relay.halfDuplex BUFLEN) (fun s => receivedIn (callbackHistories s.core) id)
        (fun s => s.out id)) :=
  ⟨⟨Coroutine.isRelay id, (Coroutine.isRelay id).refines⟩, isRelay id, (isRelay id).refines⟩

end EchoBenchmark.Boost
