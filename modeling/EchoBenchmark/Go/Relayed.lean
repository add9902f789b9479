import EchoBenchmark.Go.Buffers
import EchoBenchmark.Go.Failures
import EchoBenchmark.Lib.History
import EchoBenchmark.Lib.Sender

/-!
The Go server is a relay for each connection, with or without its buffers: those of the pool do not
let the bytes of one connection come to another.
-/

namespace EchoBenchmark.Go

open History (gathered)

variable {s s' : Server} {a : Action} {c d : ConnId} {bytes : List UInt8}

/-- What the entry tells of bytes read from connection `c`. -/
def Transfer.readFrom (c : ConnId) : Transfer → List UInt8
  | .read j bytes => if j = c then bytes else []
  | .wrote _ _ => []

def Transfer.writtenTo (c : ConnId) : Transfer → List UInt8
  | .wrote j bytes => if j = c then bytes else []
  | .read _ _ => []

/-- All that was read from a connection. -/
def readFrom (c : ConnId) (log : List Transfer) : List UInt8 := gathered (Transfer.readFrom c) log

/-- All that was written to a connection. -/
def writtenTo (c : ConnId) (log : List Transfer) : List UInt8 := gathered (Transfer.writtenTo c) log

/-- What the goroutine has still to write. -/
def Goroutine.owes : Goroutine → List UInt8
  | .writing bytes => bytes
  | .reading | .closed => []

def Server.owes (s : Server) (c : ConnId) : List UInt8 := (s.conns c).elim [] Goroutine.owes

theorem owes_set {g : Goroutine} : (s.set c g).owes d = if d = c then g.owes else s.owes d := by
  unfold Server.owes Server.set
  by_cases hd : d = c
  · simp [hd]
  · simp [hd]

/-- Connections of which one has a goroutine now, or goes on. -/
theorem fresh_set {g : Goroutine} {n : Nat} (hf : ∀ d, n ≤ d → s.conns d = none) (hc : c < n) :
    ∀ d, n ≤ d → (s.set c g).conns d = none := by
  intro d hd
  have hne : d ≠ c := Nat.ne_of_gt (Nat.lt_of_lt_of_le hc hd)
  exact (Function.update_of_ne hne _ _).trans (hf d hd)

/-- The connection of a step, what it read and what it wrote. -/
inductive Transfers (s s' : Server) : Prop
  | nothing : s'.log = s.log → (∀ c, s'.owes c = s.owes c) → Transfers s s'
  | read {c : ConnId} {bytes : List UInt8} : s.owes c = [] → bytes.length ≤ BUF_SIZE →
      s'.log = .read c bytes :: s.log →
      (∀ d, s'.owes d = if d = c then bytes else s.owes d) → Transfers s s'
  | wrote {c : ConnId} {bytes : List UInt8} : s.owes c = bytes →
      s'.log = .wrote c bytes :: s.log →
      (∀ d, s'.owes d = if d = c then [] else s.owes d) → Transfers s s'

theorem transfers_of_step (hf : ∀ c, s.accepted ≤ c → s.conns c = none)
    (hs : s.step a = some s') : Transfers s s' ∧ ∀ c, s'.accepted ≤ c → s'.conns c = none := by
  have hrunning := running_of_step hs
  have hlt : ∀ {c g}, s.conns c = some g → c < s.accepted := by
    intro c g hc
    by_contra hle
    rw [hf c (Nat.le_of_not_lt hle)] at hc
    cases hc
  cases a with
  | accept ok =>
    simp only [Server.step, hrunning] at hs
    cases hs
    cases ok with
    | true =>
      refine ⟨.nothing rfl ?_, ?_⟩
      · intro c
        rw [show (s.accept true).owes c = (s.set s.accepted .reading).owes c from rfl, owes_set]
        split
        · rename_i hc
          simp [Server.owes, hc, hf s.accepted (Nat.le_refl _), Goroutine.owes]
        · rfl
      · have hf' : ∀ d, s.accepted + 1 ≤ d → s.conns d = none := fun d hd => hf d (by omega)
        exact fresh_set hf' (Nat.lt_succ_self _)
    | false => exact ⟨.nothing rfl fun _ => rfl, hf⟩
  | read c r =>
    simp only [Server.step, hrunning] at hs
    split at hs
    · rename_i hc
      cases r with
      | got bytes =>
        simp only [Server.onRead] at hs
        split at hs
        · rename_i hlen
          cases hs
          refine ⟨.read ?_ hlen rfl fun d => owes_set, fresh_set hf (hlt hc)⟩
          simp [Server.owes, hc, Goroutine.owes]
        · cases hs
      | eof =>
        cases hs
        refine ⟨.nothing rfl fun d => ?_, fresh_set hf (hlt hc)⟩
        rw [owes_set]
        split
        · rename_i hd
          simp [Server.owes, hd, hc, Goroutine.owes]
        · rfl
      | error =>
        cases hs
        exact ⟨.nothing rfl fun _ => rfl, hf⟩
    · cases hs
  | write c ok =>
    simp only [Server.step, hrunning] at hs
    cases hc : s.conns c with
    | none => simp [hc] at hs
    | some g =>
      cases g with
      | reading | closed => simp [hc] at hs
      | writing bytes =>
        simp only [hc] at hs
        cases hs
        cases ok with
        | true =>
          refine ⟨.wrote ?_ rfl fun d => owes_set, fresh_set hf (hlt hc)⟩
          simp [Server.owes, hc, Goroutine.owes]
        | false => exact ⟨.nothing rfl fun _ => rfl, hf⟩

/-- A step is a turn of the relay toward each connection. -/
theorem turn_of_transfers (ht : Transfers s s') (c : ConnId) :
    Relay.Turn (Relay.halfDuplex BUF_SIZE) (readFrom c s.log) (writtenTo c s.log)
      (readFrom c s'.log) (writtenTo c s'.log) (some (s.owes c)) (some (s'.owes c)) := by
  cases ht with
  | nothing hlog howes =>
    rw [hlog, howes]
    exact .rests rfl rfl rfl
  | @read j bytes hidle hlen hlog howes =>
    rw [hlog, howes]
    have hwritten : writtenTo c (.read j bytes :: s.log) = writtenTo c s.log := by
      simp [writtenTo, Transfer.writtenTo]
    by_cases hj : j = c
    · subst hj
      rw [hidle, if_pos rfl]
      refine .takes bytes rfl ⟨rfl, hlen⟩ ?_ hwritten rfl
      simp [readFrom, Transfer.readFrom]
    · rw [if_neg fun he => hj he.symm]
      refine .rests ?_ hwritten rfl
      simp [readFrom, Transfer.readFrom, hj]
  | @wrote j bytes howed hlog howes =>
    rw [hlog, howes]
    have hread : readFrom c (.wrote j bytes :: s.log) = readFrom c s.log := by
      simp [readFrom, Transfer.readFrom]
    by_cases hj : j = c
    · subst hj
      rw [howed, if_pos rfl]
      refine .gives bytes (by rw [List.append_nil]) hread ?_ rfl
      simp [writtenTo, Transfer.writtenTo]
    · rw [if_neg fun he => hj he.symm]
      refine .rests hread ?_ rfl
      simp [writtenTo, Transfer.writtenTo, hj]

theorem fresh_of_reachable {p : Server → Action → Prop} (hr : server.Reachable p s) :
    ∀ c, s.accepted ≤ c → s.conns c = none := by
  apply hr.invariant (I := fun s => ∀ c, s.accepted ≤ c → s.conns c = none)
  · rintro s₀ rfl c _
    rfl
  · intro s₀ a s₁ _ hf _ hs
    exact (transfers_of_step hf hs).2

/-- The goroutines keep what is read and not written yet. -/
theorem keeps (c : ConnId) :
    Relay.Keeps server Machine.free (Relay.halfDuplex BUF_SIZE) (fun s => readFrom c s.log)
      (fun s => writtenTo c s.log) (fun s => some (s.owes c)) where
  starts := by
    rintro s rfl
    exact ⟨rfl, rfl, fun _ he => (Option.some.inj he).symm⟩
  turns s a s' hr _ hs :=
    turn_of_transfers (transfers_of_step (fresh_of_reachable hr) hs).1 c

/-! ### With the buffers of the pool -/

/-- With its buffers, the server does what it does without them. -/
theorem abstraction :
    Machine.Abstraction pooled Machine.free server Machine.free Pooled.toServer where
  starts := by
    rintro s rfl
    rfl
  steps s a t hr _ hs := by
    rcases Pooled.simulates (Pooled.exclusive_of_reachable hr) hs with heq | ⟨b, hb⟩
    · exact .inl heq
    · exact .inr ⟨b, trivial, hb⟩

/-- Whichever buffers `Get` returns and the runtime takes away, no two goroutines ever have the same
buffer, none is in the pool while a goroutine has it, and the server reads, writes and exits as the
one does whose goroutines have buffers of their own. -/
theorem pooled_refines_server {s t : Pooled} (hr : pooled.Reachable Machine.free s)
    (hst : pooled.Steps Machine.free s t) :
    t.Exclusive ∧ server.Reachable Machine.free s.toServer ∧
      server.Steps Machine.free s.toServer t.toServer :=
  ⟨Pooled.exclusive_of_reachable (hr.steps hst), abstraction.reachable hr,
    abstraction.steps_of_steps hr hst⟩

/-- The second connection gets the buffer that the first one has put back. -/
def sameBuffer : List Pooled.Action :=
  [.accept true, .accept true, .get 0 none, .read 0 (.got [65, 66]), .write 0 true, .put 0,
    .get 1 (some 0), .read 1 (.got [67]), .write 1 true]

theorem pooled_refines_server_sameBuffer : ∃ t : Pooled, pooled.Reachable Machine.free t ∧
    t.log = [.wrote 1 [67], .read 1 [67], .wrote 0 [65, 66], .read 0 [65, 66]] ∧ t.made = 1 ∧
    server.Steps Machine.free Pooled.initial.toServer t.toServer := by
  obtain ⟨t, hexec, hf⟩ := Option.map_eq_some_iff.mp
    (show (pooled.exec Machine.free Pooled.initial sameBuffer).map (fun s => (s.log, s.made)) =
      some ([.wrote 1 [67], .read 1 [67], .wrote 0 [65, 66], .read 0 [65, 66]], 1) from
      by decide +kernel)
  obtain ⟨hlog, hmade⟩ := Prod.mk.inj hf
  have hr : pooled.Reachable Machine.free Pooled.initial := .start rfl
  have hst := Machine.exec_steps hexec
  exact ⟨t, hr.steps hst, hlog, hmade, (pooled_refines_server hr hst).2.2⟩

/-- `conn.Write` of the goroutines. -/
def sender : Sender Pooled Pooled.Action UInt8 where
  sent c s := writtenTo c s.log
  owes c s := some (s.toServer.owes c)
  succeeds
    | .write c true => some c
    | _ => none

theorem announces (c : ConnId) : Sender.Announces sender pooled Machine.free c := by
  intro s a t _ _ hs hne
  obtain ⟨-, hd⟩ := Pooled.does_of_step hs
  cases hd with
  | accept ok => cases ok <;> rfl
  | makes _ | takes _ _ | puts _ | collects _ => rfl
  | @reads j buf r _ _ hread =>
    cases r with
    | got bytes =>
      simp only [Pooled.onRead] at hread
      split at hread
      · cases hread
        simp [sender, writtenTo, Transfer.writtenTo]
      · cases hread
    | eof | error =>
      cases hread
      rfl
  | @writes j buf readSize ok _ =>
    cases ok with
    | false => rfl
    | true =>
      have hj : j ≠ c := fun he => hne (congrArg some he)
      simp [sender, Pooled.onWrite, writtenTo, Transfer.writtenTo, hj]

theorem isRelay (c : ConnId) :
    Relay.IsRelay (sender.pieces pooled) (Sender.obeys Machine.free) Relay.never
      (Relay.halfDuplex BUF_SIZE) (fun s => readFrom c s.core.log) (fun s => s.out c) :=
  Sender.isRelay ((keeps c).of_abstraction abstraction) (announces c)

/-- Toward each connection the server with its pool is the relay with one buffer, and goes on as
it; its writes go out piece by piece, and some of the pieces before a write that fails. -/
theorem pooled_refines_relay (c : ConnId) :
    Relay.IsRelay (sender.pieces pooled) (Sender.obeys Machine.free) Relay.never
        (Relay.halfDuplex BUF_SIZE) (fun s => readFrom c s.core.log) (fun s => s.out c) ∧
      Relay.Refines (sender.pieces pooled) (Sender.obeys Machine.free) Relay.never
        (Relay.halfDuplex BUF_SIZE) (fun s => readFrom c s.core.log) (fun s => s.out c) :=
  ⟨isRelay c, (isRelay c).refines⟩

end EchoBenchmark.Go
