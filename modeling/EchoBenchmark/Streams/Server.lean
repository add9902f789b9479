import EchoBenchmark.Lib.History
import EchoBenchmark.Lib.Relay
import Mathlib.Logic.Function.Basic

/-!
The servers that write what they read and do not wait until it is sent: `do_echo` of the uvloop
program, and the listener of the Node program. What the peer does not take stays with the transport.
-/

namespace EchoBenchmark.Streams

open History (gathered)

abbrev ConnId := Nat

inductive Program
  | uvloop
  | node
  deriving DecidableEq

/-- `reader.read(1024)`; the `data` event brings whatever came. -/
def Program.limit : Program → Option Nat
  | .uvloop => some 1024
  | .node => none

/-- The events of a socket of Node. -/
inductive SocketEvent
  | data
  | «end»
  | error
  | close
  deriving DecidableEq

/-- What the Node program listens for: `client.on('data', …)`. -/
def listeners : List SocketEvent := [.data]

def Program.admits (p : Program) (n : Nat) : Prop := ∀ limit ∈ p.limit, n ≤ limit

instance (p : Program) (n : Nat) : Decidable (p.admits n) :=
  inferInstanceAs (Decidable (∀ limit ∈ p.limit, n ≤ limit))

/-- A connection, with what was written and is not sent yet. -/
inductive Conn
  | echoing (unsent : List UInt8)
  /-- Behind `writer.close()`, or `end()`. -/
  | closing (unsent : List UInt8)
  | closed
  deriving DecidableEq

/-- One entry of the history. -/
inductive Event
  | read (c : ConnId) (data : List UInt8)
  | sent (c : ConnId) (data : List UInt8)
  | closed (c : ConnId)
  | lost (c : ConnId)
  /-- An exception ends the task of `do_echo`. -/
  | raised (c : ConnId)
  deriving DecidableEq

/-- The connections, how many were accepted, whether an error ended the process, and the history
with the newest entry first. -/
structure Server where
  conns : ConnId → Option Conn
  accepted : Nat
  crashed : Bool
  log : List Event

inductive Action
  | accept
  | data (c : ConnId) (data : List UInt8)
  /-- The read returns nothing, or the `end` event comes. -/
  | finish (c : ConnId)
  /-- The peer takes `n` bytes. -/
  | flush (c : ConnId) (n : Nat)
  /-- The peer takes the rest, and the connection is closed. -/
  | drain (c : ConnId)
  /-- The connection is lost, before or after its end came. -/
  | lost (c : ConnId) (ended : Bool)
  deriving DecidableEq

namespace Server

def initial : Server := ⟨fun _ => none, 0, false, []⟩

def set (s : Server) (c : ConnId) (conn : Conn) : Server :=
  { s with conns := Function.update s.conns c (some conn) }

def emit (s : Server) (e : Event) : Server := { s with log := e :: s.log }

def accept (s : Server) : Server :=
  { s.set s.accepted (.echoing []) with accepted := s.accepted + 1 }

/-- `writer.write(data)`, and `client.write(data)`. -/
def write (s : Server) (c : ConnId) (unsent data : List UInt8) : Server :=
  (s.set c (.echoing (unsent ++ data))).emit (.read c data)

/-- The rest is sent, and the connection closed. -/
def drain (s : Server) (c : ConnId) (unsent : List UInt8) : Server :=
  ((s.emit (.sent c unsent)).set c .closed).emit (.closed c)

/-- What is not sent is lost with the connection. -/
def lose (s : Server) (c : ConnId) : Server := (s.set c .closed).emit (.lost c)

/-- `await reader.read(1024)` raises the error. No `try` in `do_echo` catches it; the task keeps
it, and the loop goes on. -/
def raise (s : Server) (c : ConnId) : Server := s.emit (.raised c)

/-- The `error` event; `emit` throws it if nothing listens for it, and the process ends. -/
def emitError (s : Server) : Server :=
  if .error ∈ listeners then s else { s with crashed := true }

/-- Behind the end of the stream `do_echo` has returned, and no exception reaches it. -/
def connectionLost (p : Program) (s : Server) (c : ConnId) (ended : Bool) : Server :=
  match p, ended with
  | .uvloop, false => (s.lose c).raise c
  | .uvloop, true => s.lose c
  | .node, _ => (s.lose c).emitError

def step (p : Program) (s : Server) (a : Action) : Option Server :=
  match s.crashed, a with
  | true, _ => none
  | false, .accept => some s.accept
  | false, .data c data =>
    match s.conns c with
    | some (.echoing unsent) =>
      if 0 < data.length ∧ p.admits data.length then some (s.write c unsent data) else none
    | _ => none
  | false, .finish c =>
    match s.conns c with
    | some (.echoing unsent) => some (s.set c (.closing unsent))
    | _ => none
  | false, .flush c n =>
    match s.conns c with
    | some (.echoing unsent) =>
      if n ≤ unsent.length then
        some ((s.set c (.echoing (unsent.drop n))).emit (.sent c (unsent.take n)))
      else none
    | some (.closing unsent) =>
      if n ≤ unsent.length then
        some ((s.set c (.closing (unsent.drop n))).emit (.sent c (unsent.take n)))
      else none
    | _ => none
  | false, .drain c =>
    match s.conns c with
    | some (.closing unsent) => some (s.drain c unsent)
    | _ => none
  | false, .lost c ended =>
    match s.conns c, ended with
    | some (.echoing _), false => some (s.connectionLost p c false)
    | some (.closing _), true => some (s.connectionLost p c true)
    | _, _ => none

end Server

/-- The server of a program, with any peers. -/
def server (p : Program) : Machine Server Action where
  init s := s = Server.initial
  step := Server.step p

variable {p : Program} {s s' : Server} {a : Action} {c d : ConnId} {unsent data : List UInt8}
  {n : Nat} {k : Conn}

/-- The operation that a step is. -/
inductive Does (p : Program) (s : Server) : Action → Server → Prop
  | accept : Does p s .accept s.accept
  | data {c : ConnId} {unsent data : List UInt8} : s.conns c = some (.echoing unsent) →
      0 < data.length → p.admits data.length → Does p s (.data c data) (s.write c unsent data)
  | finish {c : ConnId} {unsent : List UInt8} : s.conns c = some (.echoing unsent) →
      Does p s (.finish c) (s.set c (.closing unsent))
  | flush {c : ConnId} {unsent : List UInt8} {n : Nat} : s.conns c = some (.echoing unsent) →
      n ≤ unsent.length → Does p s (.flush c n)
        ((s.set c (.echoing (unsent.drop n))).emit (.sent c (unsent.take n)))
  | flushEnded {c : ConnId} {unsent : List UInt8} {n : Nat} :
      s.conns c = some (.closing unsent) → n ≤ unsent.length → Does p s (.flush c n)
        ((s.set c (.closing (unsent.drop n))).emit (.sent c (unsent.take n)))
  | drain {c : ConnId} {unsent : List UInt8} : s.conns c = some (.closing unsent) →
      Does p s (.drain c) (s.drain c unsent)
  | lost {c : ConnId} {ended : Bool} {conn : Conn} : s.conns c = some conn →
      (if ended then ∃ unsent, conn = .closing unsent else ∃ unsent, conn = .echoing unsent) →
      Does p s (.lost c ended) (s.connectionLost p c ended)

theorem does_of_step (hs : s.step p a = some s') : s.crashed = false ∧ Does p s a s' := by
  unfold Server.step at hs
  cases hc : s.crashed with
  | true => simp [hc] at hs
  | false =>
    refine ⟨rfl, ?_⟩
    rw [hc] at hs
    cases a with
    | accept =>
      cases hs
      exact .accept
    | data c data =>
      dsimp only at hs
      split at hs
      · rename_i unsent hconn
        split at hs
        · rename_i hcan
          cases hs
          exact .data hconn hcan.1 hcan.2
        · cases hs
      · cases hs
    | finish c =>
      dsimp only at hs
      split at hs
      · rename_i unsent hconn
        cases hs
        exact .finish hconn
      · cases hs
    | flush c n =>
      dsimp only at hs
      split at hs
      · rename_i unsent hconn
        split at hs
        · rename_i hle
          cases hs
          exact .flush hconn hle
        · cases hs
      · rename_i unsent hconn
        split at hs
        · rename_i hle
          cases hs
          exact .flushEnded hconn hle
        · cases hs
      · cases hs
    | drain c =>
      dsimp only at hs
      split at hs
      · rename_i unsent hconn
        cases hs
        exact .drain hconn
      · cases hs
    | lost c ended =>
      dsimp only at hs
      split at hs
      · rename_i unsent hconn
        cases hs
        exact .lost hconn ⟨unsent, rfl⟩
      · rename_i unsent hconn
        cases hs
        exact .lost hconn ⟨unsent, rfl⟩
      · cases hs

theorem emitError_eq (s : Server) : s.emitError = { s with crashed := true } :=
  if_neg (by decide)

/-- What becomes of the connection does not depend on the program. -/
theorem connectionLost_fields (p : Program) (s : Server) (c : ConnId) (ended : Bool) :
    (s.connectionLost p c ended).conns = Function.update s.conns c (some .closed) ∧
      (s.connectionLost p c ended).accepted = s.accepted := by
  cases p with
  | uvloop => cases ended <;> exact ⟨rfl, rfl⟩
  | node =>
    rw [Server.connectionLost, emitError_eq]
    exact ⟨rfl, rfl⟩

theorem conns_connectionLost (p : Program) (s : Server) (c : ConnId) (ended : Bool) :
    (s.connectionLost p c ended).conns = Function.update s.conns c (some .closed) :=
  (connectionLost_fields p s c ended).1

theorem accepted_connectionLost (p : Program) (s : Server) (c : ConnId) (ended : Bool) :
    (s.connectionLost p c ended).accepted = s.accepted :=
  (connectionLost_fields p s c ended).2

/-- The history tells of the loss, and of the exception. -/
theorem log_connectionLost (p : Program) (s : Server) (c : ConnId) (ended : Bool) :
    (s.connectionLost p c ended).log = .lost c :: s.log ∨
      (s.connectionLost p c ended).log = .raised c :: .lost c :: s.log := by
  cases p with
  | uvloop =>
    cases ended with
    | false => exact .inr rfl
    | true => exact .inl rfl
  | node =>
    rw [Server.connectionLost, emitError_eq]
    exact .inl rfl

/-! ### The servers as relays -/

theorem fresh_of_reachable (hr : (server p).Reachable Machine.free s) :
    ∀ c, s.accepted ≤ c → s.conns c = none := by
  have hother : ∀ {s : Server} {c d : ConnId} {conn conn' : Conn},
      (∀ c, s.accepted ≤ c → s.conns c = none) → s.conns c = some conn → s.accepted ≤ d →
      Function.update s.conns c (some conn') d = none := by
    intro s c d conn conn' hfresh hc hd
    have hne : d ≠ c := by
      rintro rfl
      rw [hfresh d hd] at hc
      cases hc
    rw [Function.update_of_ne hne]
    exact hfresh d hd
  apply hr.invariant (I := fun s => ∀ c, s.accepted ≤ c → s.conns c = none)
  · rintro s₀ rfl c _
    rfl
  · intro s₀ a s₁ _ hfresh _ hs d hd
    obtain ⟨-, hdoes⟩ := does_of_step hs
    cases hdoes with
    | accept =>
      have hlt : s₀.accepted < d := hd
      exact (Function.update_of_ne (Nat.ne_of_gt hlt) _ _).trans (hfresh d (Nat.le_of_lt hlt))
    | data hc _ _ | finish hc | flush hc _ | flushEnded hc _ | drain hc =>
      exact hother hfresh hc hd
    | lost hc _ =>
      rw [accepted_connectionLost] at hd
      rw [conns_connectionLost]
      exact hother hfresh hc hd

def Event.readFrom (c : ConnId) : Event → List UInt8
  | .read j data => if j = c then data else []
  | .sent _ _ | .closed _ | .lost _ | .raised _ => []

def Event.sentTo (c : ConnId) : Event → List UInt8
  | .sent j data => if j = c then data else []
  | .read _ _ | .closed _ | .lost _ | .raised _ => []

/-- All that was read from a connection. -/
def readFrom (c : ConnId) (log : List Event) : List UInt8 := gathered (Event.readFrom c) log

/-- All that was sent on a connection. -/
def sentTo (c : ConnId) (log : List Event) : List UInt8 := gathered (Event.sentTo c) log

/-- A loss moves no bytes. -/
theorem streams_connectionLost (p : Program) (s : Server) (d : ConnId) (ended : Bool)
    (c : ConnId) : readFrom c (s.connectionLost p d ended).log = readFrom c s.log ∧
      sentTo c (s.connectionLost p d ended).log = sentTo c s.log := by
  rcases log_connectionLost p s d ended with hlog | hlog
  · rw [hlog]
    exact ⟨by simp [readFrom, Event.readFrom], by simp [sentTo, Event.sentTo]⟩
  · rw [hlog]
    exact ⟨by simp [readFrom, Event.readFrom], by simp [sentTo, Event.sentTo]⟩

/-- What is still to be sent, as long as the connection lasts. -/
def Conn.owes : Conn → Option (List UInt8)
  | .echoing unsent | .closing unsent => some unsent
  | .closed => none

def Server.owes (s : Server) (c : ConnId) : Option (List UInt8) :=
  (s.conns c).elim (some []) Conn.owes

theorem owes_of_conns (hc : s.conns c = some k) : s.owes c = k.owes := by
  rw [Server.owes, hc]
  rfl

theorem owes_of_update (hconns : s'.conns = Function.update s.conns c (some k)) :
    s'.owes c = k.owes :=
  owes_of_conns (by rw [hconns, Function.update_self])

theorem owes_of_ne (hconns : s'.conns = Function.update s.conns d (some k)) (hc : c ≠ d) :
    s'.owes c = s.owes c := by
  rw [Server.owes, hconns, Function.update_of_ne hc]
  rfl

/-- The bytes of a connection before and after a step. -/
def Turns (s s' : Server) (c : ConnId) : Prop :=
  Relay.Turn Relay.eager (readFrom c s.log) (sentTo c s.log) (readFrom c s'.log)
    (sentTo c s'.log) (s.owes c) (s'.owes c)

/-- Bytes of connection `d` are sent, and it goes on with the rest. -/
theorem turns_flush (c : ConnId) (hd : s.owes d = some unsent)
    (hk : k.owes = some (unsent.drop n)) :
    Turns s ((s.set d k).emit (.sent d (unsent.take n))) c := by
  by_cases hc : c = d
  · subst hc
    refine .gives (unsent.take n) (by rw [List.take_append_drop]; exact hd) ?_ ?_ ?_
    · simp [Server.emit, Server.set, readFrom, Event.readFrom]
    · simp [Server.emit, Server.set, sentTo, Event.sentTo]
    · rw [← hk]
      exact owes_of_update rfl
  · have hne : d ≠ c := fun he => hc he.symm
    refine .rests ?_ ?_ (owes_of_ne (k := k) rfl hc)
    · simp [Server.emit, Server.set, readFrom, Event.readFrom]
    · simp [Server.emit, Server.set, sentTo, Event.sentTo, hne]

theorem turns_of_step (hfresh : ∀ c, s.accepted ≤ c → s.conns c = none)
    (hs : s.step p a = some s') (c : ConnId) : Turns s s' c := by
  obtain ⟨-, hdoes⟩ := does_of_step hs
  cases hdoes with
  | accept =>
    refine .rests rfl rfl ?_
    by_cases hc : c = s.accepted
    · have hnone : s.owes c = some [] := by
        rw [Server.owes, hc, hfresh s.accepted (Nat.le_refl _)]
        rfl
      rw [hnone, hc]
      exact owes_of_update (k := .echoing []) rfl
    · exact owes_of_ne (k := .echoing []) rfl hc
  | @data d unsent data hconn _ _ =>
    by_cases hc : c = d
    · subst hc
      refine .takes data (owes_of_conns hconn) trivial ?_ ?_ ?_
      · simp [Server.write, Server.emit, Server.set, readFrom, Event.readFrom]
      · simp [Server.write, Server.emit, Server.set, sentTo, Event.sentTo]
      · exact owes_of_update (k := .echoing (unsent ++ data)) rfl
    · have hne : d ≠ c := fun he => hc he.symm
      refine .rests ?_ ?_ (owes_of_ne (k := .echoing (unsent ++ data)) rfl hc)
      · simp [Server.write, Server.emit, Server.set, readFrom, Event.readFrom, hne]
      · simp [Server.write, Server.emit, Server.set, sentTo, Event.sentTo]
  | @finish d unsent hconn =>
    refine .rests rfl rfl ?_
    by_cases hc : c = d
    · rw [hc, owes_of_conns hconn]
      exact owes_of_update (k := .closing unsent) rfl
    · exact owes_of_ne (k := .closing unsent) rfl hc
  | flush hconn _ => exact turns_flush c (owes_of_conns hconn) rfl
  | flushEnded hconn _ => exact turns_flush c (owes_of_conns hconn) rfl
  | @drain d unsent hconn =>
    by_cases hc : c = d
    · subst hc
      refine .leaves unsent (by rw [List.append_nil]; exact owes_of_conns hconn) ?_ ?_
        (owes_of_update (k := .closed) rfl)
      · simp [Server.drain, Server.emit, Server.set, readFrom, Event.readFrom]
      · simp [Server.drain, Server.emit, Server.set, sentTo, Event.sentTo]
    · have hne : d ≠ c := fun he => hc he.symm
      refine .rests ?_ ?_ (owes_of_ne (k := .closed) rfl hc)
      · simp [Server.drain, Server.emit, Server.set, readFrom, Event.readFrom]
      · simp [Server.drain, Server.emit, Server.set, sentTo, Event.sentTo, hne]
  | @lost d ended conn hconn _ =>
    obtain ⟨hread, hsent⟩ := streams_connectionLost p s d ended c
    have hconns := conns_connectionLost p s d ended
    by_cases hc : c = d
    · subst hc
      exact .stops hread hsent (owes_of_update hconns)
    · exact .rests hread hsent (owes_of_ne hconns hc)

/-- The transports keep what was read and not sent yet. -/
theorem keeps (p : Program) (c : ConnId) :
    Relay.Keeps (server p) Machine.free Relay.eager (fun s => readFrom c s.log)
      (fun s => sentTo c s.log) (fun s => s.owes c) where
  starts := by
    rintro s rfl
    exact ⟨rfl, rfl, fun _ he => (Option.some.inj he).symm⟩
  turns s a s' hr _ hs := turns_of_step (fresh_of_reachable hr) hs c

/-! ### A connection that ends -/

/-- What was closed in order has sent all that it read, and nothing more happens to it. -/
def Settled (s : Server) (c : ConnId) : Prop :=
  .closed c ∈ s.log → s.conns c = some .closed ∧ sentTo c s.log = readFrom c s.log

/-- What happens on one connection that is not closed, but for its orderly end. -/
theorem Settled.goesOn (h : Settled s c) (hd : s.conns d ≠ some .closed)
    (hconns : s'.conns = Function.update s.conns d (some k))
    (hclosed : .closed c ∈ s'.log → .closed c ∈ s.log)
    (hread : c ≠ d → readFrom c s'.log = readFrom c s.log)
    (hsent : c ≠ d → sentTo c s'.log = sentTo c s.log) : Settled s' c := by
  intro hmem
  obtain ⟨hconn, hsame⟩ := h (hclosed hmem)
  have hc : c ≠ d := by
    rintro rfl
    exact hd hconn
  refine ⟨?_, ?_⟩
  · rw [hconns, Function.update_of_ne hc]
    exact hconn
  · rw [hread hc, hsent hc]
    exact hsame

theorem settled_of_reachable (hr : (server p).Reachable Machine.free s) (c : ConnId) :
    Settled s c := by
  apply hr.invariant (I := fun s => Settled s c)
  · rintro s₀ rfl hclosed
    cases hclosed
  · intro s₀ a s₁ hr ih _ hs
    have hlive : ∀ {d conn}, s₀.conns d = some conn → conn ≠ .closed →
        s₀.conns d ≠ some .closed := by
      intro d conn hd hne hclosed
      exact hne (Option.some.inj (hd.symm.trans hclosed))
    obtain ⟨-, hdoes⟩ := does_of_step hs
    cases hdoes with
    | accept =>
      intro hclosed
      obtain ⟨hconn, hsame⟩ := ih hclosed
      have hc : c ≠ s₀.accepted := by
        rintro rfl
        rw [fresh_of_reachable hr _ (Nat.le_refl _)] at hconn
        cases hconn
      exact ⟨(Function.update_of_ne hc _ _).trans hconn, hsame⟩
    | @data d unsent data hd _ _ =>
      refine ih.goesOn (hlive hd nofun) (k := .echoing (unsent ++ data)) rfl ?_ ?_ ?_
      · simp [Server.write, Server.emit, Server.set]
      · intro hc
        have hne : d ≠ c := fun he => hc he.symm
        simp [Server.write, Server.emit, Server.set, readFrom, Event.readFrom, hne]
      · intro _
        simp [Server.write, Server.emit, Server.set, sentTo, Event.sentTo]
    | @finish d unsent hd =>
      intro hclosed
      obtain ⟨hconn, hsame⟩ := ih hclosed
      have hc : c ≠ d := by
        rintro rfl
        exact hlive hd nofun hconn
      exact ⟨(Function.update_of_ne hc _ _).trans hconn, hsame⟩
    | @flush d unsent n hd _ =>
      refine ih.goesOn (hlive hd nofun) (k := .echoing (unsent.drop n)) rfl ?_ ?_ ?_
      · simp [Server.emit, Server.set]
      · intro _
        simp [Server.emit, Server.set, readFrom, Event.readFrom]
      · intro hc
        have hne : d ≠ c := fun he => hc he.symm
        simp [Server.emit, Server.set, sentTo, Event.sentTo, hne]
    | @flushEnded d unsent n hd _ =>
      refine ih.goesOn (hlive hd nofun) (k := .closing (unsent.drop n)) rfl ?_ ?_ ?_
      · simp [Server.emit, Server.set]
      · intro _
        simp [Server.emit, Server.set, readFrom, Event.readFrom]
      · intro hc
        have hne : d ≠ c := fun he => hc he.symm
        simp [Server.emit, Server.set, sentTo, Event.sentTo, hne]
    | @drain d unsent hd =>
      by_cases hc : c = d
      · subst hc
        intro _
        have heq : readFrom c s₀.log = sentTo c s₀.log ++ unsent :=
          (keeps p c).received_eq hr (owes_of_conns hd)
        refine ⟨Function.update_self _ _ _, ?_⟩
        simp only [Server.drain, Server.emit, Server.set, sentTo, readFrom, History.gathered_cons,
          Event.sentTo, Event.readFrom, List.append_nil, if_true]
        exact heq.symm
      · have hne : d ≠ c := fun he => hc he.symm
        intro hclosed
        obtain ⟨hconn, hsame⟩ := ih
          (by simpa [Server.drain, Server.emit, Server.set, hc] using hclosed)
        refine ⟨(Function.update_of_ne hc _ _).trans hconn, ?_⟩
        simpa [Server.drain, Server.emit, Server.set, sentTo, readFrom, Event.sentTo,
          Event.readFrom, hne] using hsame
    | @lost d ended conn hd hended =>
      have hopen : conn ≠ .closed := by
        rintro rfl
        split at hended
        · obtain ⟨_, he⟩ := hended
          cases he
        · obtain ⟨_, he⟩ := hended
          cases he
      obtain ⟨hread, hsent⟩ := streams_connectionLost p s₀ d ended c
      refine ih.goesOn (hlive hd hopen) (conns_connectionLost p s₀ d ended) ?_ (fun _ => hread)
        fun _ => hsent
      rcases log_connectionLost p s₀ d ended with hlog | hlog <;> simp [hlog]

/-! ### Without back pressure -/

/-- A peer that sends and takes nothing back: one byte more can always be read from it. -/
theorem reads_on (p : Program) (n : Nat) : ∃ s, (server p).Reachable Machine.free s ∧
    s.crashed = false ∧ (∃ unsent, s.conns 0 = some (.echoing unsent)) ∧
    (readFrom 0 s.log).length = n ∧ sentTo 0 s.log = [] := by
  induction n with
  | zero =>
    refine ⟨Server.initial.accept, ?_, rfl, ⟨[], rfl⟩, rfl, rfl⟩
    exact Machine.Reachable.step (a := .accept) (.start rfl) trivial rfl
  | succ n ih =>
    obtain ⟨s, hr, hrun, ⟨unsent, hconn⟩, hread, hsent⟩ := ih
    have hadmits : p.admits 1 := by
      intro limit hlimit
      cases p with
      | uvloop =>
        cases hlimit
        decide
      | node => cases hlimit
    have hconn' : (s.write 0 unsent [0]).conns 0 = some (.echoing (unsent ++ [0])) := by
      simp [Server.write, Server.emit, Server.set]
    have hmore : readFrom 0 (s.write 0 unsent [0]).log = readFrom 0 s.log ++ [0] := by
      simp [Server.write, Server.emit, Server.set, readFrom, Event.readFrom]
    refine ⟨s.write 0 unsent [0], ?_, hrun, ⟨unsent ++ [0], hconn'⟩, ?_, ?_⟩
    · apply hr.step (a := .data 0 [0]) trivial
      simp [server, Server.step, hrun, hconn, hadmits]
    · rw [hmore, List.length_append, hread]
      rfl
    · simpa [Server.write, Server.emit, Server.set, sentTo, Event.sentTo] using hsent

/-- Toward each connection both servers are the relay that takes in whatever comes, step by step.
What was closed in order got all of it back; but nothing bounds what is owed to a connection that
is open. -/
theorem streams_refine_relay (p : Program) :
    (∀ c, Relay.IsRelay (server p) Machine.free Relay.never Relay.eager
      (fun s => readFrom c s.log) (fun s => sentTo c s.log) ∧
      Relay.Refines (server p) Machine.free Relay.never Relay.eager (fun s => readFrom c s.log)
        (fun s => sentTo c s.log)) ∧
    (∀ s c, (server p).Reachable Machine.free s → .closed c ∈ s.log →
      sentTo c s.log = readFrom c s.log) ∧
    ∀ n, ∃ s, (server p).Reachable Machine.free s ∧ (∃ unsent, s.conns 0 = some (.echoing unsent)) ∧
      (readFrom 0 s.log).length = (sentTo 0 s.log).length + n := by
  refine ⟨fun c => ⟨(keeps p c).isRelay, (keeps p c).isRelay.refines⟩, ?_, ?_⟩
  · intro s c hr hclosed
    exact (settled_of_reachable hr c hclosed).2
  · intro n
    obtain ⟨s, hr, -, hconn, hread, hsent⟩ := reads_on p n
    exact ⟨s, hr, hconn, by rw [hread, hsent]; exact (Nat.zero_add n).symm⟩

end EchoBenchmark.Streams
