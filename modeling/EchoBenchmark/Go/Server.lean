import EchoBenchmark.Lib.Machine
import Mathlib.Logic.Function.Basic

/-!
The Go server: one goroutine that accepts, and one for each connection, in one process.
-/

namespace EchoBenchmark.Go

abbrev ConnId := Nat

def BUF_SIZE : Nat := 1024

/-- What `conn.Read(buf)` answers. -/
inductive ReadResult
  | got (bytes : List UInt8)
  | eof
  | error

/-- Where the goroutine of a connection stands: at its `Read`, at its `Write` of `buf[0:readSize]`,
or behind its deferred `Close`. -/
inductive Goroutine
  | reading
  | writing (bytes : List UInt8)
  | closed
  deriving DecidableEq

/-- One entry of the history of transfers. -/
inductive Transfer
  | read (c : ConnId) (bytes : List UInt8)
  | wrote (c : ConnId) (bytes : List UInt8)
  deriving DecidableEq

/-- The goroutines of the connections, how many were accepted, the status with which the process
exited, and the transfers with the newest first. -/
structure Server where
  conns : ConnId → Option Goroutine
  accepted : Nat
  exited : Option Nat
  log : List Transfer

/-- What happens next: `listener.Accept()`, or an operation of a connection, returns. -/
inductive Action
  | accept (ok : Bool)
  | read (c : ConnId) (r : ReadResult)
  | write (c : ConnId) (ok : Bool)

namespace Server

def initial : Server := ⟨fun _ => none, 0, none, []⟩

def set (s : Server) (c : ConnId) (g : Goroutine) : Server :=
  { s with conns := Function.update s.conns c (some g) }

/-- `os.Exit(1)`. -/
def exit (s : Server) : Server := { s with exited := some 1 }

/-- A round of the loop in `main`; an error of `Accept` is printed only. -/
def accept (s : Server) (ok : Bool) : Server :=
  if ok then { s.set s.accepted .reading with accepted := s.accepted + 1 } else s

/-- `echo` behind its `conn.Read`. -/
def onRead (s : Server) (c : ConnId) : ReadResult → Option Server
  | .got bytes =>
    if bytes.length ≤ BUF_SIZE then
      some { s.set c (.writing bytes) with log := .read c bytes :: s.log }
    else none
  | .eof => some (s.set c .closed)
  | .error => some s.exit

/-- `echo` behind its `conn.Write`, which writes all the bytes or fails. -/
def onWrite (s : Server) (c : ConnId) (bytes : List UInt8) (ok : Bool) : Server :=
  if ok then { s.set c .reading with log := .wrote c bytes :: s.log } else s.exit

/-- The goroutines run in any order, as long as the process runs. -/
def step (s : Server) (a : Action) : Option Server :=
  match s.exited, a with
  | some _, _ => none
  | none, .accept ok => some (s.accept ok)
  | none, .read c r => if s.conns c = some .reading then s.onRead c r else none
  | none, .write c ok =>
    match s.conns c with
    | some (.writing bytes) => some (s.onWrite c bytes ok)
    | _ => none

end Server

/-- The server with any clients. -/
def server : Machine Server Action where
  init s := s = Server.initial
  step := Server.step

end EchoBenchmark.Go
