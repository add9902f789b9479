import EchoBenchmark.Lib.Buffer
import EchoBenchmark.Lib.Machine
import Mathlib.Logic.Function.Basic

/-!
The select loops of the Java and the Kotlin server. Each channel has a buffer as the attachment of
its key; what the selector and the channels answer are the actions.
-/

namespace EchoBenchmark.Nio

abbrev ClientId := Nat

/-- A key of the selector: that of the server channel or of a client. -/
inductive Key
  | server
  | client (c : ClientId)
  deriving DecidableEq

/-- One entry of the history of transfers. -/
inductive Transfer
  | read (c : ClientId) (bytes : List UInt8)
  | wrote (c : ClientId) (bytes : List UInt8)
  deriving DecidableEq

/-- What `accept` answers on a channel that does not block. -/
inductive AcceptResult
  | client
  | null
  | ioException

/-- What `client.read(buffer)` answers; `-1` is the end of the stream. -/
inductive ReadResult
  | got (bytes : List UInt8)
  | eof
  | ioException

/-- What `client.write(buffer)` answers. -/
inductive WriteResult
  | wrote (n : Nat)
  | ioException

/-- Where `main` stands. -/
inductive Pc
  /-- At the head of the `while (true)` loop, about to call `select`. -/
  | select
  /-- At the head of the loop over the selected keys that are left in the iterator. -/
  | keys (rest : List Key)
  /-- An exception left `main`. -/
  | thrown
  deriving DecidableEq

/-- What the two programs choose. -/
structure Program where
  bufferSize : Nat

/-- `src/java_nio/EchoServer.java`. -/
def java : Program := ⟨1024⟩

/-- `src/kotlin_nio/echoserver.kt`. -/
def kotlin : Program := ⟨1024⟩

/-- `attachment c` is the buffer of the key of an open client channel; `clients` counts the channels
accepted so far, whose numbers are the identities of the channels. -/
structure Server where
  attachment : ClientId → Option (Buffer UInt8)
  clients : Nat
  pc : Pc
  log : List Transfer

namespace Server

variable {p : Program} {s s' : Server}

/-- `client.register(selector, OP_READ, ByteBuffer.allocate(BUFFER_SIZE))`. -/
def register (p : Program) (s : Server) : Server :=
  { s with
    attachment := Function.update s.attachment s.clients (some (Buffer.allocate p.bufferSize 0))
    clients := s.clients + 1 }

/-- `key.cancel(); client.close();` -/
def close (s : Server) (c : ClientId) : Server :=
  { s with attachment := Function.update s.attachment c none }

def throw (s : Server) : Server := { s with pc := .thrown }

/-- `client.read(buffer)` stored the bytes in the buffer. -/
def stored (s : Server) (c : ClientId) (buffer : Buffer UInt8) (bytes : List UInt8) : Server :=
  { s with
    attachment := Function.update s.attachment c (some buffer)
    log := .read c bytes :: s.log }

/-- `client.write(buffer)` took bytes from the buffer. -/
def sent (s : Server) (c : ClientId) (buffer : Buffer UInt8) (bytes : List UInt8) : Server :=
  { s with
    attachment := Function.update s.attachment c (some buffer)
    log := .wrote c bytes :: s.log }

/-- The body for an acceptable key; a `null` is dereferenced. -/
def acceptable (p : Program) (s : Server) : AcceptResult → Server
  | .client => s.register p
  | .null | .ioException => s.throw

/-- `buffer.flip(); client.write(buffer); buffer.clear();` -/
def echo (s : Server) (c : ClientId) (buffer : Buffer UInt8) : WriteResult → Option Server
  | .wrote n =>
    if h : n ≤ buffer.flip.remaining then
      some (s.sent c (buffer.flip.skip n h).clear (buffer.flip.front n))
    else none
  | .ioException => some s.throw

/-- The body for a readable key; its key is valid as long as the channel is open. -/
def readable (s : Server) (c : ClientId) (r : ReadResult) (w : WriteResult) : Option Server :=
  match s.attachment c with
  | none => some s.throw
  | some buffer =>
    match r with
    | .got bytes =>
      if h : bytes.length ≤ buffer.remaining then
        (s.stored c (buffer.put bytes h) bytes).echo c (buffer.put bytes h) w
      else none
    | .eof => some (s.close c)
    | .ioException => some s.throw

/-- The channel of a key is open. -/
def isOpen (s : Server) : Key → Bool
  | .server => true
  | .client c => (s.attachment c).isSome

/-- A selector reports a set of keys of open channels. -/
def selects (s : Server) (keys : List Key) : Prop := keys.Nodup ∧ ∀ k ∈ keys, s.isOpen k = true

instance (s : Server) (keys : List Key) : Decidable (s.selects keys) :=
  inferInstanceAs (Decidable (_ ∧ _))

/-- One round of the loop over the selected keys. -/
def round (p : Program) (s : Server) (a : AcceptResult) (r : ReadResult) (w : WriteResult) :
    Option Server :=
  match s.pc with
  | .keys [] => some { s with pc := .select }
  | .keys (.server :: rest) => some ({ s with pc := .keys rest }.acceptable p a)
  | .keys (.client c :: rest) => { s with pc := .keys rest }.readable c r w
  | .select | .thrown => none

end Server

inductive Action
  /-- `selector.select()` with the keys in the order of the iterator. -/
  | select (keys : List Key)
  | round (a : AcceptResult) (r : ReadResult) (w : WriteResult)

def Server.step (p : Program) (s : Server) : Action → Option Server
  | .select keys =>
    if s.pc = .select ∧ s.selects keys then
      -- a `channelCount` of 0 goes back to `select`
      if keys = [] then some s else some { s with pc := .keys keys }
    else none
  | .round a r w => s.round p a r w

/-- The server before its first `select`. -/
def Server.initial : Server := ⟨fun _ => none, 0, .select, []⟩

/-- The server with any clients. -/
def nio (p : Program) : Machine Server Action where
  init s := s = Server.initial
  step := Server.step p

end EchoBenchmark.Nio
