import EchoBenchmark.Proactor.Loop

/-!
The echo server on the proactor. Its state adds to that of the proactor what the running function
of the program has still to do; each step of it is a step of the proactor.
-/

namespace EchoBenchmark.Echo

open EchoBenchmark.Proactor

/-- An `EchoClient*`. A client is named by the Socket it holds. -/
abbrev ClientId := SockId

/-- The methods bound as callbacks. -/
inductive Fn
  | onAccept
  | onRead (client : ClientId)
  | onWrite (client : ClientId)
  deriving DecidableEq

def TIMEOUT_MS : Int := 5 * 1000

/-- The size of `recvBuf` and of `sendBuf`. -/
def BUFSIZE : Nat := 1024

def recvBuf (c : ClientId) : Ptr := ⟨2 * c, 0⟩

def sendBuf (c : ClientId) : Ptr := ⟨2 * c + 1, 0⟩

/-- The one Acceptor, that of the `Server`. -/
def serverAcceptor : AccId := 0

/-- The calls that the functions of the program are made of. -/
inductive Stmt
  /-- `proactor.create()` -/
  | create
  /-- `Server server(proactor);` -/
  | newServer
  /-- `server.startAccept()` -/
  | startAccept
  /-- `proactor.run()` -/
  | run
  /-- `new EchoClient(acceptSoc, &_proactor)` and `client->startRecv()` -/
  | newClient (soc : Int)
  | startRecv (c : ClientId)
  /-- `memcpy(sendBuf, recvBuf, bytes)` -/
  | memcpy (c : ClientId) (bytes : Int)
  /-- `_soc.writeAll(sendBuf, bytes, …)` -/
  | writeAll (c : ClientId) (bytes : Int)
  /-- `_soc.close()` -/
  | close (c : ClientId)
  /-- The destruction of the member `_soc`. -/
  | destroySocket (c : ClientId)
  deriving DecidableEq

/-- `delete this`: the body of `~EchoClient`, then its members. -/
def deleteClient (c : ClientId) : List Stmt := [.close c, .destroySocket c]

/-- `EchoClient::onRead`. -/
def onRead (c : ClientId) (err : Error) (bytes : Int) : List Stmt :=
  if err.code ≠ 0 then deleteClient c
  else if bytes ≤ 0 then deleteClient c
  else [.memcpy c bytes, .writeAll c bytes]

/-- `EchoClient::onWrite`. -/
def onWrite (c : ClientId) (err : Error) (bytes : Int) : List Stmt :=
  if err.code ≠ 0 then deleteClient c
  else if bytes ≤ 0 then deleteClient c
  else [.startRecv c]

/-- `Server::onAccept`, which does not look at its error. -/
def onAccept (acceptSoc : Int) : List Stmt := [.newClient acceptSoc]

/-- `main`, whose calls of `create` and `startAccept` have to succeed for it to go on. -/
def main : List Stmt := [.create, .newServer, .startAccept, .run]

/-- What a callback of the proactor runs. -/
def body : Invocation Fn → List Stmt
  | .accept _ .onAccept _ soc => onAccept soc
  | .io _ ⟨_, .onRead c⟩ err bytes _ => onRead c err bytes
  | .io _ ⟨_, .onWrite c⟩ err bytes _ => onWrite c err bytes
  | _ => []

/-- The actions of the proactor that a call may be: only what it leaves open is free. -/
def Stmt.permits : Stmt → Action Fn → Prop
  | .create, .epollCreate _ _ => True
  | .newServer, .createAcceptor a soc => a = serverAcceptor ∧ soc = INVALID_SOCKET
  | .startAccept, .listen a cb _ => a = serverAcceptor ∧ cb = .onAccept
  | .run, .run => True
  | .newClient acceptSoc, .create _ soc _ _ _ => soc = acceptSoc
  | .startRecv c, .readSome id buf size cb timeoutMsec _ _ =>
    id = c ∧ buf = recvBuf c ∧ size = BUFSIZE ∧ cb = .onRead c ∧ timeoutMsec = TIMEOUT_MS
  | .memcpy c bytes, .memcpy dst src n => dst = sendBuf c ∧ src = recvBuf c ∧ n = bytes
  | .writeAll c bytes, .writeAll id buf size cb timeoutMsec _ _ =>
    id = c ∧ buf = sendBuf c ∧ size = bytes ∧ cb = .onWrite c ∧ timeoutMsec = TIMEOUT_MS
  | .close c, .close id => id = c
  | .destroySocket c, .destroy id => id = c
  | _, _ => False

instance (st : Stmt) (act : Action Fn) : Decidable (st.permits act) := by
  unfold Stmt.permits
  split <;> infer_instance

/-- What is left to do after a call in state `s`; a failing `main` returns. -/
def Stmt.next (s : State Fn) (rest : List Stmt) : Action Fn → List Stmt
  | .epollCreate fd _ => if fd = INVALID_HANDLE then [] else rest
  | .listen a cb r => if (s.listen a cb r).2 then rest else []
  | .create c _ _ _ _ => .startRecv c :: rest
  | _ => rest

/-- The signal handler and the network act at any time. -/
def isSignal : Action Fn → Bool
  | .stop | .environment _ => true
  | _ => false

/-- The steps of `run` itself, and the return of a callback. -/
def isLibrary : Action Fn → Bool
  | .ret | .epollWait _ | .dispatch _ _ | .accept _ | .processCompletion | .startTimer _
  | .processTimer => true
  | _ => false

/-- The proactor, and what the running function has still to do. -/
structure Server where
  core : State Fn
  todo : List Stmt

namespace Server

/-- A callback that `run` has just called starts with its body. -/
def entered (core core' : State Fn) : List Stmt :=
  match core.callback, core'.callback with
  | none, some inv => body inv
  | _, _ => []

def step (s : Server) (act : Action Fn) : Option Server :=
  if isSignal act then (s.core.step act).map fun core => ⟨core, s.todo⟩
  else
    match s.todo with
    | st :: rest =>
      if st.permits act then (s.core.step act).map fun core => ⟨core, Stmt.next s.core rest act⟩
      else none
    | [] =>
      if isLibrary act then (s.core.step act).map fun core => ⟨core, entered s.core core⟩ else none

/-- The program at the start of `main`. -/
def initial (mem : Mem) : Server := ⟨State.initial mem, main⟩

end Server

/-- The echo server with any kernel, any signals and any allocator. -/
def echo : Machine Server (Action Fn) where
  init s := ∃ mem, s = Server.initial mem
  step := Server.step

namespace Server

variable {s s' : Server} {act : Action Fn}

/-- A step is a signal, the next call of the running function, or a step of the library. -/
theorem step_cases (hs : s.step act = some s') :
    (isSignal act = true ∧ s.core.step act = some s'.core ∧ s'.todo = s.todo) ∨
    (∃ st rest, s.todo = st :: rest ∧ st.permits act ∧ s.core.step act = some s'.core ∧
      s'.todo = Stmt.next s.core rest act) ∨
    (s.todo = [] ∧ isLibrary act = true ∧ s.core.step act = some s'.core ∧
      s'.todo = entered s.core s'.core) := by
  unfold step at hs
  split at hs
  · rename_i hsig
    obtain ⟨core, hcore, rfl⟩ := Option.map_eq_some_iff.mp hs
    exact .inl ⟨hsig, hcore, rfl⟩
  · split at hs
    · rename_i st rest htodo
      split at hs
      · rename_i hp
        obtain ⟨core, hcore, rfl⟩ := Option.map_eq_some_iff.mp hs
        exact .inr (.inl ⟨st, rest, htodo, hp, hcore, rfl⟩)
      · cases hs
    · rename_i htodo
      split at hs
      · rename_i hlib
        obtain ⟨core, hcore, rfl⟩ := Option.map_eq_some_iff.mp hs
        exact .inr (.inr ⟨htodo, hlib, hcore, rfl⟩)
      · cases hs

theorem core_step (hs : s.step act = some s') : s.core.step act = some s'.core := by
  obtain ⟨-, hcore, -⟩ | ⟨st, rest, -, -, hcore, -⟩ | ⟨-, -, hcore, -⟩ := step_cases hs
  · exact hcore
  · exact hcore
  · exact hcore

end Server

/-- The echo server is a program on the proactor. -/
theorem core_reachable {s : Server} {p : Server → Action Fn → Prop} (hr : echo.Reachable p s) :
    (proactor Fn).Reachable Machine.free s.core := by
  refine hr.map (f := Server.core) ?_ ?_
  · rintro s₀ ⟨mem, rfl⟩
    exact ⟨mem, rfl⟩
  · intro s₀ act s₁ _ hs
    exact ⟨act, trivial, Server.core_step hs⟩

end EchoBenchmark.Echo
