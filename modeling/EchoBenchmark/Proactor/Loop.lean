import EchoBenchmark.Lib.Machine
import EchoBenchmark.Proactor.Operations

/-!
The epoll event loop as a machine. User code runs between an invocation of a callback and its
return; what it does there, what the kernel answers and what the clocks read are the actions.
-/

namespace EchoBenchmark.Proactor

variable {κ : Type}

/-- `Acceptor`. -/
structure Acceptor (κ : Type) where
  live : Bool
  soc : Int
  cb : Option κ
  err : Error

def Acceptor.gone : Acceptor κ := ⟨false, INVALID_SOCKET, none, Error.new⟩

/-- An entry of the epoll set. -/
structure Interest where
  fd : Int
  handler : Handler
  events : Mask
  deriving DecidableEq

/-- A running callback and its arguments. -/
inductive Invocation (κ : Type)
  | io (t : TokenId) (cb : Callback κ) (err : Error) (bytes : Int) (via : Via)
  | accept (a : AccId) (fn : κ) (err : Error) (soc : Int)

/-- Where `run` stands, or returns to when the running callback returns. -/
inductive Pc
  /-- `run` is not active. -/
  | outside
  /-- About to call `epoll_wait`. -/
  | poll
  /-- The head of the `for` loop with the events not yet looked at. -/
  | event (rest : List PollEvent)
  /-- In the `while` loop of `Acceptor::onRead`. -/
  | acceptLoop (a : AccId) (ev : PollEvent) (rest : List PollEvent)
  /-- In `_processCompletion` after `handler->onRead()`. -/
  | drainRead (ev : PollEvent) (rest : List PollEvent)
  /-- At the test for `EPOLLOUT`. -/
  | output (ev : PollEvent) (rest : List PollEvent)
  /-- In `_processCompletion` after `handler->onWrite()`. -/
  | drainWrite (rest : List PollEvent)
  /-- In `_processTimer` with its reading of the clock. -/
  | timer (now : Timeval)
  /-- An empty callback was called and threw. -/
  | thrown
  /-- A destroyed object was used. -/
  | undefined
  deriving DecidableEq

/-- The proactor, the objects of its user and the epoll set. -/
structure State (κ : Type) where
  heap : Heap κ
  acceptors : AccId → Acceptor κ
  interest : List Interest
  deleted : List Handler
  fd : Int
  stop : Bool
  err : Error
  pc : Pc
  callback : Option (Invocation κ)

/-! ### Results of calls -/

/-- The two `fcntl` calls of `SetNonBlock`. -/
inductive NonBlockResult
  | ok
  | getflFail (errno : Int)
  | setflFail (errno : Int)

/-- `::accept` and, for the new descriptor, `SetNonBlock`. -/
inductive AcceptResult
  | conn (fd : Int) (nonblock : NonBlockResult)
  | fail (errno : Int)

/-- The calls of `Acceptor::listen`, each with errno or `0`; `socket` answers a descriptor. -/
structure ListenResult where
  socket : Except Int Int
  setsockopt : Int
  nonblock : NonBlockResult
  bind : Int
  listen : Int
  epollCtl : Int

/-- What `epoll_wait` answers. -/
inductive PollResult
  | events (evs : List PollEvent)
  | timeout
  | error (errno : Int)

/-- `SetNonBlock` with the error it sets. -/
def setNonBlock (soc : Int) (r : NonBlockResult) (err : Error) : Bool × Error :=
  if soc = -1 then (false, err.set (-1) .invalidFd)
  else
    match r with
    | .ok => (true, err)
    | .getflFail errno => (false, err.set errno (.fail .fcntl errno))
    | .setflFail errno => (false, err.set errno (.fail .fcntl errno))

namespace State

variable {s : State κ}

def handle (s : State κ) : Handler → Int
  | .socket id => s.heap.soc id
  | .acceptor a => (s.acceptors a).soc

def live (s : State κ) : Handler → Bool
  | .socket id => s.heap.live id
  | .acceptor a => (s.acceptors a).live

def emit (s : State κ) (e : Event) : State κ := { s with heap := s.heap.emit e }

def onHeap (s : State κ) (f : Heap κ → Heap κ) : State κ := { s with heap := f s.heap }

def setSoc (s : State κ) (id : SockId) (soc : Int) : State κ :=
  s.onHeap fun h =>
    { h with sockets := Function.update h.sockets id { h.sockets id with soc := soc } }

def setAcceptor (s : State κ) (a : AccId) (c : Acceptor κ) : State κ :=
  { s with acceptors := Function.update s.acceptors a c }

/-- User code may act: in a callback, or from outside at any point between the calls `run` makes. -/
def userActive (s : State κ) : Bool :=
  s.callback.isSome ||
    match s.pc with
    | .outside | .poll | .event _ => true
    | _ => false

/-- The use of an object that is not there. -/
def fault (s : State κ) (h : Handler) : State κ :=
  { s.emit (.useAfterFree h) with pc := .undefined, callback := none }

/-! ### Registration -/

/-- The events `_register` asks for, all edge-triggered. -/
def interestMask (acceptor : Bool) : Mask :=
  if acceptor then ⟨true, false, false, false, false⟩ else ⟨true, false, true, false, false⟩

/-- `epoll_ctl(EPOLL_CTL_ADD)`; `ctl` is any further errno the kernel may answer. -/
def epollAdd (s : State κ) (fd : Int) (ctl : Int) : Int :=
  if s.fd = INVALID_HANDLE then EBADF
  else if fd ∈ s.interest.map Interest.fd then EEXIST
  else ctl

/-- `Proactor::_register`. -/
def register (s : State κ) (h : Handler) (acceptor : Bool) (ctl : Int) : State κ × Bool :=
  if s.handle h = INVALID_SOCKET then
    ({ s with err := s.err.set (-1) .invalidSocket }, false)
  else
    let errno := s.epollAdd (s.handle h) ctl
    if errno ≠ 0 then
      ({ s with err := s.err.set errno (.epollCtlError (s.handle h) errno) }, false)
    else
      let entry : Interest := ⟨s.handle h, h, interestMask acceptor⟩
      ({ s.emit (.registered h (s.handle h)) with interest := entry :: s.interest }, true)

/-- `Proactor::_remove(EventHandler*)`. -/
def removeHandler (s : State κ) (h : Handler) : State κ :=
  let fd := s.handle h
  let s : State κ := { s.emit (.removed h) with deleted := s.deleted ++ [h] }
  if s.fd = INVALID_HANDLE ∨ fd ∉ s.interest.map Interest.fd then
    let errno := if s.fd = INVALID_HANDLE ∨ fd < 0 then EBADF else ENOENT
    { s with err := s.err.set errno (.epollCtlError fd errno) }
  else { s with interest := s.interest.filter fun i => i.fd ≠ fd }

/-! ### Socket objects -/

/-- `Socket::Socket(Proactor*)`, with the descriptor it initializes. -/
def newSocket (s : State κ) (id : SockId) (soc : Int) (rtv wtv : Timeval) : State κ :=
  s.onHeap (·.create id soc rtv wtv)

/-- `Socket::Socket(SOCKET, Proactor*)`. -/
def construct (s : State κ) (id : SockId) (soc : Int) (rtv wtv : Timeval) (ctl : Int) : State κ :=
  ((s.newSocket id soc rtv wtv).register (.socket id) false ctl).1

/-- `Socket::close`. -/
def closeSocket (s : State κ) (id : SockId) : State κ :=
  let fd := s.heap.soc id
  let s := s.removeHandler (.socket id)
  if fd ≠ INVALID_SOCKET then (s.emit (.closedFd fd)).setSoc id INVALID_SOCKET else s

/-- `Socket::~Socket`. -/
def destroySocket (s : State κ) (id : SockId) : State κ :=
  let s := if s.heap.soc id ≠ INVALID_SOCKET then s.closeSocket id else s
  s.onHeap fun h => (h.unlink id).release id

/-! ### Acceptor objects -/

/-- `Acceptor::_listen`. -/
def listenSocket (s : State κ) (a : AccId) (r : ListenResult) : State κ × Bool :=
  let c := s.acceptors a
  match r.socket with
  | .error errno =>
    (s.setAcceptor a { c with soc := -1, err := c.err.set errno (.fail .createSocket errno) },
      false)
  | .ok fd =>
    let c := { c with soc := fd }
    let s := s.emit (.opened a .createSocket fd)
    if r.setsockopt ≠ 0 then
      let err := c.err.set r.setsockopt (.fail .setsockopt r.setsockopt)
      (s.setAcceptor a { c with err := err }, false)
    else
      match setNonBlock fd r.nonblock c.err with
      | (false, err) => (s.setAcceptor a { c with err := err }, false)
      | (true, err) =>
        if r.bind ≠ 0 then
          (s.setAcceptor a { c with err := err.set r.bind (.fail .bind r.bind) }, false)
        else if r.listen ≠ 0 then
          (s.setAcceptor a { c with err := err.set r.listen (.fail .listen r.listen) }, false)
        else (s.setAcceptor a { c with err := err }, true)

/-- `Acceptor::listen`. -/
def listen (s : State κ) (a : AccId) (cb : κ) (r : ListenResult) : State κ × Bool :=
  match s.listenSocket a r with
  | (s, false) => (s, false)
  | (s, true) =>
    (s.setAcceptor a { s.acceptors a with cb := some cb }).register (.acceptor a) true r.epollCtl

/-- `Acceptor::close`. -/
def closeAcceptor (s : State κ) (a : AccId) : State κ :=
  let fd := (s.acceptors a).soc
  let s := s.removeHandler (.acceptor a)
  if fd ≠ INVALID_SOCKET then
    (s.emit (.closedFd fd)).setAcceptor a { s.acceptors a with soc := INVALID_SOCKET }
  else s

/-- `Acceptor::~Acceptor`. -/
def destroyAcceptor (s : State κ) (a : AccId) : State κ :=
  let s := if (s.acceptors a).soc ≠ INVALID_SOCKET then s.closeAcceptor a else s
  s.setAcceptor a .gone

/-! ### Calls into user code -/

/-- `token.cb(err, bytes)`; an empty `boost::function` throws. -/
def invoke (s : State κ) (t : TokenId) (err : Error) (bytes : Int) (via : Via) : State κ :=
  match (s.heap.tok t).cb with
  | none => { s with pc := .thrown }
  | some cb =>
    { s.emit (.called t cb.call err.code bytes via) with
      callback := some (.io t cb err bytes via) }

/-- `_cb(err, soc)` of an Acceptor. -/
def invokeAccept (s : State κ) (a : AccId) (err : Error) (soc : Int) : State κ :=
  match (s.acceptors a).cb with
  | none => { s with pc := .thrown }
  | some fn =>
    { s.emit (.accepted a err.code soc) with callback := some (.accept a fn err soc) }

/-- `_rt.err.set(ECONNRESET, "closed"); _wt.err.set(ECONNRESET, "closed");` -/
def resetErrs (s : State κ) (id : SockId) : State κ :=
  s.onHeap fun h =>
    (h.setErr ⟨id, .read⟩ ECONNRESET .closed).setErr ⟨id, .write⟩ ECONNRESET .closed

/-- `Socket::onClose`. -/
def onCloseSocket (s : State κ) (id : SockId) : State κ :=
  let rt : TokenId := ⟨id, .read⟩
  let wt : TokenId := ⟨id, .write⟩
  let s := s.resetErrs id
  if (s.heap.tok rt).mode ≠ .done then s.invoke rt (s.heap.tok rt).err 0 .hangup
  else if (s.heap.tok wt).mode ≠ .done then s.invoke wt (s.heap.tok wt).err 0 .hangup
  else s

/-- `Acceptor::onClose`. -/
def onCloseAcceptor (s : State κ) (a : AccId) : State κ :=
  let err := (s.acceptors a).err.set ECONNRESET .closed
  (s.setAcceptor a { s.acceptors a with err := err }).invokeAccept a err INVALID_SOCKET

/-! ### One event of the batch -/

/-- `handler->onClose()`. -/
def dispatchClose (s : State κ) (h : Handler) : State κ :=
  let s := s.emit (.dispatched h .onClose)
  if s.live h = false then s.fault h
  else
    match h with
    | .socket id => s.onCloseSocket id
    | .acceptor a => s.onCloseAcceptor a

/-- `handler->onRead()`; what follows in `run` is where the counter is left. -/
def dispatchRead (s : State κ) (ev : PollEvent) (rest : List PollEvent) (r : ReadResult) :
    State κ :=
  let s := s.emit (.dispatched ev.handler .onRead)
  if s.live ev.handler = false then s.fault ev.handler
  else
    match ev.handler with
    | .socket id => { s.onHeap (·.onRead id r) with pc := .drainRead ev rest }
    | .acceptor a => { s with pc := .acceptLoop a ev rest }

/-- `handler->onWrite()`; that of an Acceptor is empty. -/
def dispatchWrite (s : State κ) (h : Handler) (rest : List PollEvent) (r : WriteResult) :
    State κ :=
  let s := s.emit (.dispatched h .onWrite)
  if s.live h = false then s.fault h
  else
    match h with
    | .socket id => { s.onHeap (·.onWrite id r) with pc := .drainWrite rest }
    | .acceptor _ => { s with pc := .drainWrite rest }

/-- The body of the `for` loop up to the next call out of it. -/
def dispatch (s : State κ) (r : ReadResult) (w : WriteResult) : Option (State κ) :=
  match s.pc with
  | .event (ev :: rest) =>
    if ev.events.hangup then some ({ s with pc := .event rest }.dispatchClose ev.handler)
    else if ev.events.input then some ({ s with deleted := [] }.dispatchRead ev rest r)
    else some { s with pc := .output ev rest }
  | .output ev rest =>
    if ev.events.pollout then some (s.dispatchWrite ev.handler rest w)
    else some { s with pc := .event rest }
  | _ => none

/-- One round of the `while` loop of `Acceptor::onRead`, with `_accept(NULL)` in it. -/
def accept (s : State κ) (r : AcceptResult) : Option (State κ) :=
  match s.pc with
  | .acceptLoop a ev rest =>
    if s.live (.acceptor a) = false then some (s.fault (.acceptor a))
    else
      let c := s.acceptors a
      let err := c.err.clear
      match r with
      | .fail errno =>
        if errno = EAGAIN then
          some { s.setAcceptor a { c with err := ⟨errno, err.detail⟩ } with
            pc := .drainRead ev rest }
        else
          let err := err.set errno (.fail .accept errno)
          some ({ s.setAcceptor a { c with err := err } with
            pc := .drainRead ev rest }.invokeAccept a err (-1))
      | .conn fd nonblock =>
        let s := s.emit (.opened a .accept fd)
        match setNonBlock fd nonblock err with
        | (false, err) =>
          let s := { s.setAcceptor a { c with err := err } with pc := .drainRead ev rest }
          if err.code = EAGAIN then some s else some (s.invokeAccept a err (-1))
        | (true, err) =>
          let err := err.clear
          some ((s.setAcceptor a { c with err := err }).invokeAccept a err fd)
  | _ => none

/-- Where `run` goes on when a `_processCompletion` finds the queue empty. -/
def drained (s : State κ) : Option (State κ) :=
  match s.pc with
  | .drainRead ev rest =>
    -- a handler removed meanwhile does not get its EPOLLOUT
    if ev.handler ∈ s.deleted then some { s with pc := .event rest }
    else some { s with pc := .output ev rest }
  | .drainWrite rest => some { s with pc := .event rest }
  | _ => none

/-- One round of the `while` loop of `_processCompletion`. -/
def processCompletion (s : State κ) : Option (State κ) :=
  match s.pc with
  | .drainRead _ _ | .drainWrite _ =>
    match s.heap.queue with
    | [] => s.drained
    | cur :: _ =>
      if s.heap.live cur.sock = false then some (s.fault (.socket cur.sock))
      else
        let s := s.onHeap (·.complete cur)
        some (s.invoke cur (s.heap.tok cur).err (s.heap.tok cur).ioSize .completion)
  | _ => none

/-- The start of `_processTimer`, which reads the clock. -/
def startTimer (s : State κ) (now : Timeval) : Option (State κ) :=
  match s.pc with
  | .event [] => some { s with pc := .timer now }
  | _ => none

/-- One round of the `while` loop of `_processTimer`. -/
def processTimer (s : State κ) : Option (State κ) :=
  match s.pc with
  | .timer now =>
    match s.heap.timerList with
    | [] => some { s with pc := .poll }
    | cur :: timers =>
      if s.heap.live cur.sock = false then some (s.fault (.socket cur.sock))
      else if timercmp (s.heap.tv cur) now then
        let s := s.onHeap (·.expire cur timers)
        some (s.invoke cur (s.heap.tok cur).err 0 .timer)
      else some { s with pc := .poll }
  | _ => none

/-! ### epoll_wait -/

/-- `SAFE_CLOSE_HANDLE(_fd)`; the epoll set goes with its descriptor. -/
def closeHandle (s : State κ) : State κ :=
  if s.fd ≠ INVALID_HANDLE then
    { s.emit (.closedFd s.fd) with fd := INVALID_HANDLE, interest := [] }
  else s

/-- A mask reports what was asked for, errors and hang-ups, which are always reported. -/
def Mask.within (m asked : Mask) : Prop :=
  (m.pollin → asked.pollin) ∧ (m.pollpri → asked.pollpri) ∧ (m.pollout → asked.pollout)

instance (m asked : Mask) : Decidable (Mask.within m asked) := inferInstanceAs (Decidable (_ ∧ _))

/-- A batch names each registered descriptor at most once. -/
def reports (s : State κ) (evs : List PollEvent) : Prop :=
  s.fd ≠ INVALID_HANDLE ∧ evs ≠ [] ∧ evs.length ≤ MAX_HANDLE ∧ (evs.map PollEvent.fd).Nodup ∧
    ∀ ev ∈ evs, ∃ i ∈ s.interest, i.fd = ev.fd ∧ i.handler = ev.handler ∧
      Mask.within ev.events i.events

instance (s : State κ) (evs : List PollEvent) : Decidable (s.reports evs) :=
  inferInstanceAs (Decidable (_ ∧ _))

/-- The head of the `while` loop of `run`. -/
def epollWait (s : State κ) (r : PollResult) : Option (State κ) :=
  if s.stop then some { s.closeHandle with pc := .outside }
  else
    match r with
    | .error errno =>
      let s := { s with err := s.err.set errno (.fail .epollWait errno) }
      some { s.closeHandle with pc := .outside }
    | .timeout => if s.fd ≠ INVALID_HANDLE then some { s with pc := .event [] } else none
    | .events evs =>
      if s.reports evs then some { s.emit (.polled evs) with pc := .event evs } else none

end State

/-! ### The machine -/

inductive Action (κ : Type)
  /-- `Proactor::create`, with the descriptor or `-1` and errno. -/
  | epollCreate (fd errno : Int)
  | create (id : SockId) (soc : Int) (rtv wtv : Timeval) (ctl : Int)
  | createUnbound (id : SockId) (rtv wtv : Timeval)
  | readSome (id : SockId) (buf : Ptr) (size : Int) (cb : κ) (timeoutMsec : Int)
      (r : ReadResult) (now : Timeval)
  | readAll (id : SockId) (buf : Ptr) (size : Int) (cb : κ) (timeoutMsec : Int)
      (r : ReadResult) (now : Timeval)
  | writeAll (id : SockId) (buf : Ptr) (size : Int) (cb : κ) (timeoutMsec : Int)
      (r : WriteResult) (now : Timeval)
  | close (id : SockId)
  | destroy (id : SockId)
  | memcpy (dst src : Ptr) (n : Nat)
  | createAcceptor (a : AccId) (soc : Int)
  | listen (a : AccId) (cb : κ) (r : ListenResult)
  | closeAcceptor (a : AccId)
  | destroyAcceptor (a : AccId)
  | stop
  | run
  /-- The running callback returns. -/
  | ret
  | epollWait (r : PollResult)
  | dispatch (r : ReadResult) (w : WriteResult)
  | accept (r : AcceptResult)
  | processCompletion
  | startTimer (now : Timeval)
  | processTimer
  | environment (e : KernelEvent)

namespace State

/-- User code does something with an object it takes to be there. -/
def user (s : State κ) (h : Handler) (f : State κ → State κ) : Option (State κ) :=
  if s.userActive then some (if s.live h = false then s.fault h else f s) else none

/-- The library runs only while no callback does. -/
def library (s : State κ) (t : Option (State κ)) : Option (State κ) :=
  match s.callback with
  | none => t
  | some _ => none

def step (s : State κ) : Action κ → Option (State κ)
  | .epollCreate fd errno =>
    if s.userActive then
      -- an epoll set of an earlier call is no longer reached
      let s := { s with fd := fd, interest := [] }
      if fd = -1 then some { s with err := s.err.set errno (.fail .epollCreate errno) }
      else some s
    else none
  | .create id soc rtv wtv ctl =>
    if s.userActive ∧ s.heap.live id = false then some (s.construct id soc rtv wtv ctl) else none
  | .createUnbound id rtv wtv =>
    if s.userActive ∧ s.heap.live id = false then some (s.newSocket id INVALID_SOCKET rtv wtv)
    else none
  | .readSome id buf size cb ms r now =>
    s.user (.socket id) (·.onHeap fun h => (h.readSome id buf size cb ms r now).1)
  | .readAll id buf size cb ms r now =>
    s.user (.socket id) (·.onHeap fun h => (h.readAll id buf size cb ms r now).1)
  | .writeAll id buf size cb ms r now =>
    s.user (.socket id) (·.onHeap fun h => (h.writeAll id buf size cb ms r now).1)
  | .close id => s.user (.socket id) (·.closeSocket id)
  | .destroy id => s.user (.socket id) (·.destroySocket id)
  | .memcpy dst src n => if s.userActive then some (s.onHeap (·.memcpy dst src n)) else none
  | .createAcceptor a soc =>
    if s.userActive ∧ (s.acceptors a).live = false then
      some (s.setAcceptor a ⟨true, soc, none, Error.new⟩)
    else none
  | .listen a cb r => s.user (.acceptor a) (fun s => (s.listen a cb r).1)
  | .closeAcceptor a => s.user (.acceptor a) (·.closeAcceptor a)
  | .destroyAcceptor a => s.user (.acceptor a) (·.destroyAcceptor a)
  | .stop => some { s with stop := true }
  | .run => s.library (if s.pc = .outside then some { s with pc := .poll } else none)
  | .ret => if s.callback.isSome then some { s with callback := none } else none
  | .epollWait r => s.library (if s.pc = .poll then s.epollWait r else none)
  | .dispatch r w => s.library (s.dispatch r w)
  | .accept r => s.library (s.accept r)
  | .processCompletion => s.library s.processCompletion
  | .startTimer now => s.library (s.startTimer now)
  | .processTimer => s.library s.processTimer
  | .environment e => some (s.emit (.kernel e))

/-- A new proactor in a program without Sockets; the memory is as it happens to be. -/
def initial (mem : Mem) : State κ where
  heap := ⟨fun _ => .gone, [], [], mem, 0, []⟩
  acceptors _ := .gone
  interest := []
  deleted := []
  fd := INVALID_HANDLE
  stop := false
  err := Error.new
  pc := .outside
  callback := none

end State

/-- The proactor on epoll with any user and any kernel. -/
def proactor (κ : Type) : Machine (State κ) (Action κ) where
  init s := ∃ mem, s = State.initial mem
  step := State.step

end EchoBenchmark.Proactor
