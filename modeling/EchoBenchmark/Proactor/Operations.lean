import EchoBenchmark.Proactor.Basic

/-!
The Socket functions and the queue and timer functions of the proactor, as the source has them.
None of them calls user code.
-/

namespace EchoBenchmark.Proactor

variable {κ : Type}

namespace Heap

variable {h : Heap κ} {t u : TokenId} {id : SockId} {buf : Ptr} {size n timeoutMsec : Int}
  {cb : κ} {now : Timeval} {m : Mode}

/-! ### Queue and timer list -/

/-- `_enqueue`: the token becomes `_head.prev`. -/
def enqueue (h : Heap κ) (t : TokenId) : Heap κ := { h with queue := h.queue ++ [t] }

/-- `_remove(Token*)`: unlink the token from the queue. -/
def removeToken (h : Heap κ) (t : TokenId) : Heap κ := { h with queue := h.queue.erase t }

/-- `_timerList.insert(token)`, which refuses a token whose deadline is taken. -/
def insertTimer (h : Heap κ) (t : TokenId) : Heap κ :=
  let (timers, inserted) := KeyedSet.insert h.tv t h.timerList
  let h := { h with timerList := timers }
  if inserted then h.emit (.armed t (h.tv t)) else h

/-- `_pushTimer`. The deadline is written whether or not the set takes the token. -/
def pushTimer (h : Heap κ) (t : TokenId) (timeoutMsec : Int) (now : Timeval) : Heap κ :=
  if timeoutMsec = 0 then h
  else (h.modify t fun k => { k with tv := timeradd now (ofMsec timeoutMsec) }).insertTimer t

/-- `_popTimer`: `std::set::erase` by key. -/
def popTimer (h : Heap κ) (t : TokenId) : Heap κ :=
  { h with timerList := KeyedSet.erase h.tv t h.timerList }

/-! ### Token updates -/

/-- `token.err.set(code, …)`. -/
def setErr (h : Heap κ) (t : TokenId) (code : Int) (detail : Detail) : Heap κ :=
  h.modify t fun k => { k with err := k.err.set code detail }

/-- `token.init(buf, size, cb)` of the call with the next number. -/
def init (h : Heap κ) (t : TokenId) (buf : Ptr) (size : Int) (cb : κ) : Heap κ :=
  let h' := (h.modify t fun k => k.init buf size ⟨h.nextCall, cb⟩).emit (.started t h.nextCall)
  { h' with nextCall := h.nextCall + 1 }

/-- The rejection of a call while the token is in use. -/
def refuse (h : Heap κ) (t : TokenId) (detail : Detail) : Heap κ :=
  let h' := (h.setErr t (-1) detail).emit (.refused t h.nextCall)
  { h' with nextCall := h.nextCall + 1 }

/-- `token.set(ioSize, mode); _proactor->_enqueue(&token);` -/
def finish (h : Heap κ) (t : TokenId) (ioSize : Int) (mode : Mode) : Heap κ :=
  (h.modify t fun k => k.set ioSize mode).enqueue t

/-- `token.set(ioSize, mode); _proactor->_pushTimer(&token, timeoutMsec);` -/
def park (h : Heap κ) (t : TokenId) (ioSize : Int) (mode : Mode) (timeoutMsec : Int)
    (now : Timeval) : Heap κ :=
  (h.modify t fun k => k.set ioSize mode).pushTimer t timeoutMsec now

/-! ### Input and output -/

/-- `Socket::_read`. -/
def read (h : Heap κ) (id : SockId) (buf : Ptr) (size : Int) (r : ReadResult) : Heap κ :=
  let t : TokenId := ⟨id, .read⟩
  let h := h.modify t fun k => { k with err := k.err.clear }
  let h := { h with mem := h.mem.store buf r.bytes }
  let h := h.emit (.sysRead id buf size r)
  match r with
  | .got _ => h
  | .fail errno => h.setErr t errno (.fail .recv errno)

/-- `Socket::_write`. -/
def write (h : Heap κ) (id : SockId) (buf : Ptr) (size : Int) (r : WriteResult) : Heap κ :=
  let t : TokenId := ⟨id, .write⟩
  let h := h.modify t fun k => { k with err := k.err.clear }
  let h := h.emit (.sysWrite id buf size r (h.mem.load buf r.count))
  match r with
  | .accepted _ => h
  | .fail errno => h.setErr t errno (.fail .send errno)

/-- `Socket::readSome`. -/
def readSome (h : Heap κ) (id : SockId) (buf : Ptr) (size : Int) (cb : κ) (timeoutMsec : Int)
    (r : ReadResult) (now : Timeval) : Heap κ × Bool :=
  let t : TokenId := ⟨id, .read⟩
  if (h.tok t).mode ≠ .none then (h.refuse t .readInProgress, false)
  else
    let h := h.init t buf size cb
    let ret := r.ret
    let h := h.read id buf size r
    if ret = 0 then (h.finish t 0 .done, true)
    else if ret < 0 then
      if (h.tok t).err.code = EAGAIN then (h.park t 0 .some timeoutMsec now, true)
      else (h.finish t 0 .err, true)
    else (h.finish t ret .done, true)

/-- `Socket::readAll`. -/
def readAll (h : Heap κ) (id : SockId) (buf : Ptr) (size : Int) (cb : κ) (timeoutMsec : Int)
    (r : ReadResult) (now : Timeval) : Heap κ × Bool :=
  let t : TokenId := ⟨id, .read⟩
  if (h.tok t).mode ≠ .none then (h.refuse t .readInProgress, false)
  else
    let h := h.init t buf size cb
    let ret := r.ret
    let h := h.read id buf size r
    if ret = 0 then (h.finish t 0 .done, true)
    else if ret < 0 then
      if (h.tok t).err.code = EAGAIN then (h.park t 0 .all timeoutMsec now, true)
      else (h.finish t 0 .err, true)
    else if ret < size then (h.park t ret .all timeoutMsec now, true)
    else (h.finish t ret .done, true)

/-- `Socket::writeAll`. -/
def writeAll (h : Heap κ) (id : SockId) (buf : Ptr) (size : Int) (cb : κ) (timeoutMsec : Int)
    (r : WriteResult) (now : Timeval) : Heap κ × Bool :=
  let t : TokenId := ⟨id, .write⟩
  if (h.tok t).mode ≠ .none then (h.refuse t .writeInProgress, false)
  else
    let h := h.init t buf size cb
    let ret := r.ret
    let h := h.write id buf size r
    if ret ≤ 0 then
      if (h.tok t).err.code = EAGAIN then (h.park t 0 .all timeoutMsec now, true)
      else (h.finish t 0 .err, true)
    else if ret < size then (h.park t ret .all timeoutMsec now, true)
    else (h.finish t ret .done, true)

/-- `Socket::onRead`. -/
def onRead (h : Heap κ) (id : SockId) (r : ReadResult) : Heap κ :=
  let t : TokenId := ⟨id, .read⟩
  let k := h.tok t
  let ret := r.ret
  if k.mode = .some then
    let h := h.read id k.buf k.bufSize r
    if ret = 0 then h.finish t 0 .done
    else if ret < 0 then
      -- on EAGAIN nothing is done and the next event is awaited
      if (h.tok t).err.code = EAGAIN then h else h.finish t 0 .err
    else h.finish t ret .done
  else if k.mode = .all then
    let h := h.read id (k.buf.add k.ioSize) (k.bufSize - k.ioSize) r
    if ret = 0 then h.finish t 0 .done
    else if ret < 0 then
      if (h.tok t).err.code = EAGAIN then h else h.finish t 0 .err
    else
      let h := h.modify t fun k => k.add ret
      if (h.tok t).ioSize < (h.tok t).bufSize then h else h.finish t (h.tok t).ioSize .done
  else h

/-- `Socket::onWrite`. -/
def onWrite (h : Heap κ) (id : SockId) (r : WriteResult) : Heap κ :=
  let t : TokenId := ⟨id, .write⟩
  let k := h.tok t
  let ret := r.ret
  if k.mode = .all then
    let h := h.write id (k.buf.add k.ioSize) (k.bufSize - k.ioSize) r
    if ret ≤ 0 then
      if (h.tok t).err.code = EAGAIN then h else h.finish t 0 .err
    else
      let h := h.modify t fun k => k.add ret
      if (h.tok t).ioSize < (h.tok t).bufSize then h else h.finish t (h.tok t).ioSize .done
  else h

/-! ### Leaving the queue and the timer list -/

/-- A round of `_processCompletion` up to the call of the callback. -/
def complete (h : Heap κ) (cur : TokenId) : Heap κ :=
  ((h.removeToken cur).popTimer cur).modify cur fun k => { k with mode := .none }

/-- A round of `_processTimer` up to the call of the callback; `timers` follows `cur` in the set. -/
def expire (h : Heap κ) (cur : TokenId) (timers : List TokenId) : Heap κ :=
  ({ h with timerList := timers }.modify cur fun k => { k with mode := .none }).setErr cur
    ETIMEDOUT .timeout

/-! ### Objects -/

/-- The tokens and the descriptor of a new Socket; the deadlines are what the memory held. -/
def create (h : Heap κ) (id : SockId) (soc : Int) (rtv wtv : Timeval) : Heap κ :=
  { h with sockets := Function.update h.sockets id ⟨true, soc, .new rtv, .new wtv⟩ }.emit
    (.created id)

/-- `Socket::~Socket` after the descriptor is closed; `prev != NULL` says that a token is queued. -/
def unlink (h : Heap κ) (id : SockId) : Heap κ :=
  let h := if ⟨id, .read⟩ ∈ h.queue then h.removeToken ⟨id, .read⟩ else h
  let h := if ⟨id, .write⟩ ∈ h.queue then h.removeToken ⟨id, .write⟩ else h
  (h.popTimer ⟨id, .read⟩).popTimer ⟨id, .write⟩

/-- The memory of the object is given back. -/
def release (h : Heap κ) (id : SockId) : Heap κ :=
  { h with sockets := Function.update h.sockets id .gone }.emit (.destroyed id)

/-- The user copies `n` bytes between buffers. -/
def memcpy (h : Heap κ) (dst src : Ptr) (n : Nat) : Heap κ :=
  { h with mem := h.mem.store dst (h.mem.load src n) }.emit (.copied dst src n)

end Heap

end EchoBenchmark.Proactor
