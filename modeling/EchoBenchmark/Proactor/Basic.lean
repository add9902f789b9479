import EchoBenchmark.Lib.KeyedSet
import Mathlib.Logic.Function.Basic

/-!
The data of the proactor: errors, deadlines, buffers, tokens, Sockets, and the record that the
Socket functions work on, with the history of what was called and returned.
-/

namespace EchoBenchmark.Proactor

def EAGAIN : Int := 11
def ECONNRESET : Int := 104
def ETIMEDOUT : Int := 110
def EBADF : Int := 9
def EEXIST : Int := 17
def ENOENT : Int := 2

def INVALID_SOCKET : Int := -1
def INVALID_HANDLE : Int := -1

/-- `USHRT_MAX`, the capacity of the event array. -/
def MAX_HANDLE : Nat := 65535

/-! ### Errors -/

/-- The calls named in messages of the form `"… fail [%d][%s]"`. -/
inductive Call
  | fcntl | recv | send | createSocket | setsockopt | bind | listen | accept
  | epollCreate | epollWait
  deriving DecidableEq

def Call.word : Call → String
  | .fcntl => "fcntl"
  | .recv => "recv"
  | .send => "send"
  | .createSocket => "create socket"
  | .setsockopt => "setsockopt"
  | .bind => "bind"
  | .listen => "listen"
  | .accept => "accept"
  | .epollCreate => "epoll_create"
  | .epollWait => "epoll_wait"

/-- The format and arguments of an `Error::set`. -/
inductive Detail
  | cleared
  | fail (call : Call) (errno : Int)
  | invalidFd
  | readInProgress
  | writeInProgress
  | closed
  | timeout
  | invalidSocket
  | epollCtlError (handle errno : Int)
  deriving DecidableEq

/-- `ERRBUFSIZE`. -/
def ERRBUFSIZE : Nat := 128

/-- The formatted text before `vsnprintf` cuts it. The source passes no argument for the `%d` of
`INVALID_SOCKET`; `missing` is what `vsnprintf` finds in its place. -/
def Detail.format (strerror : Int → String) (missing : Int) : Detail → String
  | .cleared => ""
  | .fail call errno => s!"{call.word} fail [{errno}][{strerror errno}]"
  | .invalidFd => "invalid fd"
  | .readInProgress => "read in progress"
  | .writeInProgress => "write in progress"
  | .closed => "closed"
  | .timeout => "timeout"
  | .invalidSocket => s!"INVALID_SOCKET [{missing}]"
  | .epollCtlError handle errno => s!"epoll_ctl error [{handle}][{errno}][{strerror errno}]"

/-- What `detail` holds: `vsnprintf` keeps one place for the terminator. -/
def Detail.text (strerror : Int → String) (missing : Int) (d : Detail) : List Char :=
  (d.format strerror missing).toList.take (ERRBUFSIZE - 1)

theorem Detail.text_fits (strerror : Int → String) (missing : Int) (d : Detail) :
    (d.text strerror missing).length < ERRBUFSIZE := by
  have h := List.length_take_le (ERRBUFSIZE - 1) (d.format strerror missing).toList
  have hpos : 0 < ERRBUFSIZE := by decide
  unfold Detail.text
  omega

structure Error where
  code : Int
  detail : Detail
  deriving DecidableEq

def Error.set (_ : Error) (code : Int) (detail : Detail) : Error := ⟨code, detail⟩

def Error.clear (_ : Error) : Error := ⟨0, .cleared⟩

/-- `Error::Error()`. -/
def Error.new : Error := ⟨0, .cleared⟩

/-! ### Deadlines -/

/-- `struct timeval`. -/
structure Timeval where
  sec : Int
  usec : Int
  deriving DecidableEq

/-- `timercmp(a, b, <)`. -/
def timercmp (a b : Timeval) : Bool :=
  if a.sec = b.sec then a.usec < b.usec else a.sec < b.sec

theorem timercmp_iff {a b : Timeval} :
    timercmp a b = true ↔ a.sec < b.sec ∨ a.sec = b.sec ∧ a.usec < b.usec := by
  unfold timercmp
  split
  · rename_i h
    simp [h]
  · rename_i h
    simp [h]

/-- The order of `Token::LessTimer` on the deadlines behind the pointers. -/
instance : LinearOrder Timeval where
  le a b := timercmp b a = false
  lt a b := timercmp a b = true
  le_refl a := by simp [timercmp]
  le_trans a b c hab hbc := by
    simp only [← Bool.not_eq_true, timercmp_iff] at *
    omega
  lt_iff_le_not_ge a b := by
    simp only [← Bool.not_eq_true, timercmp_iff]
    omega
  le_antisymm a b hab hba := by
    simp only [← Bool.not_eq_true, timercmp_iff] at *
    cases a
    cases b
    simp only [Timeval.mk.injEq] at *
    omega
  le_total a b := by
    simp only [← Bool.not_eq_true, timercmp_iff]
    omega
  toDecidableLE a b := inferInstanceAs (Decidable (timercmp b a = false))
  toDecidableEq := inferInstance
  toDecidableLT a b := inferInstanceAs (Decidable (timercmp a b = true))

theorem Timeval.lt_iff_timercmp {a b : Timeval} : a < b ↔ timercmp a b = true := Iff.rfl

/-- `timeradd`. -/
def timeradd (a b : Timeval) : Timeval :=
  if a.usec + b.usec ≥ 1000000 then ⟨a.sec + b.sec + 1, a.usec + b.usec - 1000000⟩
  else ⟨a.sec + b.sec, a.usec + b.usec⟩

/-- The time a `timeval` stands for, in microseconds. -/
def Timeval.micros (a : Timeval) : Int := a.sec * 1000000 + a.usec

/-- The `add` of `_pushTimer`; C division truncates. -/
def ofMsec (timeoutMsec : Int) : Timeval :=
  ⟨timeoutMsec.tdiv 1000, timeoutMsec.tmod 1000 * 1000⟩

theorem micros_timeradd (a b : Timeval) : (timeradd a b).micros = a.micros + b.micros := by
  unfold timeradd
  split <;> simp only [Timeval.micros] <;> omega

theorem micros_ofMsec (n : Int) : (ofMsec n).micros = n * 1000 := by
  have h := Int.mul_tdiv_add_tmod n 1000
  simp only [Timeval.micros, ofMsec]
  omega

/-! ### Buffers -/

/-- A `char*`: a block and an offset into it. -/
structure Ptr where
  base : Nat
  off : Int
  deriving DecidableEq

def Ptr.null : Ptr := ⟨0, 0⟩

/-- Pointer arithmetic, `buf + n`. -/
def Ptr.add (p : Ptr) (n : Int) : Ptr := ⟨p.base, p.off + n⟩

abbrev Mem := Nat → Int → UInt8

/-- The bytes at `p … p + n - 1`. -/
def Mem.load (m : Mem) (p : Ptr) (n : Nat) : List UInt8 :=
  (List.range n).map fun i : Nat => m p.base (p.off + i)

def Mem.store (m : Mem) (p : Ptr) (bytes : List UInt8) : Mem := fun b i =>
  if b = p.base ∧ p.off ≤ i ∧ i < p.off + bytes.length then bytes.getD (i - p.off).toNat 0
  else m b i

/-! ### Tokens and Sockets -/

abbrev SockId := Nat
abbrev AccId := Nat

/-- Which of the two tokens of a Socket: `_rt` or `_wt`. -/
inductive Dir
  | read | write
  deriving DecidableEq

/-- A `Token*`: the token of one direction of one Socket. -/
structure TokenId where
  sock : SockId
  dir : Dir
  deriving DecidableEq

/-- An `EventHandler*`. -/
inductive Handler
  | socket (id : SockId)
  | acceptor (id : AccId)
  deriving DecidableEq

/-- `Token::NONE`, `SOME`, `ALL`, `DONE`, `ERR`. -/
inductive Mode
  | none | some | all | done | err
  deriving DecidableEq

/-- The operation waits for an event. -/
def Mode.pending (m : Mode) : Prop := m = .some ∨ m = .all

/-- The operation has ended and its callback is due. -/
def Mode.finished (m : Mode) : Prop := m = .done ∨ m = .err

instance (m : Mode) : Decidable m.pending := inferInstanceAs (Decidable (_ ∨ _))
instance (m : Mode) : Decidable m.finished := inferInstanceAs (Decidable (_ ∨ _))

/-- A `boost::function` object: the user's function, and which call of the API passed it. -/
structure Callback (κ : Type) where
  call : Nat
  fn : κ

/-- `Token`. The links `prev` and `next` are the place of the token in the queue of the heap. -/
structure Token (κ : Type) where
  buf : Ptr
  bufSize : Int
  ioSize : Int
  cb : Option (Callback κ)
  mode : Mode
  err : Error
  tv : Timeval

variable {κ : Type}

/-- `Token::Token()`, which leaves `tv` as the memory had it. -/
def Token.new (tv : Timeval) : Token κ := ⟨Ptr.null, 0, 0, none, .none, Error.new, tv⟩

def Token.init (k : Token κ) (buf : Ptr) (bufSize : Int) (cb : Callback κ) : Token κ :=
  { k with buf := buf, bufSize := bufSize, ioSize := 0, cb := some cb, mode := .none }

def Token.set (k : Token κ) (ioSize : Int) (mode : Mode) : Token κ :=
  { k with ioSize := ioSize, mode := mode }

def Token.add (k : Token κ) (ioSize : Int) : Token κ := { k with ioSize := k.ioSize + ioSize }

/-- `Socket`; `live` tells whether the address holds an object. -/
structure Socket (κ : Type) where
  live : Bool
  soc : Int
  rt : Token κ
  wt : Token κ

/-- An address without an object. -/
def Socket.gone : Socket κ := ⟨false, INVALID_SOCKET, .new ⟨0, 0⟩, .new ⟨0, 0⟩⟩

def Socket.token (c : Socket κ) : Dir → Token κ
  | .read => c.rt
  | .write => c.wt

def Socket.setToken (c : Socket κ) : Dir → Token κ → Socket κ
  | .read, k => { c with rt := k }
  | .write, k => { c with wt := k }

/-! ### Calls to the kernel and the history -/

/-- A result of `::read`: the bytes stored, none at the end of the stream, or `-1` and errno. -/
inductive ReadResult
  | got (bytes : List UInt8)
  | fail (errno : Int)
  deriving DecidableEq

def ReadResult.ret : ReadResult → Int
  | .got bytes => bytes.length
  | .fail _ => -1

def ReadResult.bytes : ReadResult → List UInt8
  | .got bytes => bytes
  | .fail _ => []

/-- A result of `::write`: how many bytes were accepted, or `-1` and errno. -/
inductive WriteResult
  | accepted (n : Nat)
  | fail (errno : Int)
  deriving DecidableEq

def WriteResult.ret : WriteResult → Int
  | .accepted n => n
  | .fail _ => -1

def WriteResult.count : WriteResult → Nat
  | .accepted n => n
  | .fail _ => 0

/-- The event bits that `run` tests and `_register` sets. -/
structure Mask where
  pollin : Bool
  pollpri : Bool
  pollout : Bool
  pollerr : Bool
  pollhup : Bool
  deriving DecidableEq

/-- `ev.events & EPOLLERR` or `ev.events & EPOLLHUP`. -/
def Mask.hangup (m : Mask) : Bool := m.pollerr || m.pollhup

/-- `ev.events & EPOLLIN` or `ev.events & EPOLLPRI`. -/
def Mask.input (m : Mask) : Bool := m.pollin || m.pollpri

/-- An `epoll_event`, with the descriptor whose registration it comes from. -/
structure PollEvent where
  fd : Int
  handler : Handler
  events : Mask
  deriving DecidableEq

/-- The three methods that `run` dispatches to. -/
inductive Method
  | onRead | onWrite | onClose
  deriving DecidableEq

/-- Which function of the library invoked a callback. -/
inductive Via
  | completion | timer | hangup
  deriving DecidableEq

/-- What the network side of a Socket's descriptor does on its own. -/
inductive KernelEvent
  | arrived (id : SockId) (bytes : List UInt8)
  | eof (id : SockId)
  | space (id : SockId) (n : Nat)
  deriving DecidableEq

/-- One entry of the history. -/
inductive Event
  | created (id : SockId)
  | destroyed (id : SockId)
  | started (t : TokenId) (call : Nat)
  | refused (t : TokenId) (call : Nat)
  | called (t : TokenId) (call : Nat) (code bytes : Int) (via : Via)
  | sysRead (id : SockId) (buf : Ptr) (len : Int) (r : ReadResult)
  | sysWrite (id : SockId) (buf : Ptr) (len : Int) (r : WriteResult) (bytes : List UInt8)
  | copied (dst src : Ptr) (n : Nat)
  | armed (t : TokenId) (tv : Timeval)
  | registered (h : Handler) (fd : Int)
  | removed (h : Handler)
  | polled (evs : List PollEvent)
  | dispatched (h : Handler) (m : Method)
  | accepted (a : AccId) (code soc : Int)
  | opened (a : AccId) (call : Call) (fd : Int)
  | closedFd (fd : Int)
  | useAfterFree (h : Handler)
  | kernel (e : KernelEvent)
  deriving DecidableEq

/-- A `::read` or a `::write` for the operation of token `t`. -/
def Event.isIo (t : TokenId) : Event → Prop
  | .sysRead id .. => t = ⟨id, .read⟩
  | .sysWrite id .. => t = ⟨id, .write⟩
  | _ => False

/-- The call leaves an operation of mode `m` waiting: it would have blocked, or it took less than
it asked for and the operation wants all. -/
def Event.stalls (m : Mode) : Event → Prop
  | .sysRead _ _ len r => r = .fail EAGAIN ∨ m = .all ∧ 0 < r.ret ∧ r.ret < len
  | .sysWrite _ _ len r _ => r = .fail EAGAIN ∨ 0 < r.ret ∧ r.ret < len
  | _ => False

/-- What a call of `readSome`, `readAll` or `writeAll` asks of its token: the mode in which it
waits, and its first kernel call. -/
structure Request (κ : Type) where
  token : TokenId
  fn : κ
  timeoutMsec : Int
  clock : Timeval
  mode : Mode
  call : Mem → Event

/-- The Socket objects, the completion queue from `_head.next` on, the timer list from `begin()`
on, the memory of the buffers, and the history with the newest entry first. -/
structure Heap (κ : Type) where
  sockets : SockId → Socket κ
  queue : List TokenId
  timerList : List TokenId
  mem : Mem
  nextCall : Nat
  log : List Event

namespace Heap

variable {h : Heap κ} {t u : TokenId}

def live (h : Heap κ) (id : SockId) : Bool := (h.sockets id).live

def soc (h : Heap κ) (id : SockId) : Int := (h.sockets id).soc

def tok (h : Heap κ) (t : TokenId) : Token κ := (h.sockets t.sock).token t.dir

/-- The deadline a comparison in the timer list reads through the pointer. -/
def tv (h : Heap κ) (t : TokenId) : Timeval := (h.tok t).tv

def modify (h : Heap κ) (t : TokenId) (f : Token κ → Token κ) : Heap κ :=
  { h with
    sockets := Function.update h.sockets t.sock
      ((h.sockets t.sock).setToken t.dir (f (h.tok t))) }

def emit (h : Heap κ) (e : Event) : Heap κ := { h with log := e :: h.log }

theorem tok_of_sockets {h' : Heap κ} (he : h'.sockets = h.sockets) : h'.tok u = h.tok u := by
  simp [tok, he]

theorem live_of_sockets {h' : Heap κ} (he : h'.sockets = h.sockets) (id : SockId) :
    h'.live id = h.live id := by
  simp [live, he]

theorem soc_of_sockets {h' : Heap κ} (he : h'.sockets = h.sockets) (id : SockId) :
    h'.soc id = h.soc id := by
  simp [soc, he]

theorem tok_modify (f : Token κ → Token κ) :
    (h.modify t f).tok u = if u = t then f (h.tok t) else h.tok u := by
  obtain ⟨i, d⟩ := t
  obtain ⟨j, e⟩ := u
  by_cases hij : j = i
  · subst hij
    cases d <;> cases e <;> simp [tok, modify, Socket.token, Socket.setToken]
  · simp [tok, modify, hij]

@[simp] theorem tok_modify_self (f : Token κ → Token κ) :
    (h.modify t f).tok t = f (h.tok t) := by
  simp [tok_modify]

theorem tok_modify_of_ne (f : Token κ → Token κ) (hne : u ≠ t) :
    (h.modify t f).tok u = h.tok u := by
  simp [tok_modify, hne]

@[simp] theorem live_modify (f : Token κ → Token κ) (id : SockId) :
    (h.modify t f).live id = h.live id := by
  obtain ⟨i, d⟩ := t
  by_cases hij : id = i
  · subst hij
    cases d <;> simp [live, modify, Socket.setToken]
  · simp [live, modify, hij]

@[simp] theorem soc_modify (f : Token κ → Token κ) (id : SockId) :
    (h.modify t f).soc id = h.soc id := by
  obtain ⟨i, d⟩ := t
  by_cases hij : id = i
  · subst hij
    cases d <;> simp [soc, modify, Socket.setToken]
  · simp [soc, modify, hij]

@[simp] theorem queue_modify (f : Token κ → Token κ) : (h.modify t f).queue = h.queue := rfl

@[simp] theorem timerList_modify (f : Token κ → Token κ) :
    (h.modify t f).timerList = h.timerList := rfl

@[simp] theorem mem_modify (f : Token κ → Token κ) : (h.modify t f).mem = h.mem := rfl

@[simp] theorem nextCall_modify (f : Token κ → Token κ) :
    (h.modify t f).nextCall = h.nextCall := rfl

@[simp] theorem log_modify (f : Token κ → Token κ) : (h.modify t f).log = h.log := rfl

@[simp] theorem tok_emit (e : Event) : (h.emit e).tok t = h.tok t := rfl

@[simp] theorem live_emit (e : Event) (id : SockId) : (h.emit e).live id = h.live id := rfl

@[simp] theorem soc_emit (e : Event) (id : SockId) : (h.emit e).soc id = h.soc id := rfl

@[simp] theorem queue_emit (e : Event) : (h.emit e).queue = h.queue := rfl

@[simp] theorem timerList_emit (e : Event) : (h.emit e).timerList = h.timerList := rfl

@[simp] theorem mem_emit (e : Event) : (h.emit e).mem = h.mem := rfl

@[simp] theorem nextCall_emit (e : Event) : (h.emit e).nextCall = h.nextCall := rfl

@[simp] theorem log_emit (e : Event) : (h.emit e).log = e :: h.log := rfl

end Heap

end EchoBenchmark.Proactor
