import EchoBenchmark.Proactor.Twins

/-!
The kqueue backend beside the epoll one, for a Socket and the network side of its descriptor: which
of its methods the two event loops call, and what becomes of its operations.
-/

namespace EchoBenchmark.Proactor

variable {κ : Type}

/-! ### The tests of the two loops -/

def EVFILT_READ : BitVec 32 := BitVec.ofInt 32 (-1)
def EVFILT_WRITE : BitVec 32 := BitVec.ofInt 32 (-2)

def EV_ADD : BitVec 16 := 0x0001
def EV_DELETE : BitVec 16 := 0x0002
def EV_CLEAR : BitVec 16 := 0x0020
def EV_EOF : BitVec 16 := 0x8000

/-- `struct kevent`, of which `filter` is a `short`. -/
structure Kevent where
  ident : Int
  filter : BitVec 16
  flags : BitVec 16
  udata : Option Handler
  deriving DecidableEq

namespace Kqueue

/-- The change that `_register` hands to `kevent`. -/
def register (handle : Int) (h : Handler) (acceptor : Bool) : Kevent :=
  if acceptor then ⟨handle, EVFILT_READ.truncate 16, EV_ADD ||| EV_CLEAR, some h⟩
  else ⟨handle, (EVFILT_READ ||| EVFILT_READ).truncate 16, EV_ADD ||| EV_CLEAR, some h⟩

/-- The change that `_remove` hands to `kevent`. -/
def remove (handle : Int) : Kevent :=
  ⟨handle, (EVFILT_READ ||| EVFILT_WRITE).truncate 16, EV_DELETE, none⟩

/-- What `kevent` makes of a change: a filter is known by descriptor and kind. -/
def change (knotes : List Kevent) (ev : Kevent) : List Kevent :=
  let others := knotes.filter fun k => ¬ (k.ident = ev.ident ∧ k.filter = ev.filter)
  if ev.flags &&& EV_DELETE ≠ 0 then others else ev :: others

/-- What is removed is what was registered. -/
theorem not_mem_remove {knotes : List Kevent} {handle : Int} {h : Handler} {acceptor : Bool} :
    Kqueue.register handle h acceptor ∉ change knotes (remove handle) := by
  have hdelete : (remove handle).flags &&& EV_DELETE ≠ 0 := by
    change EV_DELETE &&& EV_DELETE ≠ 0
    decide
  have hread : (EVFILT_READ ||| EVFILT_WRITE).truncate 16 = (EVFILT_READ.truncate 16 : BitVec 16) ∧
      (EVFILT_READ ||| EVFILT_READ).truncate 16 = (EVFILT_READ.truncate 16 : BitVec 16) := by
    decide
  unfold change
  rw [if_pos hdelete]
  intro hmem
  obtain ⟨-, hne⟩ := List.mem_filter.mp hmem
  cases acceptor <;> simp [Kqueue.register, remove, hread.1] at hne

/-- The calls of the `for` loop of `run` to the handler of an event, by the flags of the event,
which are widened to `int`. A handler that is removed by its `onRead` gets no `onWrite`. -/
def calls (flags : BitVec 16) : List Method :=
  if flags.zeroExtend 32 &&& EV_EOF.zeroExtend 32 ≠ 0 then [.onClose]
  else
    (if flags.zeroExtend 32 &&& EVFILT_READ ≠ 0 then [.onRead] else []) ++
    (if flags.zeroExtend 32 &&& EVFILT_WRITE ≠ 0 then [.onWrite] else [])

end Kqueue

/-- The calls that `run` on epoll makes of an event. -/
def Mask.calls (m : Mask) : List Method :=
  if m.hangup then [.onClose]
  else (if m.input then [.onRead] else []) ++ (if m.pollout then [.onWrite] else [])

/-! ### The network side of a descriptor -/

/-- What the kernel holds for a connection. -/
structure Channel where
  unread : List UInt8
  eof : Bool
  space : Nat
  reset : Bool
  deriving DecidableEq

/-- A change of readiness. -/
inductive Condition
  | arrived (bytes : List UInt8) (some : bytes ≠ [])
  | space (n : Nat) (some : 0 < n)
  | halfClosed
  | reset
  deriving DecidableEq

namespace Channel

variable {k : Channel}

def after (k : Channel) : Condition → Channel
  | .arrived bytes _ => { k with unread := k.unread ++ bytes }
  | .space n _ => { k with space := k.space + n }
  | .halfClosed => { k with eof := true }
  | .reset => { k with reset := true }

def readable (k : Channel) : Bool := k.unread ≠ [] || k.eof || k.reset

def writable (k : Channel) : Bool := 0 < k.space || k.reset

/-- `::read` of `n` bytes. -/
def read (k : Channel) (n : Int) : ReadResult × Channel :=
  if k.reset then (.fail ECONNRESET, k)
  else if k.unread ≠ [] then
    (.got (k.unread.take n.toNat), { k with unread := k.unread.drop n.toNat })
  else if k.eof then (.got [], k)
  else (.fail EAGAIN, k)

/-- `::write` of `n` bytes. -/
def write (k : Channel) (n : Int) : WriteResult × Channel :=
  if k.reset then (.fail ECONNRESET, k)
  else if k.space = 0 then (.fail EAGAIN, k)
  else (.accepted (min n.toNat k.space), { k with space := k.space - min n.toNat k.space })

end Channel

/-! ### The reports of the two systems -/

/-- What `epoll_wait` reports of a condition: what was asked for and holds, edge-triggered, with
`EPOLLERR` and `EPOLLHUP` at a reset only. -/
def epollReport (asked : Mask) (k : Channel) : Condition → Option Mask
  | .arrived .. | .halfClosed =>
    if asked.pollin then some ⟨true, false, asked.pollout && k.writable, false, false⟩ else none
  | .space .. =>
    if asked.pollout then some ⟨asked.pollin && k.readable, false, true, false, false⟩ else none
  | .reset => some ⟨asked.pollin, false, asked.pollout, true, true⟩

/-- The filters that a condition concerns, and whether it is the end of the stream for them. -/
def Condition.filters : Condition → List (BitVec 16 × Bool)
  | .arrived .. => [(EVFILT_READ.truncate 16, false)]
  | .space .. => [(EVFILT_WRITE.truncate 16, false)]
  | .halfClosed => [(EVFILT_READ.truncate 16, true)]
  | .reset => [(EVFILT_READ.truncate 16, true), (EVFILT_WRITE.truncate 16, true)]

/-- What `kevent` reports of a condition: only registered filters, with the flags they were
registered with and `EV_EOF` at the end of the stream. -/
def kqueueReport (knotes : List Kevent) (handle : Int) (c : Condition) : List Kevent :=
  c.filters.flatMap fun (filter, eof) =>
    (knotes.filter fun k => k.ident = handle ∧ k.filter = filter).map fun k =>
      { k with flags := if eof then k.flags ||| EV_EOF else k.flags }

inductive Backend
  | epoll | kqueue
  deriving DecidableEq

/-- The calls to a Socket that was registered with `_register(handler, false)`. -/
def Backend.calls (b : Backend) (handle : Int) (id : SockId) (k : Channel) (c : Condition) :
    List Method :=
  match b with
  | .epoll => ((epollReport (State.interestMask false) k c).map Mask.calls).getD []
  | .kqueue =>
    (kqueueReport (Kqueue.change [] (Kqueue.register handle (.socket id) false)) handle c).flatMap
      fun ev => Kqueue.calls ev.flags

/-- The calls a condition has to lead to: only a reset is a close. -/
def Condition.Leads (c : Condition) (calls : List Method) : Prop :=
  match c with
  | .arrived .. | .halfClosed => .onRead ∈ calls ∧ .onClose ∉ calls
  | .space .. => .onWrite ∈ calls ∧ .onClose ∉ calls
  | .reset => .onClose ∈ calls

/-- Bytes arrived, or a reset. -/
def Condition.plain : Condition → Prop
  | .arrived .. | .reset => True
  | .space .. | .halfClosed => False

instance (c : Condition) : Decidable c.plain := by
  unfold Condition.plain
  split <;> infer_instance

section Calls

variable {handle : Int} {id : SockId} {k : Channel} {c : Condition}

theorem epoll_leads (handle : Int) (id : SockId) (k : Channel) (c : Condition) :
    c.Leads (Backend.epoll.calls handle id k c) := by
  cases c <;> cases hw : k.writable <;> cases hr : k.readable <;>
    simp [Condition.Leads, Backend.calls, epollReport, Mask.calls, Mask.hangup, Mask.input,
      State.interestMask, hw, hr]

/-- A Socket has a read filter only, and every event of it passes both tests, unless it says EOF. -/
theorem kqueue_calls : Backend.kqueue.calls handle id k c =
    match c with
    | .arrived .. => [.onRead, .onWrite]
    | .space .. => []
    | .halfClosed | .reset => [.onClose] := by
  have hplain : Kqueue.calls (EV_ADD ||| EV_CLEAR) = [.onRead, .onWrite] := by decide
  have heof : Kqueue.calls (EV_ADD ||| EV_CLEAR ||| EV_EOF) = [.onClose] := by decide
  have hadd : ¬ (EV_ADD ||| EV_CLEAR) &&& EV_DELETE ≠ 0 := by decide
  have hother : EVFILT_READ.setWidth 16 ≠ (EVFILT_WRITE.setWidth 16 : BitVec 16) := by decide
  have hknotes : Kqueue.change [] (Kqueue.register handle (.socket id) false) =
      [⟨handle, EVFILT_READ.setWidth 16, EV_ADD ||| EV_CLEAR, some (.socket id)⟩] := if_neg hadd
  unfold Backend.calls
  dsimp only
  rw [hknotes]
  cases c with
  | arrived => simp [kqueueReport, Condition.filters, hplain]
  | space => simp [kqueueReport, Condition.filters, hother]
  | halfClosed => simp [kqueueReport, Condition.filters, heof]
  | reset => simp [kqueueReport, Condition.filters, hother, heof]

theorem kqueue_leads_iff : c.Leads (Backend.kqueue.calls handle id k c) ↔ c.plain := by
  rw [kqueue_calls]
  cases c <;> simp [Condition.Leads, Condition.plain]

end Calls

/-! ### A Socket on one of the two backends -/

/-- The proactor, and the network side of the descriptor of one of its Sockets. -/
structure System (κ : Type) where
  core : State κ
  channel : Channel

/-- What the user does with the Socket, and a round of `_processCompletion`. -/
inductive Move (κ : Type)
  | readSome (buf : Ptr) (size : Int) (cb : κ) (timeoutMsec : Int) (now : Timeval)
  | readAll (buf : Ptr) (size : Int) (cb : κ) (timeoutMsec : Int) (now : Timeval)
  | writeAll (buf : Ptr) (size : Int) (cb : κ) (timeoutMsec : Int) (now : Timeval)
  | complete

/-- A move, or a condition with the moves between the first call to the Socket and the next. -/
inductive Item (κ : Type)
  | move (m : Move κ)
  | ready (c : Condition) (between : List (Move κ))

namespace System

variable (id : SockId)

/-- `handler->onRead()`, with the answer of the kernel if it makes a `::read`. -/
def onRead (y : System κ) : System κ :=
  let k := y.core.heap.tok ⟨id, .read⟩
  if k.mode.pending then
    let answer := y.channel.read (if k.mode = .all then k.bufSize - k.ioSize else k.bufSize)
    ⟨y.core.onHeap (·.onRead id answer.1), answer.2⟩
  else y

/-- `handler->onWrite()`. -/
def onWrite (y : System κ) : System κ :=
  let k := y.core.heap.tok ⟨id, .write⟩
  if k.mode = .all then
    let answer := y.channel.write (k.bufSize - k.ioSize)
    ⟨y.core.onHeap (·.onWrite id answer.1), answer.2⟩
  else y

/-- `handler->onClose()`, up to the return of the callback. -/
def onClose (y : System κ) : System κ :=
  { y with core := { y.core.onCloseSocket id with callback := none } }

def call (y : System κ) : Method → System κ
  | .onRead => y.onRead id
  | .onWrite => y.onWrite id
  | .onClose => y.onClose id

/-- A round of `_processCompletion`, up to the return of the callback. -/
def complete (y : System κ) : System κ :=
  match y.core.heap.queue with
  | [] => y
  | cur :: _ =>
    let s := y.core.onHeap (·.complete cur)
    let s := s.invoke cur (s.heap.tok cur).err (s.heap.tok cur).ioSize .completion
    { y with core := { s with callback := none } }

def move (y : System κ) : Move κ → System κ
  | .readSome buf size cb ms now =>
    let answer := y.channel.read size
    ⟨y.core.onHeap fun h => (h.readSome id buf size cb ms answer.1 now).1,
      if (y.core.heap.tok ⟨id, .read⟩).mode = .none then answer.2 else y.channel⟩
  | .readAll buf size cb ms now =>
    let answer := y.channel.read size
    ⟨y.core.onHeap fun h => (h.readAll id buf size cb ms answer.1 now).1,
      if (y.core.heap.tok ⟨id, .read⟩).mode = .none then answer.2 else y.channel⟩
  | .writeAll buf size cb ms now =>
    let answer := y.channel.write size
    ⟨y.core.onHeap fun h => (h.writeAll id buf size cb ms answer.1 now).1,
      if (y.core.heap.tok ⟨id, .write⟩).mode = .none then answer.2 else y.channel⟩
  | .complete => y.complete

variable (b : Backend) (handle : Int)

/-- A condition: the report of the system, and the calls of the loop. -/
def ready (y : System κ) (c : Condition) (between : List (Move κ)) : System κ :=
  let y := { y with channel := y.channel.after c }
  match b.calls handle id y.channel c with
  | [] => y
  | m :: ms => ms.foldl (call id) (between.foldl (move id) (y.call id m))

def item (y : System κ) : Item κ → System κ
  | .move m => y.move id m
  | .ready c between => y.ready id b handle c between

def run : System κ → List (Item κ) → System κ := List.foldl (item id b handle)

/-- The conditions of a run with the calls that they lead to. -/
def drives : System κ → List (Item κ) → List (Condition × List Method)
  | _, [] => []
  | y, .move m :: items => drives (y.move id m) items
  | y, .ready c between :: items =>
    (c, b.calls handle id (y.channel.after c) c) :: drives (y.ready id b handle c between) items

end System

/-- The conditions among the items. -/
def conditions : List (Item κ) → List Condition
  | [] => []
  | .move _ :: items => conditions items
  | .ready c _ :: items => c :: conditions items

/-- A `::write` of the Socket that would have blocked. -/
def blockedWrite (id : SockId) : Event → Bool
  | .sysWrite j _ _ (.fail errno) _ => j = id && errno = EAGAIN
  | _ => false

/-- The two runs have called the same callbacks with the same arguments, the same operations are in
progress, and the buffers and the network side are the same. -/
def System.Agree (id : SockId) (y y' : System κ) : Prop :=
  State.Twin (blockedWrite id) ⟨id, .write⟩ y.core y'.core ∧ y'.channel = y.channel

namespace System

variable {id : SockId} {y y' : System κ} {m : Move κ} {b : Backend} {handle : Int}

/-- The books are kept, and the Socket is there. -/
def Kept (id : SockId) (y : System κ) : Prop := y.core.heap.Books ∧ y.core.heap.live id = true

theorem Agree.onRead (ha : Agree id y y') : Agree id (y.onRead id) (y'.onRead id) := by
  obtain ⟨ht, hc⟩ := ha
  have hs := ht.heap.same ⟨id, .read⟩
  unfold System.onRead
  dsimp only
  rw [hs.mode, hs.bufSize, hs.ioSize, hc]
  split
  · exact ⟨State.twin_onHeap ht (by exact State.twin_onRead ht.heap), rfl⟩
  · exact ⟨ht, hc⟩

theorem Agree.onWrite (ha : Agree id y y') : Agree id (y.onWrite id) (y'.onWrite id) := by
  obtain ⟨ht, hc⟩ := ha
  have hs := ht.heap.same ⟨id, .write⟩
  unfold System.onWrite
  dsimp only
  rw [hs.mode, hs.bufSize, hs.ioSize, hc]
  split
  · exact ⟨State.twin_onHeap ht (by exact State.twin_onWrite ht.heap), rfl⟩
  · exact ⟨ht, hc⟩

theorem Agree.onClose (ha : Agree id y y') : Agree id (y.onClose id) (y'.onClose id) := by
  obtain ⟨ht, hc⟩ := ha
  refine ⟨?_, hc⟩
  have hclose : State.Twin (blockedWrite id) ⟨id, .write⟩ (y.core.onCloseSocket id)
      (y'.core.onCloseSocket id) :=
    (State.Alike.onCloseSocket ht).twin (s := y.core) Set.sdiff_subset
      fun _ => State.mode_onCloseSocket
  exact hclose.returns

theorem Agree.call (ha : Agree id y y') (m : Method) : Agree id (y.call id m) (y'.call id m) := by
  cases m with
  | onRead => exact ha.onRead
  | onWrite => exact ha.onWrite
  | onClose => exact ha.onClose

theorem Agree.complete (hk : Kept id y) (ha : Agree id y y') :
    Agree id y.complete y'.complete := by
  obtain ⟨ht, hc⟩ := ha
  unfold System.complete
  rw [ht.heap.queue]
  split
  · exact ⟨ht, hc⟩
  · rename_i cur rest hq
    exact ⟨(State.twin_complete hk.1 hq ht).returns, hc⟩

theorem Agree.move (hk : Kept id y) (ha : Agree id y y') :
    Agree id (y.move id m) (y'.move id m) := by
  cases m with
  | readSome buf size cb ms now =>
    unfold System.move
    dsimp only
    rw [ha.2]
    refine ⟨?_, by rw [ha.1.heap.mode]⟩
    exact State.twin_call ha.1 rfl Heap.readSome_opens (fun h hm => Heap.readSome_busy hm)
      fun hm => ha.1.heap.readSome_free hm
  | readAll buf size cb ms now =>
    unfold System.move
    dsimp only
    rw [ha.2]
    refine ⟨?_, by rw [ha.1.heap.mode]⟩
    exact State.twin_call ha.1 rfl Heap.readAll_opens (fun h hm => Heap.readAll_busy hm)
      fun hm => ha.1.heap.readAll_free hm
  | writeAll buf size cb ms now =>
    unfold System.move
    dsimp only
    rw [ha.2]
    refine ⟨?_, by rw [ha.1.heap.mode]⟩
    exact State.twin_call ha.1 rfl Heap.writeAll_opens (fun h hm => Heap.writeAll_busy hm)
      fun hm => ha.1.heap.writeAll_free hm
  | complete => exact ha.complete hk

/-! ### What the runs keep -/

theorem Kept.onRead (hk : Kept id y) : Kept id (y.onRead id) := by
  unfold System.onRead
  dsimp only
  split
  · have hp : ∀ r, y.core.heap.Progresses ⟨id, .read⟩ (y.core.heap.onRead id r) := fun _ =>
      Heap.onRead_progresses
    exact ⟨hk.1.progresses hk.2 (hp _), ((hp _).live id).trans hk.2⟩
  · exact hk

theorem Kept.onWrite (hk : Kept id y) : Kept id (y.onWrite id) := by
  unfold System.onWrite
  dsimp only
  split
  · have hp : ∀ w, y.core.heap.Progresses ⟨id, .write⟩ (y.core.heap.onWrite id w) := fun _ =>
      Heap.onWrite_progresses
    exact ⟨hk.1.progresses hk.2 (hp _), ((hp _).live id).trans hk.2⟩
  · exact hk

theorem Kept.call (hk : Kept id y) (m : Method) : Kept id (y.call id m) := by
  cases m with
  | onRead => exact hk.onRead
  | onWrite => exact hk.onWrite
  | onClose =>
    refine ⟨State.books_onCloseSocket hk.1, ?_⟩
    refine State.onCloseSocket_rule (P := fun s => s.heap.live id = true) ?_ fun u _ => ?_
    · rw [State.resetErrs, State.heap_onHeap, Heap.live_setErr, Heap.live_setErr, hk.2]
    · rw [State.live_invoke, State.resetErrs, State.heap_onHeap, Heap.live_setErr,
        Heap.live_setErr, hk.2]

theorem Kept.opens {q : Request κ} {h : Heap κ} {ok : Bool} {channel : Channel} (hk : Kept id y)
    (hq : q.token.sock = id) (ho : y.core.heap.Opens q (h, ok)) :
    Kept id ⟨y.core.onHeap fun _ => h, channel⟩ := by
  refine ⟨hk.1.opens ?_ ho, (ho.live id).trans hk.2⟩
  rw [hq, hk.2]

theorem Kept.move (hk : Kept id y) : Kept id (y.move id m) := by
  cases m with
  | readSome buf size cb ms now => exact hk.opens rfl Heap.readSome_opens
  | readAll buf size cb ms now => exact hk.opens rfl Heap.readAll_opens
  | writeAll buf size cb ms now => exact hk.opens rfl Heap.writeAll_opens
  | complete =>
    unfold System.move System.complete
    dsimp only
    split
    · exact hk
    · rename_i cur rest hq
      refine ⟨State.books_invoke (hk.1.complete (hq ▸ List.mem_cons_self)), ?_⟩
      rw [State.live_invoke, State.heap_onHeap, Heap.live_complete, hk.2]

/-- The send buffer is full, and no reset has come. -/
def Blocked (y : System κ) : Prop := y.channel.space = 0 ∧ y.channel.reset = false

theorem blocked_read {k : Channel} (hk : k.space = 0 ∧ k.reset = false) (n : Int) :
    (k.read n).2.space = 0 ∧ (k.read n).2.reset = false := by
  unfold Channel.read
  rw [if_neg (by simp [hk.2])]
  split
  · exact hk
  · split <;> exact hk

theorem write_of_blocked {k : Channel} (hk : k.space = 0 ∧ k.reset = false) (n : Int) :
    k.write n = (.fail EAGAIN, k) := by
  simp [Channel.write, hk.1, hk.2]

theorem Blocked.onRead (hb : Blocked y) : Blocked (y.onRead id) := by
  unfold System.onRead
  dsimp only
  split
  · exact blocked_read hb _
  · exact hb

theorem Blocked.move (hb : Blocked y) : Blocked (y.move id m) := by
  cases m with
  | readSome buf size cb ms now =>
    unfold System.move Blocked
    dsimp only
    split
    · exact blocked_read hb _
    · exact hb
  | readAll buf size cb ms now =>
    unfold System.move Blocked
    dsimp only
    split
    · exact blocked_read hb _
    · exact hb
  | writeAll buf size cb ms now =>
    unfold System.move Blocked
    dsimp only
    rw [write_of_blocked hb, ite_self]
    exact hb
  | complete =>
    unfold System.move System.complete
    dsimp only
    split <;> exact hb

/-- An `onWrite` that the kernel lets send nothing leaves everything as it is. -/
theorem Agree.blocked (ha : Agree id y y') (hb : Blocked y) : Agree id y (y'.onWrite id) := by
  obtain ⟨ht, hc⟩ := ha
  unfold System.onWrite
  dsimp only
  split
  · rename_i hm
    rw [hc, write_of_blocked hb]
    refine ⟨?_, rfl⟩
    obtain ⟨g, c, he, hh, hcb⟩ := ht
    rw [he] at hm ⊢
    have hwait : (⟨id, .write⟩ : TokenId) ∈ y.core.heap.waits ⟨id, .write⟩ := by
      refine ⟨rfl, .inr ?_⟩
      rw [← hh.mode]
      exact hm
    refine ⟨_, c, rfl, hh.onWrite_again_right hwait hm fun _ _ _ => ?_, hcb⟩
    simp [blockedWrite]
  · exact ⟨ht, hc⟩

/-! ### Conditions -/

theorem Kept.moves (hk : Kept id y) (ms : List (Move κ)) :
    Kept id (ms.foldl (System.move id) y) := by
  induction ms generalizing y with
  | nil => exact hk
  | cons m ms ih => exact ih hk.move

theorem Blocked.moves (hb : Blocked y) (ms : List (Move κ)) :
    Blocked (ms.foldl (System.move id) y) := by
  induction ms generalizing y with
  | nil => exact hb
  | cons m ms ih => exact ih hb.move

theorem Agree.moves (hk : Kept id y) (ha : Agree id y y') (ms : List (Move κ)) :
    Agree id (ms.foldl (System.move id) y) (ms.foldl (System.move id) y') := by
  induction ms generalizing y y' with
  | nil => exact ha
  | cons m ms ih => exact ih hk.move (ha.move hk)

theorem Kept.calls (hk : Kept id y) (ms : List Method) : Kept id (ms.foldl (System.call id) y) := by
  induction ms generalizing y with
  | nil => exact hk
  | cons m ms ih => exact ih (hk.call m)

theorem Kept.ready (hk : Kept id y) (c : Condition) (between : List (Move κ)) :
    Kept id (y.ready id b handle c between) := by
  unfold System.ready
  dsimp only
  split
  · exact hk
  · exact ((Kept.call (y := { y with channel := y.channel.after c }) hk _).moves between).calls _

theorem calls_arrived {k : Channel} {bytes : List UInt8} {some : bytes ≠ []} :
    Backend.epoll.calls handle id k (.arrived bytes some) =
      .onRead :: if k.writable then [.onWrite] else [] := by
  cases hw : k.writable <;>
    simp [Backend.calls, epollReport, State.interestMask, Mask.calls, Mask.hangup, Mask.input, hw]

theorem calls_reset {k : Channel} : Backend.epoll.calls handle id k .reset = [.onClose] := by
  simp [Backend.calls, epollReport, Mask.calls, Mask.hangup]

/-- What arrives, and a reset, both backends handle alike: the `onWrite` that only kqueue makes
finds the send buffer full. -/
theorem Agree.ready (hk : Kept id y) (ha : Agree id y y') {c : Condition} (hc : c.plain)
    (between : List (Move κ)) :
    Agree id (y.ready id .epoll handle c between) (y'.ready id .kqueue handle c between) := by
  have hafter : Agree id { y with channel := y.channel.after c }
      { y' with channel := y'.channel.after c } :=
    ⟨ha.1, by rw [ha.2]⟩
  have hk' : Kept id { y with channel := y.channel.after c } := hk
  unfold System.ready
  dsimp only
  rw [kqueue_calls]
  cases c with
  | space => exact hc.elim
  | halfClosed => exact hc.elim
  | reset =>
    rw [calls_reset]
    exact (hafter.call .onClose).moves (hk'.call .onClose) between
  | arrived bytes some =>
    rw [calls_arrived]
    have hread := (hafter.call .onRead).moves (hk'.call .onRead) between
    dsimp only
    split
    · exact hread.call .onWrite
    · rename_i hw
      refine hread.blocked (Blocked.moves (Blocked.onRead ?_) between)
      have hw' : ¬ (y.channel.after (.arrived bytes some)).writable = true := hw
      simp only [Channel.writable, Bool.or_eq_true, decide_eq_true_eq, not_or, Nat.pos_iff_ne_zero,
        not_not, Bool.not_eq_true] at hw'
      exact hw'

theorem Agree.run (hk : Kept id y) (ha : Agree id y y') (items : List (Item κ))
    (hc : ∀ c ∈ conditions items, c.plain) :
    Agree id (run id .epoll handle y items) (run id .kqueue handle y' items) := by
  induction items generalizing y y' with
  | nil => exact ha
  | cons i items ih =>
    cases i with
    | move m => exact ih hk.move (ha.move hk) hc
    | ready c between =>
      exact ih (hk.ready c between) (ha.ready hk (hc c List.mem_cons_self) between)
        fun c' hc' => hc c' (List.mem_cons_of_mem _ hc')

theorem drives_leads_iff {y : System κ} {items : List (Item κ)} :
    (∀ p ∈ drives id .kqueue handle y items, p.1.Leads p.2) ↔
      ∀ c ∈ conditions items, c.plain := by
  induction items generalizing y with
  | nil => simp [drives, conditions]
  | cons i items ih =>
    cases i with
    | move m => exact ih
    | ready c between =>
      simp only [drives, conditions, List.forall_mem_cons, ih, kqueue_leads_iff]

theorem epoll_drives_leads {y : System κ} {items : List (Item κ)} :
    ∀ p ∈ drives id .epoll handle y items, p.1.Leads p.2 := by
  induction items generalizing y with
  | nil => simp [drives]
  | cons i items ih =>
    cases i with
    | move m => exact ih
    | ready c between =>
      intro p hp
      rcases List.mem_cons.mp hp with rfl | hp
      · exact epoll_leads handle id _ c
      · exact ih p hp

end System

/-- On epoll every condition leads to the calls it has to. On kqueue this is so, with the same
operations ending in the same results, exactly when no send space was regained and no peer closed
its half. -/
theorem kqueue_agrees_iff {s : State κ} {id : SockId} {handle : Int} {k : Channel}
    {items : List (Item κ)} (hr : (proactor κ).Reachable Machine.free s)
    (hl : s.heap.live id = true) :
    (∀ p ∈ System.drives id .epoll handle ⟨s, k⟩ items, p.1.Leads p.2) ∧
    ((∀ p ∈ System.drives id .kqueue handle ⟨s, k⟩ items, p.1.Leads p.2) ∧
        System.Agree id (System.run id .epoll handle ⟨s, k⟩ items)
          (System.run id .kqueue handle ⟨s, k⟩ items) ↔
      ∀ c ∈ conditions items, c.plain) := by
  refine ⟨System.epoll_drives_leads, fun h => System.drives_leads_iff.mp h.1, fun h => ?_⟩
  refine ⟨System.drives_leads_iff.mpr h, ?_⟩
  have hself : State.Twin (blockedWrite id) ⟨id, .write⟩ s s := .refl
  exact System.Agree.run ⟨(consistent_of_reachable hr).books, hl⟩ ⟨hself, rfl⟩ items h

/-- A Socket on descriptor 5. -/
def oneSocket : List (Action Unit) := [.epollCreate 3 0, .create 0 5 ⟨0, 0⟩ ⟨0, 0⟩ 0]

/-- A connection with a full send buffer, on which nothing has arrived. -/
def fullChannel : Channel := ⟨[], false, 0, false⟩

/-- A write that has to wait; then there is space again. -/
def writeThenSpace : List (Item Unit) :=
  [.move (.writeAll ⟨0, 0⟩ 3 () 0 ⟨10, 0⟩), .ready (.space 8 (by decide)) [], .move .complete]

/-- A read that has to wait; then the peer closes its half. -/
def readThenClose : List (Item Unit) :=
  [.move (.readSome ⟨0, 0⟩ 8 () 0 ⟨10, 0⟩), .ready .halfClosed [.complete]]

/-- The write is completed on epoll and goes on waiting on kqueue; the read gets its end of the
stream on epoll and an error on kqueue. -/
theorem kqueue_differs : ∃ s : State Unit, (proactor Unit).Reachable Machine.free s ∧
    (System.run 0 .epoll 5 ⟨s, fullChannel⟩ writeThenSpace).core.heap.log.head? =
      some (.called ⟨0, .write⟩ 0 0 3 .completion) ∧
    ((System.run 0 .kqueue 5 ⟨s, fullChannel⟩ writeThenSpace).core.heap.tok ⟨0, .write⟩).mode =
      .all ∧
    (System.run 0 .epoll 5 ⟨s, fullChannel⟩ readThenClose).core.heap.log.head? =
      some (.called ⟨0, .read⟩ 0 0 0 .completion) ∧
    (System.run 0 .kqueue 5 ⟨s, fullChannel⟩ readThenClose).core.heap.log.head? =
      some (.called ⟨0, .read⟩ 0 ECONNRESET 0 .hangup) := by
  obtain ⟨s, hr, hf⟩ := Machine.exists_of_exec (M := proactor Unit) (p := Machine.free)
    (s := State.initial fun _ _ => 0) (l := oneSocket) (b := true)
    (f := fun s : State Unit => decide (
      (System.run 0 .epoll 5 ⟨s, fullChannel⟩ writeThenSpace).core.heap.log.head? =
        some (.called ⟨0, .write⟩ 0 0 3 .completion) ∧
      ((System.run 0 .kqueue 5 ⟨s, fullChannel⟩ writeThenSpace).core.heap.tok
        ⟨0, .write⟩).mode = .all ∧
      (System.run 0 .epoll 5 ⟨s, fullChannel⟩ readThenClose).core.heap.log.head? =
        some (.called ⟨0, .read⟩ 0 0 0 .completion) ∧
      (System.run 0 .kqueue 5 ⟨s, fullChannel⟩ readThenClose).core.heap.log.head? =
        some (.called ⟨0, .read⟩ 0 ECONNRESET 0 .hangup))) ⟨_, rfl⟩ (by decide)
  exact ⟨s, hr, of_decide_eq_true hf⟩

/-- Two bytes arrive for a waiting read, and a reset follows. -/
def readThenReset : List (Item Unit) :=
  [.move (.readSome ⟨0, 0⟩ 8 () 0 ⟨10, 0⟩), .ready (.arrived [65, 66] (by decide)) [.complete],
    .ready .reset []]

theorem kqueue_agrees_iff_reset : ∃ s : State Unit,
    (∀ p ∈ System.drives 0 .kqueue 5 ⟨s, fullChannel⟩ readThenReset, p.1.Leads p.2) ∧
    System.Agree 0 (System.run 0 .epoll 5 ⟨s, fullChannel⟩ readThenReset)
      (System.run 0 .kqueue 5 ⟨s, fullChannel⟩ readThenReset) := by
  obtain ⟨s, hr, hl⟩ := Machine.exists_of_exec (M := proactor Unit) (p := Machine.free)
    (s := State.initial fun _ _ => 0) (l := oneSocket) (b := true)
    (f := fun s : State Unit => s.heap.live 0) ⟨_, rfl⟩ rfl
  exact ⟨s, (kqueue_agrees_iff hr hl).2.mpr (by decide)⟩

end EchoBenchmark.Proactor
