import EchoBenchmark.Proactor.Operations
import Mathlib.Data.List.Basic

/-!
What the Socket functions do, one equation for each way a kernel call can end, and the two views
that the invariants use: a call of the API opens an operation, an event progresses one.
-/

namespace EchoBenchmark.Proactor

variable {κ : Type}

/-- The error a token holds after `_read`. -/
def ReadResult.error : ReadResult → Error
  | .got _ => ⟨0, .cleared⟩
  | .fail errno => ⟨errno, .fail .recv errno⟩

theorem ReadResult.ret_pos {bytes : List UInt8} (hb : bytes ≠ []) :
    0 < (ReadResult.got bytes).ret :=
  Int.natCast_pos.mpr (List.length_pos_iff.mpr hb)

/-- The error a token holds after `_write`. -/
def WriteResult.error : WriteResult → Error
  | .accepted _ => ⟨0, .cleared⟩
  | .fail errno => ⟨errno, .fail .send errno⟩

namespace Heap

variable {h h' : Heap κ} {t u : TokenId} {id : SockId} {buf : Ptr} {size n ms : Int}
  {cb : κ} {now : Timeval} {m : Mode} {r : ReadResult} {w : WriteResult} {bytes : List UInt8}
  {errno : Int} {d : Detail}

/-! ### Primitive updates -/

section Primitives

@[simp] theorem tok_enqueue : (h.enqueue t).tok u = h.tok u := rfl
@[simp] theorem queue_enqueue : (h.enqueue t).queue = h.queue ++ [t] := rfl
@[simp] theorem timerList_enqueue : (h.enqueue t).timerList = h.timerList := rfl
@[simp] theorem live_enqueue : (h.enqueue t).live id = h.live id := rfl
@[simp] theorem soc_enqueue : (h.enqueue t).soc id = h.soc id := rfl
@[simp] theorem log_enqueue : (h.enqueue t).log = h.log := rfl
@[simp] theorem mem_enqueue : (h.enqueue t).mem = h.mem := rfl
@[simp] theorem nextCall_enqueue : (h.enqueue t).nextCall = h.nextCall := rfl

@[simp] theorem tok_removeToken : (h.removeToken t).tok u = h.tok u := rfl
@[simp] theorem queue_removeToken : (h.removeToken t).queue = h.queue.erase t := rfl
@[simp] theorem timerList_removeToken : (h.removeToken t).timerList = h.timerList := rfl
@[simp] theorem live_removeToken : (h.removeToken t).live id = h.live id := rfl
@[simp] theorem soc_removeToken : (h.removeToken t).soc id = h.soc id := rfl
@[simp] theorem log_removeToken : (h.removeToken t).log = h.log := rfl
@[simp] theorem mem_removeToken : (h.removeToken t).mem = h.mem := rfl
@[simp] theorem nextCall_removeToken : (h.removeToken t).nextCall = h.nextCall := rfl

@[simp] theorem tok_popTimer : (h.popTimer t).tok u = h.tok u := rfl
@[simp] theorem queue_popTimer : (h.popTimer t).queue = h.queue := rfl
@[simp] theorem timerList_popTimer :
    (h.popTimer t).timerList = KeyedSet.erase h.tv t h.timerList := rfl
@[simp] theorem live_popTimer : (h.popTimer t).live id = h.live id := rfl
@[simp] theorem soc_popTimer : (h.popTimer t).soc id = h.soc id := rfl
@[simp] theorem log_popTimer : (h.popTimer t).log = h.log := rfl
@[simp] theorem mem_popTimer : (h.popTimer t).mem = h.mem := rfl
@[simp] theorem nextCall_popTimer : (h.popTimer t).nextCall = h.nextCall := rfl

theorem tok_setErr (code : Int) : (h.setErr t code d).tok u =
    if u = t then { h.tok t with err := ⟨code, d⟩ } else h.tok u := by
  simp [setErr, tok_modify, Error.set]

@[simp] theorem queue_setErr (code : Int) : (h.setErr t code d).queue = h.queue := rfl
@[simp] theorem timerList_setErr (code : Int) :
    (h.setErr t code d).timerList = h.timerList := rfl
@[simp] theorem live_setErr (code : Int) : (h.setErr t code d).live id = h.live id := by
  simp [setErr]
@[simp] theorem soc_setErr (code : Int) : (h.setErr t code d).soc id = h.soc id := by
  simp [setErr]
@[simp] theorem log_setErr (code : Int) : (h.setErr t code d).log = h.log := rfl
@[simp] theorem mem_setErr (code : Int) : (h.setErr t code d).mem = h.mem := rfl
@[simp] theorem nextCall_setErr (code : Int) : (h.setErr t code d).nextCall = h.nextCall := rfl

theorem tok_init : (h.init t buf size cb).tok u =
    if u = t then (h.tok t).init buf size ⟨h.nextCall, cb⟩ else h.tok u := by
  refine (tok_of_sockets (h := h.modify t fun k => k.init buf size ⟨h.nextCall, cb⟩)
    (by rfl)).trans ?_
  exact tok_modify _

@[simp] theorem queue_init : (h.init t buf size cb).queue = h.queue := rfl
@[simp] theorem timerList_init : (h.init t buf size cb).timerList = h.timerList := rfl
@[simp] theorem live_init : (h.init t buf size cb).live id = h.live id :=
  (live_of_sockets (h := h.modify t fun k => k.init buf size ⟨h.nextCall, cb⟩) (by rfl) id).trans
    (live_modify _ id)
@[simp] theorem soc_init : (h.init t buf size cb).soc id = h.soc id :=
  (soc_of_sockets (h := h.modify t fun k => k.init buf size ⟨h.nextCall, cb⟩) (by rfl) id).trans
    (soc_modify _ id)
@[simp] theorem log_init : (h.init t buf size cb).log = .started t h.nextCall :: h.log := rfl
@[simp] theorem mem_init : (h.init t buf size cb).mem = h.mem := rfl
@[simp] theorem nextCall_init : (h.init t buf size cb).nextCall = h.nextCall + 1 := rfl

theorem tok_refuse : (h.refuse t d).tok u =
    if u = t then { h.tok t with err := ⟨-1, d⟩ } else h.tok u :=
  tok_setErr (-1)

@[simp] theorem queue_refuse : (h.refuse t d).queue = h.queue := rfl
@[simp] theorem timerList_refuse : (h.refuse t d).timerList = h.timerList := rfl
@[simp] theorem live_refuse : (h.refuse t d).live id = h.live id := live_setErr (-1)
@[simp] theorem soc_refuse : (h.refuse t d).soc id = h.soc id := soc_setErr (-1)
@[simp] theorem log_refuse : (h.refuse t d).log = .refused t h.nextCall :: h.log := rfl
@[simp] theorem mem_refuse : (h.refuse t d).mem = h.mem := rfl
@[simp] theorem nextCall_refuse : (h.refuse t d).nextCall = h.nextCall + 1 := rfl

theorem tok_finish : (h.finish t n m).tok u =
    if u = t then { h.tok t with ioSize := n, mode := m } else h.tok u := by
  simp [finish, tok_modify, Token.set]

@[simp] theorem queue_finish : (h.finish t n m).queue = h.queue ++ [t] := rfl
@[simp] theorem timerList_finish : (h.finish t n m).timerList = h.timerList := rfl
@[simp] theorem live_finish : (h.finish t n m).live id = h.live id := by simp [finish]
@[simp] theorem soc_finish : (h.finish t n m).soc id = h.soc id := by simp [finish]
@[simp] theorem log_finish : (h.finish t n m).log = h.log := rfl
@[simp] theorem mem_finish : (h.finish t n m).mem = h.mem := rfl
@[simp] theorem nextCall_finish : (h.finish t n m).nextCall = h.nextCall := rfl

theorem tok_complete : (h.complete t).tok u =
    if u = t then { h.tok t with mode := .none } else h.tok u := by
  simp [complete, tok_modify]

theorem tok_expire (timers : List TokenId) : (h.expire t timers).tok u =
    if u = t then { h.tok t with mode := .none, err := ⟨ETIMEDOUT, .timeout⟩ } else h.tok u := by
  have hsame : ({ h with timerList := timers } : Heap κ).tok = h.tok := rfl
  rw [expire, tok_setErr, tok_modify_self, hsame]
  split
  · rfl
  · rename_i hu
    rw [tok_modify_of_ne _ hu, hsame]

theorem tok_create (soc : Int) (rtv wtv : Timeval) : (h.create id soc rtv wtv).tok u =
    if u.sock = id then .new (if u.dir = .read then rtv else wtv) else h.tok u := by
  obtain ⟨i, d⟩ := u
  by_cases hi : i = id
  · subst hi
    cases d <;> simp [create, tok, emit, Socket.token]
  · simp [create, tok, emit, hi]

@[simp] theorem live_complete : (h.complete t).live id = h.live id := by
  rw [complete, live_modify]
  rfl

@[simp] theorem soc_complete : (h.complete t).soc id = h.soc id := by
  rw [complete, soc_modify]
  rfl

@[simp] theorem live_expire (timers : List TokenId) :
    (h.expire t timers).live id = h.live id := by
  rw [expire, live_setErr, live_modify]
  rfl

@[simp] theorem soc_expire (timers : List TokenId) : (h.expire t timers).soc id = h.soc id := by
  rw [expire, soc_setErr, soc_modify]
  rfl

theorem live_create {j : SockId} (hj : j ≠ id) (soc : Int) (rtv wtv : Timeval) :
    (h.create id soc rtv wtv).live j = h.live j := by
  simp [create, live, emit, hj]

theorem soc_create {j : SockId} (hj : j ≠ id) (soc : Int) (rtv wtv : Timeval) :
    (h.create id soc rtv wtv).soc j = h.soc j := by
  simp [create, Heap.soc, emit, hj]

end Primitives

/-! ### Destruction -/

/-- The test of `prev` makes no difference to the queue. -/
theorem queue_unlink :
    (h.unlink id).queue = (h.queue.erase ⟨id, .read⟩).erase ⟨id, .write⟩ := by
  unfold unlink
  dsimp only
  split
  · split
    · rfl
    · rename_i hw
      exact (List.erase_of_not_mem hw).symm
  · rename_i hr
    rw [List.erase_of_not_mem hr]
    split
    · rfl
    · rename_i hw
      exact (List.erase_of_not_mem hw).symm

@[simp] theorem log_unlink : (h.unlink id).log = h.log := by
  unfold unlink
  dsimp only
  split <;> split <;> rfl

@[simp] theorem tok_unlink : (h.unlink id).tok u = h.tok u := by
  unfold unlink
  dsimp only
  split <;> split <;> rfl

@[simp] theorem live_unlink (j : SockId) : (h.unlink id).live j = h.live j := by
  unfold unlink
  dsimp only
  split <;> split <;> rfl

@[simp] theorem soc_unlink (j : SockId) : (h.unlink id).soc j = h.soc j := by
  unfold unlink
  dsimp only
  split <;> split <;> rfl

@[simp] theorem nextCall_unlink : (h.unlink id).nextCall = h.nextCall := by
  unfold unlink
  dsimp only
  split <;> split <;> rfl

/-- The two `_popTimer` of the destructor. -/
theorem timerList_unlink : (h.unlink id).timerList =
    KeyedSet.erase h.tv ⟨id, .write⟩ (KeyedSet.erase h.tv ⟨id, .read⟩ h.timerList) := by
  unfold unlink
  dsimp only
  split <;> split <;> rfl

theorem tok_release : (h.release id).tok u =
    if u.sock = id then .new ⟨0, 0⟩ else h.tok u := by
  obtain ⟨i, d⟩ := u
  by_cases hi : i = id
  · subst hi
    cases d <;> simp [release, Heap.tok, Heap.emit, Socket.token, Socket.gone]
  · simp [release, Heap.tok, Heap.emit, hi]

theorem live_release (j : SockId) :
    (h.release id).live j = if j = id then false else h.live j := by
  by_cases hi : j = id
  · subst hi
    simp [release, Heap.live, Heap.emit, Socket.gone]
  · simp [release, Heap.live, Heap.emit, hi]

theorem soc_release {j : SockId} (hj : j ≠ id) : (h.release id).soc j = h.soc j := by
  simp [release, Heap.soc, Heap.emit, hj]

/-! ### Arming a timer -/

@[simp] theorem tok_insertTimer : (h.insertTimer t).tok u = h.tok u := by
  unfold insertTimer
  dsimp only
  split <;> rfl

@[simp] theorem queue_insertTimer : (h.insertTimer t).queue = h.queue := by
  unfold insertTimer
  dsimp only
  split <;> rfl

@[simp] theorem timerList_insertTimer :
    (h.insertTimer t).timerList = (KeyedSet.insert h.tv t h.timerList).1 := by
  unfold insertTimer
  dsimp only
  split <;> rfl

@[simp] theorem live_insertTimer : (h.insertTimer t).live id = h.live id := by
  unfold insertTimer
  dsimp only
  split <;> rfl

@[simp] theorem soc_insertTimer : (h.insertTimer t).soc id = h.soc id := by
  unfold insertTimer
  dsimp only
  split <;> rfl

@[simp] theorem mem_insertTimer : (h.insertTimer t).mem = h.mem := by
  unfold insertTimer
  dsimp only
  split <;> rfl

@[simp] theorem nextCall_insertTimer : (h.insertTimer t).nextCall = h.nextCall := by
  unfold insertTimer
  dsimp only
  split <;> rfl

/-- The history records the arming exactly when the set took the token. -/
theorem log_insertTimer : (h.insertTimer t).log =
    if (KeyedSet.insert h.tv t h.timerList).2 = true then .armed t (h.tv t) :: h.log
    else h.log := by
  unfold insertTimer
  dsimp only
  split <;> rfl

/-- The deadline `_pushTimer` writes into a token; without a timeout the old one stays. -/
def deadline (h : Heap κ) (t : TokenId) (ms : Int) (now : Timeval) : Timeval :=
  if ms = 0 then h.tv t else timeradd now (ofMsec ms)

theorem pushTimer_zero : h.pushTimer t 0 now = h := by simp [pushTimer]

theorem pushTimer_of_ne (hms : ms ≠ 0) : h.pushTimer t ms now =
    (h.modify t fun k => { k with tv := timeradd now (ofMsec ms) }).insertTimer t := by
  simp [pushTimer, hms]

/-- The token keeps everything but its deadline, whether or not the set takes it. -/
theorem tok_pushTimer : (h.pushTimer t ms now).tok u =
    if u = t then { h.tok t with tv := h.deadline t ms now } else h.tok u := by
  by_cases hms : ms = 0
  · by_cases hu : u = t <;> simp [pushTimer, deadline, hms, hu, tv]
  · rw [pushTimer_of_ne hms, tok_insertTimer, tok_modify, deadline, if_neg hms]

@[simp] theorem queue_pushTimer : (h.pushTimer t ms now).queue = h.queue := by
  unfold pushTimer
  split <;> simp

@[simp] theorem live_pushTimer : (h.pushTimer t ms now).live id = h.live id := by
  unfold pushTimer
  split <;> simp

@[simp] theorem soc_pushTimer : (h.pushTimer t ms now).soc id = h.soc id := by
  unfold pushTimer
  split <;> simp

@[simp] theorem mem_pushTimer : (h.pushTimer t ms now).mem = h.mem := by
  unfold pushTimer
  split <;> simp

@[simp] theorem nextCall_pushTimer : (h.pushTimer t ms now).nextCall = h.nextCall := by
  unfold pushTimer
  split <;> simp

/-- The deadlines the comparator sees while the token is inserted are those after the call. -/
theorem tv_pushTimer (hms : ms ≠ 0) : (h.pushTimer t ms now).tv =
    (h.modify t fun k => { k with tv := timeradd now (ofMsec ms) }).tv := by
  funext u
  simp only [tv, pushTimer_of_ne hms, tok_insertTimer]

theorem timerList_pushTimer (hms : ms ≠ 0) : (h.pushTimer t ms now).timerList =
    (KeyedSet.insert (h.pushTimer t ms now).tv t h.timerList).1 := by
  rw [tv_pushTimer hms, pushTimer_of_ne hms, timerList_insertTimer, timerList_modify]

theorem log_pushTimer (hms : ms ≠ 0) : (h.pushTimer t ms now).log =
    if (KeyedSet.insert (h.pushTimer t ms now).tv t h.timerList).2 = true
    then .armed t (timeradd now (ofMsec ms)) :: h.log else h.log := by
  rw [tv_pushTimer hms, pushTimer_of_ne hms, log_insertTimer, timerList_modify, log_modify]
  simp only [tv, tok_modify_self]

theorem tok_park : (h.park t n m ms now).tok u =
    if u = t then { h.tok t with ioSize := n, mode := m, tv := h.deadline t ms now }
    else h.tok u := by
  by_cases hu : u = t
  · subst hu
    simp [park, tok_pushTimer, Token.set, deadline, tv]
  · simp [park, tok_pushTimer, tok_modify, hu]

@[simp] theorem queue_park : (h.park t n m ms now).queue = h.queue := by simp [park]
@[simp] theorem live_park : (h.park t n m ms now).live id = h.live id := by simp [park]
@[simp] theorem soc_park : (h.park t n m ms now).soc id = h.soc id := by simp [park]
@[simp] theorem mem_park : (h.park t n m ms now).mem = h.mem := by simp [park]
@[simp] theorem nextCall_park : (h.park t n m ms now).nextCall = h.nextCall := by simp [park]

theorem timerList_park_zero : (h.park t n m 0 now).timerList = h.timerList := by
  simp [park, pushTimer_zero]

theorem log_park_zero : (h.park t n m 0 now).log = h.log := by
  simp [park, pushTimer_zero]

theorem timerList_park (hms : ms ≠ 0) : (h.park t n m ms now).timerList =
    (KeyedSet.insert (h.park t n m ms now).tv t h.timerList).1 :=
  timerList_pushTimer hms

theorem log_park (hms : ms ≠ 0) : (h.park t n m ms now).log =
    if (KeyedSet.insert (h.park t n m ms now).tv t h.timerList).2 = true
    then .armed t (timeradd now (ofMsec ms)) :: h.log else h.log :=
  log_pushTimer hms

theorem log_park_cases (h : Heap κ) (t : TokenId) (n : Int) (m : Mode) (ms : Int)
    (now : Timeval) : (h.park t n m ms now).log = h.log ∨
    ∃ tv, (h.park t n m ms now).log = .armed t tv :: h.log := by
  by_cases hms : ms = 0
  · subst hms
    exact .inl log_park_zero
  · rw [log_park hms]
    split
    · exact .inr ⟨_, rfl⟩
    · exact .inl rfl

/-! ### Kernel calls -/

theorem tok_read : (h.read id buf size r).tok u =
    if u = ⟨id, .read⟩ then { h.tok ⟨id, .read⟩ with err := r.error } else h.tok u := by
  have hc := fun v => tok_modify (h := h) (t := ⟨id, .read⟩) (u := v)
    fun k => { k with err := k.err.clear }
  have hr : ∀ v, (h.read id buf size (.got r.bytes)).tok v =
      if v = ⟨id, .read⟩ then { h.tok ⟨id, .read⟩ with err := (h.tok ⟨id, .read⟩).err.clear }
      else h.tok v := by
    intro v
    rw [← hc v]
    exact tok_of_sockets (by rfl)
  cases r with
  | got bytes => exact hr u
  | fail errno =>
    refine (tok_setErr errno).trans ?_
    by_cases hu : u = ⟨id, .read⟩
    · rw [if_pos hu, if_pos hu]
      exact congrArg (fun k : Token κ => { k with err := ⟨errno, .fail .recv errno⟩ })
        ((tok_of_sockets (by rfl)).trans ((hr ⟨id, .read⟩).trans (if_pos rfl)))
    · rw [if_neg hu, if_neg hu]
      exact (tok_of_sockets (by rfl)).trans ((hr u).trans (if_neg hu))

@[simp] theorem queue_read : (h.read id buf size r).queue = h.queue := by cases r <;> rfl
@[simp] theorem timerList_read : (h.read id buf size r).timerList = h.timerList := by
  cases r <;> rfl
@[simp] theorem live_read (j : SockId) : (h.read id buf size r).live j = h.live j := by
  rw [← live_modify (h := h) (t := ⟨id, .read⟩) (fun k => { k with err := k.err.clear }) j]
  cases r
  · exact live_of_sockets (by rfl) j
  · exact (live_setErr _).trans (live_of_sockets (by rfl) j)
@[simp] theorem soc_read (j : SockId) : (h.read id buf size r).soc j = h.soc j := by
  rw [← soc_modify (h := h) (t := ⟨id, .read⟩) (fun k => { k with err := k.err.clear }) j]
  cases r
  · exact soc_of_sockets (by rfl) j
  · exact (soc_setErr _).trans (soc_of_sockets (by rfl) j)
@[simp] theorem log_read : (h.read id buf size r).log = .sysRead id buf size r :: h.log := by
  cases r <;> rfl
@[simp] theorem mem_read : (h.read id buf size r).mem = h.mem.store buf r.bytes := by
  cases r <;> rfl
@[simp] theorem nextCall_read : (h.read id buf size r).nextCall = h.nextCall := by cases r <;> rfl

theorem tok_write : (h.write id buf size w).tok u =
    if u = ⟨id, .write⟩ then { h.tok ⟨id, .write⟩ with err := w.error } else h.tok u := by
  have hc := fun v => tok_modify (h := h) (t := ⟨id, .write⟩) (u := v)
    fun k => { k with err := k.err.clear }
  cases w with
  | accepted count => exact (tok_of_sockets (by rfl)).trans (hc u)
  | fail errno =>
    refine (tok_setErr errno).trans ?_
    by_cases hu : u = ⟨id, .write⟩
    · rw [if_pos hu, if_pos hu, tok_emit, hc, if_pos rfl]
      rfl
    · rw [if_neg hu, if_neg hu, tok_emit, hc, if_neg hu]

@[simp] theorem queue_write : (h.write id buf size w).queue = h.queue := by cases w <;> rfl
@[simp] theorem timerList_write : (h.write id buf size w).timerList = h.timerList := by
  cases w <;> rfl
@[simp] theorem live_write (j : SockId) : (h.write id buf size w).live j = h.live j := by
  cases w <;> simp [write]
@[simp] theorem soc_write (j : SockId) : (h.write id buf size w).soc j = h.soc j := by
  cases w <;> simp [write]
@[simp] theorem log_write : (h.write id buf size w).log =
    .sysWrite id buf size w (h.mem.load buf w.count) :: h.log := by
  cases w <;> rfl
@[simp] theorem mem_write : (h.write id buf size w).mem = h.mem := by cases w <;> rfl
@[simp] theorem nextCall_write : (h.write id buf size w).nextCall = h.nextCall := by
  cases w <;> rfl

/-! ### The Socket functions by the result of their kernel call -/

/-- A token taken for a new operation, after the first `::read`. -/
def startRead (h : Heap κ) (id : SockId) (buf : Ptr) (size : Int) (cb : κ) (r : ReadResult) :
    Heap κ :=
  (h.init ⟨id, .read⟩ buf size cb).read id buf size r

/-- A token taken for a new operation, after the first `::write`. -/
def startWrite (h : Heap κ) (id : SockId) (buf : Ptr) (size : Int) (cb : κ) (w : WriteResult) :
    Heap κ :=
  (h.init ⟨id, .write⟩ buf size cb).write id buf size w

theorem tok_startRead : (h.startRead id buf size cb r).tok u =
    if u = ⟨id, .read⟩ then
      { (h.tok ⟨id, .read⟩).init buf size ⟨h.nextCall, cb⟩ with err := r.error }
    else h.tok u := by
  rw [startRead, tok_read, tok_init, tok_init, if_pos rfl]
  split <;> rfl

theorem tok_startWrite : (h.startWrite id buf size cb w).tok u =
    if u = ⟨id, .write⟩ then
      { (h.tok ⟨id, .write⟩).init buf size ⟨h.nextCall, cb⟩ with err := w.error }
    else h.tok u := by
  rw [startWrite, tok_write, tok_init, tok_init, if_pos rfl]
  split <;> rfl

@[simp] theorem queue_startRead : (h.startRead id buf size cb r).queue = h.queue := by
  simp [startRead]

@[simp] theorem queue_startWrite : (h.startWrite id buf size cb w).queue = h.queue := by
  simp [startWrite]

theorem readSome_busy (hm : (h.tok ⟨id, .read⟩).mode ≠ .none) :
    h.readSome id buf size cb ms r now = (h.refuse ⟨id, .read⟩ .readInProgress, false) := by
  simp [readSome, hm]

theorem readAll_busy (hm : (h.tok ⟨id, .read⟩).mode ≠ .none) :
    h.readAll id buf size cb ms r now = (h.refuse ⟨id, .read⟩ .readInProgress, false) := by
  simp [readAll, hm]

theorem writeAll_busy (hm : (h.tok ⟨id, .write⟩).mode ≠ .none) :
    h.writeAll id buf size cb ms w now = (h.refuse ⟨id, .write⟩ .writeInProgress, false) := by
  simp [writeAll, hm]

section Free

variable (hm : (h.tok ⟨id, .read⟩).mode = .none)

include hm

theorem readSome_got : h.readSome id buf size cb ms (.got bytes) now =
    ((h.startRead id buf size cb (.got bytes)).finish ⟨id, .read⟩ bytes.length .done, true) := by
  by_cases hb : bytes = []
  · simp [readSome, hm, startRead, ReadResult.ret, hb]
  · have hneg : ¬ ((bytes.length : Int) < 0) := by omega
    simp [readSome, hm, startRead, ReadResult.ret, hb, hneg]

theorem readSome_again : h.readSome id buf size cb ms (.fail EAGAIN) now =
    ((h.startRead id buf size cb (.fail EAGAIN)).park ⟨id, .read⟩ 0 .some ms now, true) := by
  simp [readSome, hm, startRead, ReadResult.ret, tok_read, ReadResult.error]

theorem readSome_fail (he : errno ≠ EAGAIN) : h.readSome id buf size cb ms (.fail errno) now =
    ((h.startRead id buf size cb (.fail errno)).finish ⟨id, .read⟩ 0 .err, true) := by
  simp [readSome, hm, startRead, ReadResult.ret, tok_read, ReadResult.error, he]

/-- All of the request, or the end of the stream. -/
theorem readAll_whole (hs : bytes = [] ∨ size ≤ bytes.length) :
    h.readAll id buf size cb ms (.got bytes) now =
      ((h.startRead id buf size cb (.got bytes)).finish ⟨id, .read⟩ bytes.length .done, true) := by
  by_cases hb : bytes = []
  · simp [readAll, hm, startRead, ReadResult.ret, hb]
  · have hle : size ≤ bytes.length := hs.resolve_left hb
    have hneg : ¬ ((bytes.length : Int) < 0) := by omega
    simp [readAll, hm, startRead, ReadResult.ret, hb, hneg, not_lt.mpr hle]

theorem readAll_part (hb : bytes ≠ []) (hs : (bytes.length : Int) < size) :
    h.readAll id buf size cb ms (.got bytes) now =
      ((h.startRead id buf size cb (.got bytes)).park ⟨id, .read⟩ bytes.length .all ms now,
        true) := by
  have hneg : ¬ ((bytes.length : Int) < 0) := by omega
  simp [readAll, hm, startRead, ReadResult.ret, hb, hs, hneg]

theorem readAll_again : h.readAll id buf size cb ms (.fail EAGAIN) now =
    ((h.startRead id buf size cb (.fail EAGAIN)).park ⟨id, .read⟩ 0 .all ms now, true) := by
  simp [readAll, hm, startRead, ReadResult.ret, tok_read, ReadResult.error]

theorem readAll_fail (he : errno ≠ EAGAIN) : h.readAll id buf size cb ms (.fail errno) now =
    ((h.startRead id buf size cb (.fail errno)).finish ⟨id, .read⟩ 0 .err, true) := by
  simp [readAll, hm, startRead, ReadResult.ret, tok_read, ReadResult.error, he]

end Free

section FreeWrite

variable {count : Nat} (hm : (h.tok ⟨id, .write⟩).mode = .none)

include hm

/-- `::write` answered 0: errno is not set, so the operation ends in an error without a code. -/
theorem writeAll_zero : h.writeAll id buf size cb ms (.accepted 0) now =
    ((h.startWrite id buf size cb (.accepted 0)).finish ⟨id, .write⟩ 0 .err, true) := by
  simp [writeAll, hm, startWrite, WriteResult.ret, tok_write, WriteResult.error, EAGAIN]

theorem writeAll_whole (hpos : 0 < count) (hs : size ≤ count) :
    h.writeAll id buf size cb ms (.accepted count) now =
      ((h.startWrite id buf size cb (.accepted count)).finish ⟨id, .write⟩ count .done, true) := by
  have h0 : count ≠ 0 := by omega
  simp [writeAll, hm, startWrite, WriteResult.ret, h0, not_lt.mpr hs]

theorem writeAll_part (hpos : 0 < count) (hs : (count : Int) < size) :
    h.writeAll id buf size cb ms (.accepted count) now =
      ((h.startWrite id buf size cb (.accepted count)).park ⟨id, .write⟩ count .all ms now,
        true) := by
  have h0 : count ≠ 0 := by omega
  simp [writeAll, hm, startWrite, WriteResult.ret, h0, hs]

theorem writeAll_again : h.writeAll id buf size cb ms (.fail EAGAIN) now =
    ((h.startWrite id buf size cb (.fail EAGAIN)).park ⟨id, .write⟩ 0 .all ms now, true) := by
  simp [writeAll, hm, startWrite, WriteResult.ret, tok_write, WriteResult.error]

theorem writeAll_fail (he : errno ≠ EAGAIN) : h.writeAll id buf size cb ms (.fail errno) now =
    ((h.startWrite id buf size cb (.fail errno)).finish ⟨id, .write⟩ 0 .err, true) := by
  simp [writeAll, hm, startWrite, WriteResult.ret, tok_write, WriteResult.error, he]

end FreeWrite

/-- An event finds no read to go on with. -/
theorem onRead_idle (hm : ¬ (h.tok ⟨id, .read⟩).mode.pending) : h.onRead id r = h := by
  have h1 : (h.tok ⟨id, .read⟩).mode ≠ .some := fun he => hm (Or.inl he)
  have h2 : (h.tok ⟨id, .read⟩).mode ≠ .all := fun he => hm (Or.inr he)
  simp [onRead, h1, h2]

section SomePending

variable (hm : (h.tok ⟨id, .read⟩).mode = .some)

include hm

theorem onRead_some_got : h.onRead id (.got bytes) =
    (h.read id (h.tok ⟨id, .read⟩).buf (h.tok ⟨id, .read⟩).bufSize (.got bytes)).finish
      ⟨id, .read⟩ bytes.length .done := by
  by_cases hb : bytes = []
  · simp [onRead, hm, ReadResult.ret, hb]
  · have hneg : ¬ ((bytes.length : Int) < 0) := by omega
    simp [onRead, hm, ReadResult.ret, hb, hneg]

theorem onRead_some_again : h.onRead id (.fail EAGAIN) =
    h.read id (h.tok ⟨id, .read⟩).buf (h.tok ⟨id, .read⟩).bufSize (.fail EAGAIN) := by
  simp [onRead, hm, ReadResult.ret, tok_read, ReadResult.error]

theorem onRead_some_fail (he : errno ≠ EAGAIN) : h.onRead id (.fail errno) =
    (h.read id (h.tok ⟨id, .read⟩).buf (h.tok ⟨id, .read⟩).bufSize (.fail errno)).finish
      ⟨id, .read⟩ 0 .err := by
  simp [onRead, hm, ReadResult.ret, tok_read, ReadResult.error, he]

end SomePending

/-- The `::read` that goes on with a `readAll`, into the rest of the buffer. -/
def continueRead (h : Heap κ) (id : SockId) (r : ReadResult) : Heap κ :=
  h.read id ((h.tok ⟨id, .read⟩).buf.add (h.tok ⟨id, .read⟩).ioSize)
    ((h.tok ⟨id, .read⟩).bufSize - (h.tok ⟨id, .read⟩).ioSize) r

/-- The `::write` that goes on with a `writeAll`, from the rest of the buffer. -/
def continueWrite (h : Heap κ) (id : SockId) (w : WriteResult) : Heap κ :=
  h.write id ((h.tok ⟨id, .write⟩).buf.add (h.tok ⟨id, .write⟩).ioSize)
    ((h.tok ⟨id, .write⟩).bufSize - (h.tok ⟨id, .write⟩).ioSize) w

theorem tok_continueRead : (h.continueRead id r).tok u =
    if u = ⟨id, .read⟩ then { h.tok ⟨id, .read⟩ with err := r.error } else h.tok u :=
  tok_read

theorem tok_continueWrite : (h.continueWrite id w).tok u =
    if u = ⟨id, .write⟩ then { h.tok ⟨id, .write⟩ with err := w.error } else h.tok u :=
  tok_write

section AllPending

variable (hm : (h.tok ⟨id, .read⟩).mode = .all)

include hm

/-- The end of the stream: the bytes stored before are not counted. -/
theorem onRead_all_eof : h.onRead id (.got []) =
    (h.continueRead id (.got [])).finish ⟨id, .read⟩ 0 .done := by
  simp [onRead, hm, ReadResult.ret, continueRead]

theorem onRead_all_part (hb : bytes ≠ [])
    (hs : (h.tok ⟨id, .read⟩).ioSize + bytes.length < (h.tok ⟨id, .read⟩).bufSize) :
    h.onRead id (.got bytes) =
      (h.continueRead id (.got bytes)).modify ⟨id, .read⟩ fun k => k.add bytes.length := by
  have hneg : ¬ ((bytes.length : Int) < 0) := by omega
  simp [onRead, hm, ReadResult.ret, hb, hneg, continueRead, tok_read, Token.add, hs]

theorem onRead_all_whole (hb : bytes ≠ [])
    (hs : ¬ (h.tok ⟨id, .read⟩).ioSize + bytes.length < (h.tok ⟨id, .read⟩).bufSize) :
    h.onRead id (.got bytes) =
      ((h.continueRead id (.got bytes)).modify ⟨id, .read⟩ fun k => k.add bytes.length).finish
        ⟨id, .read⟩ ((h.tok ⟨id, .read⟩).ioSize + bytes.length) .done := by
  have hneg : ¬ ((bytes.length : Int) < 0) := by omega
  simp [onRead, hm, ReadResult.ret, hb, hneg, continueRead, tok_read, Token.add, hs]

theorem onRead_all_again : h.onRead id (.fail EAGAIN) = h.continueRead id (.fail EAGAIN) := by
  simp [onRead, hm, ReadResult.ret, continueRead, tok_read, ReadResult.error]

theorem onRead_all_fail (he : errno ≠ EAGAIN) : h.onRead id (.fail errno) =
    (h.continueRead id (.fail errno)).finish ⟨id, .read⟩ 0 .err := by
  simp [onRead, hm, ReadResult.ret, continueRead, tok_read, ReadResult.error, he]

end AllPending

theorem onWrite_idle (hm : (h.tok ⟨id, .write⟩).mode ≠ .all) : h.onWrite id w = h := by
  simp [onWrite, hm]

section WritePending

variable {count : Nat} (hm : (h.tok ⟨id, .write⟩).mode = .all)

include hm

theorem onWrite_zero : h.onWrite id (.accepted 0) =
    (h.continueWrite id (.accepted 0)).finish ⟨id, .write⟩ 0 .err := by
  simp [onWrite, hm, WriteResult.ret, continueWrite, tok_write, WriteResult.error, EAGAIN]

theorem onWrite_part (hpos : 0 < count)
    (hs : (h.tok ⟨id, .write⟩).ioSize + count < (h.tok ⟨id, .write⟩).bufSize) :
    h.onWrite id (.accepted count) =
      (h.continueWrite id (.accepted count)).modify ⟨id, .write⟩ fun k => k.add count := by
  have h0 : count ≠ 0 := by omega
  simp [onWrite, hm, WriteResult.ret, h0, continueWrite, tok_write, Token.add, hs]

theorem onWrite_whole (hpos : 0 < count)
    (hs : ¬ (h.tok ⟨id, .write⟩).ioSize + count < (h.tok ⟨id, .write⟩).bufSize) :
    h.onWrite id (.accepted count) =
      ((h.continueWrite id (.accepted count)).modify ⟨id, .write⟩ fun k => k.add count).finish
        ⟨id, .write⟩ ((h.tok ⟨id, .write⟩).ioSize + count) .done := by
  have h0 : count ≠ 0 := by omega
  simp [onWrite, hm, WriteResult.ret, h0, continueWrite, tok_write, Token.add, hs]

theorem onWrite_again : h.onWrite id (.fail EAGAIN) = h.continueWrite id (.fail EAGAIN) := by
  simp [onWrite, hm, WriteResult.ret, continueWrite, tok_write, WriteResult.error]

theorem onWrite_fail (he : errno ≠ EAGAIN) : h.onWrite id (.fail errno) =
    (h.continueWrite id (.fail errno)).finish ⟨id, .write⟩ 0 .err := by
  simp [onWrite, hm, WriteResult.ret, continueWrite, tok_write, WriteResult.error, he]

end WritePending

/-! ### Opening and progressing an operation -/

/-- `h'` is `h` with the token taken by the next call, which made its first kernel call `e`. -/
structure Begun (h : Heap κ) (q : Request κ) (e : Event) (h' : Heap κ) : Prop where
  free : (h.tok q.token).mode = .none
  fresh : (h'.tok q.token).mode = .none
  tv : h'.tv q.token = h.tv q.token
  cb : (h'.tok q.token).cb = some ⟨h.nextCall, q.fn⟩
  other : ∀ u, u ≠ q.token → h'.tok u = h.tok u
  live : ∀ id, h'.live id = h.live id
  soc : ∀ id, h'.soc id = h.soc id
  queue : h'.queue = h.queue
  timerList : h'.timerList = h.timerList
  nextCall : h'.nextCall = h.nextCall + 1
  io : e.isIo q.token
  made : e = q.call h.mem
  log : h'.log = e :: .started q.token h.nextCall :: h.log

/-- `h'` is `h` after the kernel call `e`, which changed the progress of token `t` at most. -/
structure Touched (h : Heap κ) (t : TokenId) (e : Event) (h' : Heap κ) : Prop where
  mode : (h'.tok t).mode = (h.tok t).mode
  tv : h'.tv t = h.tv t
  cb : (h'.tok t).cb = (h.tok t).cb
  other : ∀ u, u ≠ t → h'.tok u = h.tok u
  live : ∀ id, h'.live id = h.live id
  soc : ∀ id, h'.soc id = h.soc id
  queue : h'.queue = h.queue
  timerList : h'.timerList = h.timerList
  nextCall : h'.nextCall = h.nextCall
  io : e.isIo t
  log : h'.log = e :: h.log

/-- What a call of `readSome`, `readAll` or `writeAll` does to its token, and what it returns. -/
inductive Opens (h : Heap κ) (q : Request κ) : Heap κ × Bool → Prop
  | refused (d : Detail) : (h.tok q.token).mode ≠ .none → Opens h q (h.refuse q.token d, false)
  | finished {e : Event} {h' : Heap κ} {n : Int} {m : Mode} : Begun h q e h' → m.finished →
      Opens h q (h'.finish q.token n m, true)
  | parked {e : Event} {h' : Heap κ} {n : Int} : Begun h q e h' → q.mode.pending →
      e.stalls q.mode → Opens h q (h'.park q.token n q.mode q.timeoutMsec q.clock, true)

/-- What an event does to the token of its direction. -/
inductive Progresses (h : Heap κ) (t : TokenId) : Heap κ → Prop
  | idle : ((h.tok t).mode.pending → t.dir = .write ∧ (h.tok t).mode = .some) → Progresses h t h
  | waits {e : Event} {h' : Heap κ} : (h.tok t).mode.pending → Touched h t e h' →
      e.stalls (h.tok t).mode → Progresses h t h'
  | finishes {e : Event} {h' : Heap κ} {n : Int} {m : Mode} : (h.tok t).mode.pending →
      Touched h t e h' → m.finished → Progresses h t (h'.finish t n m)

namespace Progresses

theorem other (hp : Progresses h t h') (hu : u ≠ t) : h'.tok u = h.tok u := by
  cases hp with
  | idle => rfl
  | waits _ hs _ => exact hs.other u hu
  | finishes _ hs _ => rw [tok_finish, if_neg hu, hs.other u hu]

theorem live (hp : Progresses h t h') (id : SockId) : h'.live id = h.live id := by
  cases hp with
  | idle => rfl
  | waits _ hs _ => exact hs.live id
  | finishes _ hs _ => rw [live_finish, hs.live]

theorem soc (hp : Progresses h t h') (id : SockId) : h'.soc id = h.soc id := by
  cases hp with
  | idle => rfl
  | waits _ hs _ => exact hs.soc id
  | finishes _ hs _ => rw [soc_finish, hs.soc]

theorem log (hp : Progresses h t h') : h'.log = h.log ∨ ∃ e, e.isIo t ∧ h'.log = e :: h.log := by
  cases hp with
  | idle => exact .inl rfl
  | waits _ hs _ => exact .inr ⟨_, hs.io, hs.log⟩
  | finishes _ hs _ => exact .inr ⟨_, hs.io, hs.log⟩

end Progresses

namespace Opens

variable {q : Request κ} {ok : Bool}

theorem other (ho : Opens h q (h', ok)) (hu : u ≠ q.token) : h'.tok u = h.tok u := by
  cases ho with
  | refused d _ => rw [tok_refuse, if_neg hu]
  | finished hs _ => rw [tok_finish, if_neg hu, hs.other u hu]
  | parked hs _ _ => rw [tok_park, if_neg hu, hs.other u hu]

theorem live (ho : Opens h q (h', ok)) (id : SockId) : h'.live id = h.live id := by
  cases ho with
  | refused d _ => exact live_refuse
  | finished hs _ => rw [live_finish, hs.live]
  | parked hs _ _ => rw [live_park, hs.live]

theorem soc (ho : Opens h q (h', ok)) (id : SockId) : h'.soc id = h.soc id := by
  cases ho with
  | refused d _ => exact soc_refuse
  | finished hs _ => rw [soc_finish, hs.soc]
  | parked hs _ _ => rw [soc_park, hs.soc]

end Opens

theorem startRead_begun (hm : (h.tok ⟨id, .read⟩).mode = .none) (m : Mode) :
    Begun h ⟨⟨id, .read⟩, cb, ms, now, m, fun _ => .sysRead id buf size r⟩
      (.sysRead id buf size r) (h.startRead id buf size cb r) where
  free := hm
  fresh := by simp [tok_startRead, Token.init]
  tv := by simp [tv, tok_startRead, Token.init]
  cb := by simp [tok_startRead, Token.init]
  other u hu := by simp [tok_startRead, hu]
  live j := by simp [startRead]
  soc j := by simp [startRead]
  queue := by simp [startRead]
  timerList := by simp [startRead]
  nextCall := by simp [startRead]
  io := rfl
  made := rfl
  log := by simp [startRead]

theorem startWrite_begun (hm : (h.tok ⟨id, .write⟩).mode = .none) :
    Begun h ⟨⟨id, .write⟩, cb, ms, now, .all,
        fun mem => .sysWrite id buf size w (mem.load buf w.count)⟩
      (.sysWrite id buf size w (h.mem.load buf w.count)) (h.startWrite id buf size cb w) where
  free := hm
  fresh := by simp [tok_startWrite, Token.init]
  tv := by simp [tv, tok_startWrite, Token.init]
  cb := by simp [tok_startWrite, Token.init]
  other u hu := by simp [tok_startWrite, hu]
  live j := by simp [startWrite]
  soc j := by simp [startWrite]
  queue := by simp [startWrite]
  timerList := by simp [startWrite]
  nextCall := by simp [startWrite]
  io := rfl
  made := rfl
  log := by simp [startWrite]

theorem read_touched :
    Touched h ⟨id, .read⟩ (.sysRead id buf size r) (h.read id buf size r) where
  mode := by simp [tok_read]
  tv := by simp [tv, tok_read]
  cb := by simp [tok_read]
  other u hu := by simp [tok_read, hu]
  live := live_read
  soc := soc_read
  queue := queue_read
  timerList := timerList_read
  nextCall := nextCall_read
  io := rfl
  log := log_read

theorem write_touched : Touched h ⟨id, .write⟩
    (.sysWrite id buf size w (h.mem.load buf w.count)) (h.write id buf size w) where
  mode := by simp [tok_write]
  tv := by simp [tv, tok_write]
  cb := by simp [tok_write]
  other u hu := by simp [tok_write, hu]
  live := live_write
  soc := soc_write
  queue := queue_write
  timerList := timerList_write
  nextCall := nextCall_write
  io := rfl
  log := log_write

theorem Touched.add {e : Event} (ht : Touched h t e h') (n : Int) :
    Touched h t e (h'.modify t fun k => k.add n) where
  mode := by simp [Token.add, ht.mode]
  tv := by simpa [Heap.tv, Token.add] using ht.tv
  cb := by simp [Token.add, ht.cb]
  other u hu := by rw [tok_modify_of_ne _ hu, ht.other u hu]
  live j := by rw [live_modify, ht.live]
  soc j := by rw [soc_modify, ht.soc]
  queue := ht.queue
  timerList := ht.timerList
  nextCall := ht.nextCall
  io := ht.io
  log := ht.log

theorem readSome_opens :
    Opens h ⟨⟨id, .read⟩, cb, ms, now, .some, fun _ => .sysRead id buf size r⟩
      (h.readSome id buf size cb ms r now) := by
  by_cases hm : (h.tok ⟨id, .read⟩).mode = .none
  · cases r with
    | got bytes =>
      rw [readSome_got hm]
      exact .finished (startRead_begun hm .some) (.inl rfl)
    | fail errno =>
      by_cases he : errno = EAGAIN
      · subst he
        rw [readSome_again hm]
        exact .parked (startRead_begun hm .some) (.inl rfl) (.inl rfl)
      · rw [readSome_fail hm he]
        exact .finished (startRead_begun hm .some) (.inr rfl)
  · rw [readSome_busy hm]
    exact .refused _ hm

theorem readAll_opens :
    Opens h ⟨⟨id, .read⟩, cb, ms, now, .all, fun _ => .sysRead id buf size r⟩
      (h.readAll id buf size cb ms r now) := by
  by_cases hm : (h.tok ⟨id, .read⟩).mode = .none
  · cases r with
    | got bytes =>
      by_cases hs : bytes = [] ∨ size ≤ bytes.length
      · rw [readAll_whole hm hs]
        exact .finished (startRead_begun hm .all) (.inl rfl)
      · push Not at hs
        rw [readAll_part hm hs.1 hs.2]
        exact .parked (startRead_begun hm .all) (.inr rfl)
          (.inr ⟨rfl, ReadResult.ret_pos hs.1, hs.2⟩)
    | fail errno =>
      by_cases he : errno = EAGAIN
      · subst he
        rw [readAll_again hm]
        exact .parked (startRead_begun hm .all) (.inr rfl) (.inl rfl)
      · rw [readAll_fail hm he]
        exact .finished (startRead_begun hm .all) (.inr rfl)
  · rw [readAll_busy hm]
    exact .refused _ hm

theorem writeAll_opens :
    Opens h ⟨⟨id, .write⟩, cb, ms, now, .all,
        fun mem => .sysWrite id buf size w (mem.load buf w.count)⟩
      (h.writeAll id buf size cb ms w now) := by
  by_cases hm : (h.tok ⟨id, .write⟩).mode = .none
  · cases w with
    | accepted count =>
      rcases Nat.eq_zero_or_pos count with rfl | hpos
      · rw [writeAll_zero hm]
        exact .finished (startWrite_begun hm) (.inr rfl)
      · by_cases hs : (count : Int) < size
        · rw [writeAll_part hm hpos hs]
          exact .parked (startWrite_begun hm) (.inr rfl) (.inr ⟨Int.natCast_pos.mpr hpos, hs⟩)
        · rw [writeAll_whole hm hpos (not_lt.mp hs)]
          exact .finished (startWrite_begun hm) (.inl rfl)
    | fail errno =>
      by_cases he : errno = EAGAIN
      · subst he
        rw [writeAll_again hm]
        exact .parked (startWrite_begun hm) (.inr rfl) (.inl rfl)
      · rw [writeAll_fail hm he]
        exact .finished (startWrite_begun hm) (.inr rfl)
  · rw [writeAll_busy hm]
    exact .refused _ hm

theorem onRead_progresses : Progresses h ⟨id, .read⟩ (h.onRead id r) := by
  by_cases hp : (h.tok ⟨id, .read⟩).mode.pending
  · rcases hp with hm | hm
    · cases r with
      | got bytes =>
        rw [onRead_some_got hm]
        exact .finishes (.inl hm) read_touched (.inl rfl)
      | fail errno =>
        by_cases he : errno = EAGAIN
        · subst he
          rw [onRead_some_again hm]
          exact .waits (.inl hm) read_touched (.inl rfl)
        · rw [onRead_some_fail hm he]
          exact .finishes (.inl hm) read_touched (.inr rfl)
    · cases r with
      | got bytes =>
        by_cases hb : bytes = []
        · subst hb
          rw [onRead_all_eof hm]
          exact .finishes (.inr hm) read_touched (.inl rfl)
        · by_cases hs : (h.tok ⟨id, .read⟩).ioSize + bytes.length < (h.tok ⟨id, .read⟩).bufSize
          · rw [onRead_all_part hm hb hs]
            have hlen : (ReadResult.got bytes).ret <
                (h.tok ⟨id, .read⟩).bufSize - (h.tok ⟨id, .read⟩).ioSize := by
              simp only [ReadResult.ret]
              omega
            exact .waits (.inr hm) (read_touched.add _) (.inr ⟨hm, ReadResult.ret_pos hb, hlen⟩)
          · rw [onRead_all_whole hm hb hs]
            exact .finishes (.inr hm) (read_touched.add _) (.inl rfl)
      | fail errno =>
        by_cases he : errno = EAGAIN
        · subst he
          rw [onRead_all_again hm]
          exact .waits (.inr hm) read_touched (.inl rfl)
        · rw [onRead_all_fail hm he]
          exact .finishes (.inr hm) read_touched (.inr rfl)
  · rw [onRead_idle hp]
    exact .idle fun h => absurd h hp

/-- A read that goes on waiting got nothing, or is a `readAll` that got a part of what it asked. -/
theorem onRead_waits (hp : ((h.onRead id r).tok ⟨id, .read⟩).mode.pending) :
    ∃ buf len, (h.onRead id r).log = .sysRead id buf len r :: h.log ∧
      (r = .fail EAGAIN ∨ (h.tok ⟨id, .read⟩).mode = .all ∧
        len = (h.tok ⟨id, .read⟩).bufSize - (h.tok ⟨id, .read⟩).ioSize ∧
        0 < r.ret ∧ r.ret < len) := by
  have hdone : ∀ {h₁ : Heap κ} {n : Int} {m : Mode}, m.finished →
      ¬ ((h₁.finish ⟨id, .read⟩ n m).tok ⟨id, .read⟩).mode.pending := by
    intro h₁ n m hf hp
    rw [tok_finish, if_pos rfl] at hp
    rcases hf with rfl | rfl <;> rcases hp with hp | hp <;> cases hp
  by_cases hm : (h.tok ⟨id, .read⟩).mode.pending
  · rcases hm with hm | hm
    · cases r with
      | got bytes =>
        rw [onRead_some_got hm] at hp
        exact (hdone (.inl rfl) hp).elim
      | fail errno =>
        by_cases he : errno = EAGAIN
        · subst he
          rw [onRead_some_again hm]
          exact ⟨_, _, log_read, .inl rfl⟩
        · rw [onRead_some_fail hm he] at hp
          exact (hdone (.inr rfl) hp).elim
    · cases r with
      | got bytes =>
        by_cases hb : bytes = []
        · subst hb
          rw [onRead_all_eof hm] at hp
          exact (hdone (.inl rfl) hp).elim
        · by_cases hs : (h.tok ⟨id, .read⟩).ioSize + bytes.length < (h.tok ⟨id, .read⟩).bufSize
          · rw [onRead_all_part hm hb hs]
            refine ⟨_, _, log_read, .inr ⟨hm, rfl, ReadResult.ret_pos hb, ?_⟩⟩
            simp only [ReadResult.ret]
            omega
          · rw [onRead_all_whole hm hb hs] at hp
            exact (hdone (.inl rfl) hp).elim
      | fail errno =>
        by_cases he : errno = EAGAIN
        · subst he
          rw [onRead_all_again hm]
          exact ⟨_, _, log_read, .inl rfl⟩
        · rw [onRead_all_fail hm he] at hp
          exact (hdone (.inr rfl) hp).elim
  · rw [onRead_idle hm] at hp
    exact (hm hp).elim

theorem onWrite_progresses : Progresses h ⟨id, .write⟩ (h.onWrite id w) := by
  by_cases hm : (h.tok ⟨id, .write⟩).mode = .all
  · cases w with
    | accepted count =>
      rcases Nat.eq_zero_or_pos count with rfl | hpos
      · rw [onWrite_zero hm]
        exact .finishes (.inr hm) write_touched (.inr rfl)
      · by_cases hs : (h.tok ⟨id, .write⟩).ioSize + count < (h.tok ⟨id, .write⟩).bufSize
        · rw [onWrite_part hm hpos hs]
          have hlen : (WriteResult.accepted count).ret <
              (h.tok ⟨id, .write⟩).bufSize - (h.tok ⟨id, .write⟩).ioSize := by
            simp only [WriteResult.ret]
            omega
          exact .waits (.inr hm) (write_touched.add _) (.inr ⟨Int.natCast_pos.mpr hpos, hlen⟩)
        · rw [onWrite_whole hm hpos hs]
          exact .finishes (.inr hm) (write_touched.add _) (.inl rfl)
    | fail errno =>
      by_cases he : errno = EAGAIN
      · subst he
        rw [onWrite_again hm]
        exact .waits (.inr hm) write_touched (.inl rfl)
      · rw [onWrite_fail hm he]
        exact .finishes (.inr hm) write_touched (.inr rfl)
  · rw [onWrite_idle hm]
    exact .idle fun h => ⟨rfl, h.resolve_right hm⟩

end Heap

end EchoBenchmark.Proactor
