import EchoBenchmark.Proactor.Bookkeeping
import Mathlib.Data.Set.Insert

/-!
States of two runs that look alike: they differ in the numbers of their calls, in entries that one
history has and the other has not, and in the errors of tokens whose operation waits. What the
functions of the proactor do to the one they do to the other.
-/

namespace EchoBenchmark.Proactor

open Heap (Noted)

variable {κ : Type}

/-- The same token but for its error and for the number of its call. -/
structure Token.Same (k k' : Token κ) : Prop where
  buf : k'.buf = k.buf
  bufSize : k'.bufSize = k.bufSize
  ioSize : k'.ioSize = k.ioSize
  fn : k'.cb.map Callback.fn = k.cb.map Callback.fn
  mode : k'.mode = k.mode
  tv : k'.tv = k.tv

/-- An entry of the history without the number of its call. -/
def Event.unnumbered : Event → Event
  | .started u _ => .started u 0
  | .refused u _ => .refused u 0
  | .called u _ code bytes via => .called u 0 code bytes via
  | e => e

/-- The arguments of a running callback, and the function that runs. -/
def Invocation.shown : Invocation κ → Invocation κ
  | .io t cb err bytes via => .io t ⟨0, cb.fn⟩ err bytes via
  | inv => inv

/-- The history without numbers and without the entries that `hide` takes out. -/
def shown (hide : Event → Bool) (log : List Event) : List Event :=
  (log.map Event.unnumbered).filter fun e => !hide e

theorem shown_cons {hide : Event → Bool} {e e' : Event} {log log' : List Event}
    (he : e'.unnumbered = e.unnumbered) (hlog : shown hide log' = shown hide log) :
    shown hide (e' :: log') = shown hide (e :: log) := by
  simp only [shown, List.map_cons, List.filter_cons, he]
  rw [show ((log'.map Event.unnumbered).filter fun e => !hide e) = shown hide log from hlog]
  rfl

theorem shown_cons_hidden {hide : Event → Bool} {e : Event} {log : List Event}
    (he : hide e.unnumbered = true) : shown hide (e :: log) = shown hide log := by
  simp [shown, he]

namespace Heap

/-- The heaps look alike, and only tokens of `L` may have different errors. -/
structure Alike (hide : Event → Bool) (L : Set TokenId) (h h' : Heap κ) : Prop where
  same : ∀ u, (h.tok u).Same (h'.tok u)
  err : ∀ u, u ∉ L → (h'.tok u).err = (h.tok u).err
  live : ∀ id, h'.live id = h.live id
  soc : ∀ id, h'.soc id = h.soc id
  queue : h'.queue = h.queue
  timerList : h'.timerList = h.timerList
  mem : h'.mem = h.mem
  log : shown hide h'.log = shown hide h.log

namespace Alike

variable {hide : Event → Bool} {h h' h₁ h₁' : Heap κ} {t u v : TokenId} {L L' : Set TokenId}
  {id : SockId} {buf : Ptr}
  {size n ms : Int} {cb : κ} {now : Timeval} {m : Mode} {r : ReadResult} {w : WriteResult}
  {k k' : Token κ} {e e' : Event}

theorem tv (ha : Alike hide L h h') : h'.tv = h.tv := funext fun u => (ha.same u).tv

theorem mode (ha : Alike hide L h h') (u : TokenId) : (h'.tok u).mode = (h.tok u).mode :=
  (ha.same u).mode

theorem mono (ha : Alike hide L h h') (hL : L ⊆ L') : Alike hide L' h h' :=
  { ha with err := fun u hu => ha.err u fun h => hu (hL h) }

theorem emit (ha : Alike hide L h h') (e e' : Event) (he : e'.unnumbered = e.unnumbered) :
    Alike hide L (h.emit e) (h'.emit e') :=
  { ha with log := shown_cons he ha.log }

theorem enqueue (ha : Alike hide L h h') : Alike hide L (h.enqueue v) (h'.enqueue v) :=
  { ha with queue := congrArg (· ++ [v]) ha.queue }

theorem removeToken (ha : Alike hide L h h') : Alike hide L (h.removeToken v) (h'.removeToken v) :=
  { ha with queue := congrArg (List.erase · v) ha.queue }

theorem popTimer (ha : Alike hide L h h') : Alike hide L (h.popTimer v) (h'.popTimer v) :=
  { ha with
    timerList := by rw [timerList_popTimer, timerList_popTimer, ha.tv, ha.timerList] }

/-- A change to one token that depends on nothing but what the two heaps share. -/
theorem modify (ha : Alike hide L h h') {f f' : Token κ → Token κ}
    (hf : (f (h.tok v)).Same (f' (h'.tok v)))
    (herr : v ∉ L' → (f' (h'.tok v)).err = (f (h.tok v)).err)
    (hL : ∀ u, u ≠ v → u ∉ L' → u ∉ L) : Alike hide L' (h.modify v f) (h'.modify v f') where
  same u := by
    rw [tok_modify, tok_modify]
    split
    · exact hf
    · exact ha.same u
  err u hu := by
    rw [tok_modify, tok_modify]
    split
    · rename_i huv
      exact herr (huv ▸ hu)
    · rename_i huv
      exact ha.err u (hL u huv hu)
  live id := by rw [live_modify, live_modify, ha.live]
  soc id := by rw [soc_modify, soc_modify, ha.soc]
  queue := ha.queue
  timerList := ha.timerList
  mem := ha.mem
  log := ha.log

/-- After `err.set` the errors agree. -/
theorem setErr (ha : Alike hide L h h') (code : Int) (d : Detail) :
    Alike hide (L \ {v}) (h.setErr v code d) (h'.setErr v code d) := by
  refine ha.modify { ha.same v with } (fun _ => rfl) fun u hu hL h => hL ⟨h, hu⟩

theorem clearErr (ha : Alike hide L h h') :
    Alike hide (L \ {v}) (h.modify v fun k => { k with err := k.err.clear })
      (h'.modify v fun k => { k with err := k.err.clear }) := by
  refine ha.modify { ha.same v with } (fun _ => rfl) fun u hu hL h => hL ⟨h, hu⟩

theorem set (ha : Alike hide L h h') : Alike hide L (h.modify v fun k => k.set n m)
    (h'.modify v fun k => k.set n m) :=
  ha.modify { ha.same v with ioSize := rfl, mode := rfl } (ha.err v) fun _ _ => id

theorem add (ha : Alike hide L h h') : Alike hide L (h.modify v fun k => k.add n)
    (h'.modify v fun k => k.add n) :=
  ha.modify { ha.same v with ioSize := congrArg (· + n) (ha.same v).ioSize } (ha.err v)
    fun _ _ => id

theorem insertTimer (ha : Alike hide L h h') :
    Alike hide L (h.insertTimer v) (h'.insertTimer v) where
  same u := by
    rw [tok_insertTimer, tok_insertTimer]
    exact ha.same u
  err u hu := by
    rw [tok_insertTimer, tok_insertTimer]
    exact ha.err u hu
  live id := by rw [live_insertTimer, live_insertTimer, ha.live]
  soc id := by rw [soc_insertTimer, soc_insertTimer, ha.soc]
  queue := by rw [queue_insertTimer, queue_insertTimer, ha.queue]
  timerList := by rw [timerList_insertTimer, timerList_insertTimer, ha.tv, ha.timerList]
  mem := by rw [mem_insertTimer, mem_insertTimer, ha.mem]
  log := by
    rw [log_insertTimer, log_insertTimer, ha.tv, ha.timerList]
    split
    · exact shown_cons rfl ha.log
    · exact ha.log

theorem pushTimer (ha : Alike hide L h h') :
    Alike hide L (h.pushTimer v ms now) (h'.pushTimer v ms now) := by
  unfold Heap.pushTimer
  split
  · exact ha
  · refine insertTimer (ha.modify ?_ (ha.err v) fun _ _ => id)
    exact { ha.same v with tv := rfl }

theorem finish (ha : Alike hide L h h') : Alike hide L (h.finish v n m) (h'.finish v n m) :=
  ha.set.enqueue

theorem park (ha : Alike hide L h h') : Alike hide L (h.park v n m ms now) (h'.park v n m ms now) :=
  ha.set.pushTimer

theorem init (ha : Alike hide L h h') :
    Alike hide L (h.init v buf size cb) (h'.init v buf size cb) := by
  have hm : Alike hide L (h.modify v fun k => k.init buf size ⟨h.nextCall, cb⟩)
      (h'.modify v fun k => k.init buf size ⟨h'.nextCall, cb⟩) := by
    refine ha.modify ?_ (ha.err v) fun _ _ => id
    exact { buf := rfl, bufSize := rfl, ioSize := rfl, fn := rfl, mode := rfl
            tv := (ha.same v).tv }
  have he := hm.emit (.started v h.nextCall) (.started v h'.nextCall) rfl
  exact { he with }

theorem read (ha : Alike hide L h h') :
    Alike hide (L \ {⟨id, .read⟩}) (h.read id buf size r) (h'.read id buf size r) := by
  have hc := ha.clearErr (v := ⟨id, .read⟩)
  have hs : Alike hide (L \ {⟨id, .read⟩})
      { h.modify ⟨id, .read⟩ (fun k => { k with err := k.err.clear }) with
        mem := h.mem.store buf r.bytes }
      { h'.modify ⟨id, .read⟩ (fun k => { k with err := k.err.clear }) with
        mem := h'.mem.store buf r.bytes } :=
    { hc with mem := congrArg (Mem.store · buf r.bytes) ha.mem }
  have he := hs.emit (.sysRead id buf size r) (.sysRead id buf size r) rfl
  cases r with
  | got bytes => exact he
  | fail errno => exact (he.setErr errno (.fail .recv errno)).mono Set.sdiff_subset

theorem write (ha : Alike hide L h h') :
    Alike hide (L \ {⟨id, .write⟩}) (h.write id buf size w) (h'.write id buf size w) := by
  have hc := ha.clearErr (v := ⟨id, .write⟩)
  have he := hc.emit (.sysWrite id buf size w (h.mem.load buf w.count))
    (.sysWrite id buf size w (h'.mem.load buf w.count)) (by rw [ha.mem])
  cases w with
  | accepted count => exact he
  | fail errno => exact (he.setErr errno (.fail .send errno)).mono Set.sdiff_subset

theorem startRead (ha : Alike hide L h h') : Alike hide (L \ {⟨id, .read⟩})
    (h.startRead id buf size cb r) (h'.startRead id buf size cb r) :=
  ha.init.read

theorem startWrite (ha : Alike hide L h h') : Alike hide (L \ {⟨id, .write⟩})
    (h.startWrite id buf size cb w) (h'.startWrite id buf size cb w) :=
  ha.init.write

theorem refuse (ha : Alike hide L h h') (d : Detail) :
    Alike hide L (h.refuse v d) (h'.refuse v d) := by
  have he := ((ha.setErr (v := v) (-1) d).mono Set.sdiff_subset).emit (.refused v h.nextCall)
    (.refused v h'.nextCall) rfl
  exact { he with }

/-- One of the two runs makes a call that is refused, the other does not make it. -/
theorem refuse_left (ha : Alike hide L h h') (ht : t ∈ L) (hhide : hide (.refused t 0) = true)
    (d : Detail) :
    Alike hide L (h.refuse t d) h' where
  same u := by
    rw [tok_refuse]
    split
    · rename_i hu
      subst hu
      exact { ha.same u with }
    · exact ha.same u
  err u hu := by
    rw [tok_refuse, if_neg]
    · exact ha.err u hu
    · rintro rfl
      exact hu ht
  live id := by rw [live_refuse, ha.live]
  soc id := by rw [soc_refuse, ha.soc]
  queue := ha.queue
  timerList := ha.timerList
  mem := ha.mem
  log := by
    rw [log_refuse, ha.log, shown_cons_hidden hhide]

/-! ### The Socket functions -/

theorem readSome_free (ha : Alike hide L h h') (hm : (h.tok ⟨id, .read⟩).mode = .none) :
    Alike hide (L \ {⟨id, .read⟩}) (h.readSome id buf size cb ms r now).1
      (h'.readSome id buf size cb ms r now).1 := by
  have hm' := (ha.mode _).trans hm
  cases r with
  | got bytes =>
    rw [readSome_got hm, readSome_got hm']
    exact ha.startRead.finish
  | fail errno =>
    by_cases he : errno = EAGAIN
    · subst he
      rw [readSome_again hm, readSome_again hm']
      exact ha.startRead.park
    · rw [readSome_fail hm he, readSome_fail hm' he]
      exact ha.startRead.finish

theorem readAll_free (ha : Alike hide L h h') (hm : (h.tok ⟨id, .read⟩).mode = .none) :
    Alike hide (L \ {⟨id, .read⟩}) (h.readAll id buf size cb ms r now).1
      (h'.readAll id buf size cb ms r now).1 := by
  have hm' := (ha.mode _).trans hm
  cases r with
  | got bytes =>
    by_cases hs : bytes = [] ∨ size ≤ bytes.length
    · rw [readAll_whole hm hs, readAll_whole hm' hs]
      exact ha.startRead.finish
    · push Not at hs
      rw [readAll_part hm hs.1 hs.2, readAll_part hm' hs.1 hs.2]
      exact ha.startRead.park
  | fail errno =>
    by_cases he : errno = EAGAIN
    · subst he
      rw [readAll_again hm, readAll_again hm']
      exact ha.startRead.park
    · rw [readAll_fail hm he, readAll_fail hm' he]
      exact ha.startRead.finish

theorem writeAll_free (ha : Alike hide L h h') (hm : (h.tok ⟨id, .write⟩).mode = .none) :
    Alike hide (L \ {⟨id, .write⟩}) (h.writeAll id buf size cb ms w now).1
      (h'.writeAll id buf size cb ms w now).1 := by
  have hm' := (ha.mode _).trans hm
  cases w with
  | accepted count =>
    rcases Nat.eq_zero_or_pos count with rfl | hpos
    · rw [writeAll_zero hm, writeAll_zero hm']
      exact ha.startWrite.finish
    · by_cases hs : (count : Int) < size
      · rw [writeAll_part hm hpos hs, writeAll_part hm' hpos hs]
        exact ha.startWrite.park
      · rw [writeAll_whole hm hpos (not_lt.mp hs), writeAll_whole hm' hpos (not_lt.mp hs)]
        exact ha.startWrite.finish
  | fail errno =>
    by_cases he : errno = EAGAIN
    · subst he
      rw [writeAll_again hm, writeAll_again hm']
      exact ha.startWrite.park
    · rw [writeAll_fail hm he, writeAll_fail hm' he]
      exact ha.startWrite.finish

theorem continueRead (ha : Alike hide L h h') : Alike hide (L \ {⟨id, .read⟩}) (h.continueRead id r)
    (h'.continueRead id r) := by
  unfold Heap.continueRead
  rw [(ha.same _).buf, (ha.same _).bufSize, (ha.same _).ioSize]
  exact ha.read

theorem continueWrite (ha : Alike hide L h h') : Alike hide (L \ {⟨id, .write⟩})
    (h.continueWrite id w) (h'.continueWrite id w) := by
  unfold Heap.continueWrite
  rw [(ha.same _).buf, (ha.same _).bufSize, (ha.same _).ioSize]
  exact ha.write

theorem onRead_pending (ha : Alike hide L h h') (hm : (h.tok ⟨id, .read⟩).mode.pending) :
    Alike hide (L \ {⟨id, .read⟩}) (h.onRead id r) (h'.onRead id r) := by
  rcases hm with hm | hm
  · have hm' := (ha.mode _).trans hm
    have hread : Alike hide (L \ {⟨id, .read⟩})
        (h.read id (h.tok ⟨id, .read⟩).buf (h.tok ⟨id, .read⟩).bufSize r)
        (h'.read id (h.tok ⟨id, .read⟩).buf (h.tok ⟨id, .read⟩).bufSize r) := ha.read
    have hbuf := (ha.same ⟨id, .read⟩).buf
    have hsize := (ha.same ⟨id, .read⟩).bufSize
    cases r with
    | got bytes =>
      rw [onRead_some_got hm, onRead_some_got hm', hbuf, hsize]
      exact hread.finish
    | fail errno =>
      by_cases he : errno = EAGAIN
      · subst he
        rw [onRead_some_again hm, onRead_some_again hm', hbuf, hsize]
        exact hread
      · rw [onRead_some_fail hm he, onRead_some_fail hm' he, hbuf, hsize]
        exact hread.finish
  · have hm' := (ha.mode _).trans hm
    have hio := (ha.same ⟨id, .read⟩).ioSize
    have hsize := (ha.same ⟨id, .read⟩).bufSize
    cases r with
    | got bytes =>
      by_cases hb : bytes = []
      · subst hb
        rw [onRead_all_eof hm, onRead_all_eof hm']
        exact ha.continueRead.finish
      · by_cases hs : (h.tok ⟨id, .read⟩).ioSize + bytes.length < (h.tok ⟨id, .read⟩).bufSize
        · rw [onRead_all_part hm hb hs, onRead_all_part hm' hb (by rw [hio, hsize]; exact hs)]
          exact ha.continueRead.add
        · rw [onRead_all_whole hm hb hs, onRead_all_whole hm' hb (by rw [hio, hsize]; exact hs),
            hio]
          exact ha.continueRead.add.finish
    | fail errno =>
      by_cases he : errno = EAGAIN
      · subst he
        rw [onRead_all_again hm, onRead_all_again hm']
        exact ha.continueRead
      · rw [onRead_all_fail hm he, onRead_all_fail hm' he]
        exact ha.continueRead.finish

theorem onWrite_pending (ha : Alike hide L h h') (hm : (h.tok ⟨id, .write⟩).mode = .all) :
    Alike hide (L \ {⟨id, .write⟩}) (h.onWrite id w) (h'.onWrite id w) := by
  have hm' := (ha.mode _).trans hm
  have hio := (ha.same ⟨id, .write⟩).ioSize
  have hsize := (ha.same ⟨id, .write⟩).bufSize
  cases w with
  | accepted count =>
    rcases Nat.eq_zero_or_pos count with rfl | hpos
    · rw [onWrite_zero hm, onWrite_zero hm']
      exact ha.continueWrite.finish
    · by_cases hs : (h.tok ⟨id, .write⟩).ioSize + count < (h.tok ⟨id, .write⟩).bufSize
      · rw [onWrite_part hm hpos hs, onWrite_part hm' hpos (by rw [hio, hsize]; exact hs)]
        exact ha.continueWrite.add
      · rw [onWrite_whole hm hpos hs, onWrite_whole hm' hpos (by rw [hio, hsize]; exact hs), hio]
        exact ha.continueWrite.add.finish
  | fail errno =>
    by_cases he : errno = EAGAIN
    · subst he
      rw [onWrite_again hm, onWrite_again hm']
      exact ha.continueWrite
    · rw [onWrite_fail hm he, onWrite_fail hm' he]
      exact ha.continueWrite.finish

/-- One of the two runs makes a `::write` that would have blocked, the other does not make it. -/
theorem onWrite_again_right (ha : Alike hide L h h') (ht : (⟨id, .write⟩ : TokenId) ∈ L)
    (hm : (h'.tok ⟨id, .write⟩).mode = .all)
    (hhide : ∀ buf len bytes, hide (.sysWrite id buf len (.fail EAGAIN) bytes) = true) :
    Alike hide L h (h'.onWrite id (.fail EAGAIN)) := by
  rw [onWrite_again hm]
  refine ⟨fun u => ?_, fun u hu => ?_, fun j => ?_, fun j => ?_, ?_, ?_, ?_, ?_⟩
  · rw [tok_continueWrite]
    split
    · rename_i hu
      subst hu
      exact { ha.same ⟨id, .write⟩ with }
    · exact ha.same u
  · rw [tok_continueWrite, if_neg]
    · exact ha.err u hu
    · rintro rfl
      exact hu ht
  · rw [Heap.continueWrite, live_write, ha.live]
  · rw [Heap.continueWrite, soc_write, ha.soc]
  · rw [Heap.continueWrite, queue_write, ha.queue]
  · rw [Heap.continueWrite, timerList_write, ha.timerList]
  · rw [Heap.continueWrite, mem_write, ha.mem]
  · rw [Heap.continueWrite, log_write, shown_cons_hidden, ha.log]
    exact hhide _ _ _

theorem complete (ha : Alike hide L h h') : Alike hide L (h.complete v) (h'.complete v) := by
  refine (ha.removeToken.popTimer).modify ?_ (ha.err v) fun _ _ => id
  exact { ha.same v with mode := rfl }

theorem expire (ha : Alike hide L h h') (timers : List TokenId) :
    Alike hide (L \ {v}) (h.expire v timers) (h'.expire v timers) := by
  have hs : Alike hide L { h with timerList := timers } { h' with timerList := timers } :=
    { ha with timerList := rfl }
  have hm : Alike hide L ({ h with timerList := timers }.modify v fun k => { k with mode := .none })
      ({ h' with timerList := timers }.modify v fun k => { k with mode := .none }) := by
    refine hs.modify ?_ (ha.err v) fun _ _ => id
    exact { ha.same v with mode := rfl }
  exact hm.setErr ETIMEDOUT .timeout

/-! ### Objects -/

theorem create (ha : Alike hide L h h') (soc : Int) (rtv wtv : Timeval) :
    Alike hide L (h.create id soc rtv wtv) (h'.create id soc rtv wtv) where
  same u := by
    rw [tok_create, tok_create]
    split
    · exact ⟨rfl, rfl, rfl, rfl, rfl, rfl⟩
    · exact ha.same u
  err u hu := by
    rw [tok_create, tok_create]
    split
    · rfl
    · exact ha.err u hu
  live j := by
    by_cases hj : j = id
    · simp [Heap.create, Heap.live, Heap.emit, hj]
    · rw [live_create hj, live_create hj, ha.live]
  soc j := by
    by_cases hj : j = id
    · simp [Heap.create, Heap.soc, Heap.emit, hj]
    · rw [soc_create hj, soc_create hj, ha.soc]
  queue := ha.queue
  timerList := ha.timerList
  mem := ha.mem
  log := shown_cons rfl ha.log

theorem unlink (ha : Alike hide L h h') : Alike hide L (h.unlink id) (h'.unlink id) := by
  have hremove : ∀ {h h' : Heap κ} (v : TokenId), Alike hide L h h' →
      Alike hide L (if v ∈ h.queue then h.removeToken v else h)
        (if v ∈ h'.queue then h'.removeToken v else h') := by
    intro h h' v ha
    rw [ha.queue]
    split
    · exact ha.removeToken
    · exact ha
  exact (hremove ⟨id, .write⟩ (hremove ⟨id, .read⟩ ha)).popTimer.popTimer

theorem release (ha : Alike hide L h h') : Alike hide (L \ {u | u.sock = id}) (h.release id)
    (h'.release id) where
  same u := by
    rw [tok_release, tok_release]
    split
    · exact ⟨rfl, rfl, rfl, rfl, rfl, rfl⟩
    · exact ha.same u
  err u hu := by
    rw [tok_release, tok_release]
    split
    · rfl
    · rename_i hne
      exact ha.err u fun hL => hu ⟨hL, hne⟩
  live j := by
    rw [live_release, live_release, ha.live]
  soc j := by
    by_cases hj : j = id
    · simp [Heap.release, Heap.soc, Heap.emit, hj]
    · rw [soc_release hj, soc_release hj, ha.soc]
  queue := ha.queue
  timerList := ha.timerList
  mem := ha.mem
  log := shown_cons rfl ha.log

theorem memcpy (ha : Alike hide L h h') (dst src : Ptr) (n : Nat) :
    Alike hide L (h.memcpy dst src n) (h'.memcpy dst src n) :=
  { ha with
    mem := congrArg (fun m => Mem.store m dst (m.load src n)) ha.mem
    log := shown_cons rfl ha.log }

end Alike

end Heap

/-! ### States -/

namespace State

/-- The states look alike: they differ in their heaps and in the number of the running call. -/
def Alike (hide : Event → Bool) (L : Set TokenId) (s s' : State κ) : Prop :=
  ∃ h c, s' = { s with heap := h, callback := c } ∧ s.heap.Alike hide L h ∧
    c.map Invocation.shown = s.callback.map Invocation.shown

namespace Alike

variable {hide : Event → Bool} {s s' s₁ s₁' : State κ} {u v : TokenId} {L L' : Set TokenId}
  {id : SockId} {a : AccId}
  {h : Handler} {ctl fd : Int} {acceptor : Bool} {err : Error} {bytes : Int} {via : Via}
  {e : Event} {r : ReadResult} {w : WriteResult} {ev : PollEvent} {rest : List PollEvent}

theorem mono (ha : Alike hide L s s') (hL : L ⊆ L') : Alike hide L' s s' := by
  obtain ⟨h, c, hs, hh, hc⟩ := ha
  exact ⟨h, c, hs, hh.mono hL, hc⟩

theorem heap (ha : Alike hide L s s') : s.heap.Alike hide L s'.heap := by
  obtain ⟨h, c, rfl, hh, -⟩ := ha
  exact hh

theorem isSome (ha : Alike hide L s s') : s'.callback.isSome = s.callback.isSome := by
  obtain ⟨h, c, rfl, -, hc⟩ := ha
  have hmap := congrArg Option.isSome hc
  rwa [Option.isSome_map, Option.isSome_map] at hmap

theorem callback_none (ha : Alike hide L s s') (hc : s.callback = none) : s'.callback = none := by
  have h := ha.isSome
  rw [hc] at h
  exact Option.isNone_iff_eq_none.mp (by simpa using h)

theorem pc (ha : Alike hide L s s') : s'.pc = s.pc := by
  obtain ⟨h, c, rfl, -, -⟩ := ha
  rfl

theorem userActive (ha : Alike hide L s s') : s'.userActive = s.userActive := by
  unfold State.userActive
  rw [ha.isSome, ha.pc]

theorem live (ha : Alike hide L s s') (x : Handler) : s'.live x = s.live x := by
  obtain ⟨h, c, rfl, hh, -⟩ := ha
  cases x with
  | socket id => exact hh.live id
  | acceptor a => rfl

theorem handle (ha : Alike hide L s s') (x : Handler) : s'.handle x = s.handle x := by
  obtain ⟨h, c, rfl, hh, -⟩ := ha
  cases x with
  | socket id => exact hh.soc id
  | acceptor a => rfl

theorem onHeap (ha : Alike hide L s s') {f f' : Heap κ → Heap κ}
    (hf : (f s.heap).Alike hide L' (f' s'.heap)) : Alike hide L' (s.onHeap f) (s'.onHeap f') := by
  obtain ⟨h, c, rfl, -, hc⟩ := ha
  exact ⟨_, _, rfl, hf, hc⟩

theorem emit (ha : Alike hide L s s') : Alike hide L (s.emit e) (s'.emit e) := by
  obtain ⟨h, c, rfl, hh, hc⟩ := ha
  exact ⟨_, c, rfl, hh.emit _ _ rfl, hc⟩

theorem setPc (ha : Alike hide L s s') (p : Pc) :
    Alike hide L { s with pc := p } { s' with pc := p } := by
  obtain ⟨h, c, rfl, hh, hc⟩ := ha
  exact ⟨h, c, rfl, hh, hc⟩

/-- The running callback returns. -/
theorem returns (ha : Alike hide L s s') :
    Alike hide L { s with callback := none } { s' with callback := none } := by
  obtain ⟨h, c, rfl, hh, -⟩ := ha
  exact ⟨h, none, rfl, hh, rfl⟩

theorem setAcceptor (ha : Alike hide L s s') (c : Acceptor κ) :
    Alike hide L (s.setAcceptor a c) (s'.setAcceptor a c) := by
  obtain ⟨h, c, rfl, hh, hc⟩ := ha
  exact ⟨h, c, rfl, hh, hc⟩

theorem fault (ha : Alike hide L s s') : Alike hide L (s.fault h) (s'.fault h) := by
  obtain ⟨g, c, rfl, hh, -⟩ := ha
  exact ⟨_, _, rfl, hh.emit _ _ rfl, rfl⟩

theorem setSoc (ha : Alike hide L s s') (soc : Int) :
    Alike hide L (s.setSoc id soc) (s'.setSoc id soc) := by
  have hset : (s.setSoc id soc).heap.Alike hide L (s'.setSoc id soc).heap :=
    { ha.heap with
      same := fun u => by
        rw [tok_setSoc, tok_setSoc]
        exact ha.heap.same u
      err := fun u hu => by
        rw [tok_setSoc, tok_setSoc]
        exact ha.heap.err u hu
      live := fun j => by
        rw [live_setSoc, live_setSoc]
        exact ha.heap.live j
      soc := fun j => by rw [soc_setSoc, soc_setSoc, ha.heap.soc] }
  exact ha.onHeap hset

theorem register (ha : Alike hide L s s') :
    Alike hide L (s.register h acceptor ctl).1 (s'.register h acceptor ctl).1 := by
  have hhandle := ha.handle h
  have hadd : s'.epollAdd (s.handle h) ctl = s.epollAdd (s.handle h) ctl := by
    obtain ⟨g, c, rfl, -, -⟩ := ha
    rfl
  obtain ⟨g, c, rfl, hh, hc⟩ := ha
  unfold State.register
  rw [hhandle]
  split
  · exact ⟨g, c, rfl, hh, hc⟩
  · dsimp only
    rw [hadd]
    split
    · exact ⟨g, c, rfl, hh, hc⟩
    · exact ⟨_, c, rfl, hh.emit _ _ rfl, hc⟩

theorem removeHandler (ha : Alike hide L s s') :
    Alike hide L (s.removeHandler h) (s'.removeHandler h) := by
  have hhandle := ha.handle h
  obtain ⟨g, c, rfl, hh, hc⟩ := ha
  unfold State.removeHandler
  rw [hhandle]
  dsimp only [State.emit]
  split
  · exact ⟨_, c, rfl, hh.emit _ _ rfl, hc⟩
  · exact ⟨_, c, rfl, hh.emit _ _ rfl, hc⟩

theorem closeSocket (ha : Alike hide L s s') :
    Alike hide L (s.closeSocket id) (s'.closeSocket id) := by
  unfold State.closeSocket
  rw [ha.heap.soc]
  dsimp only
  split
  · exact ha.removeHandler.emit.setSoc _
  · exact ha.removeHandler

theorem destroySocket (ha : Alike hide L s s') :
    Alike hide (L \ {u | u.sock = id}) (s.destroySocket id) (s'.destroySocket id) := by
  unfold State.destroySocket
  rw [ha.heap.soc]
  dsimp only
  split
  · exact ha.closeSocket.onHeap ha.closeSocket.heap.unlink.release
  · exact ha.onHeap ha.heap.unlink.release

theorem acceptors (ha : Alike hide L s s') : s'.acceptors = s.acceptors := by
  obtain ⟨h, c, rfl, -, -⟩ := ha
  rfl

theorem listenSocket (ha : Alike hide L s s') (r : ListenResult) :
    Alike hide L (s.listenSocket a r).1 (s'.listenSocket a r).1 ∧
      (s'.listenSocket a r).2 = (s.listenSocket a r).2 := by
  unfold State.listenSocket
  rw [ha.acceptors]
  dsimp only
  split
  · exact ⟨ha.setAcceptor _, rfl⟩
  · split
    · exact ⟨ha.emit.setAcceptor _, rfl⟩
    · split
      · exact ⟨ha.emit.setAcceptor _, rfl⟩
      · split
        · exact ⟨ha.emit.setAcceptor _, rfl⟩
        · split
          · exact ⟨ha.emit.setAcceptor _, rfl⟩
          · exact ⟨ha.emit.setAcceptor _, rfl⟩

theorem listen (ha : Alike hide L s s') (cb : κ) (r : ListenResult) :
    Alike hide L (s.listen a cb r).1 (s'.listen a cb r).1 := by
  obtain ⟨hl, hok⟩ := ha.listenSocket (a := a) r
  unfold State.listen
  revert hl hok
  cases s.listenSocket a r with
  | mk s₁ ok =>
    cases s'.listenSocket a r with
    | mk s₁' ok' =>
      rintro hl rfl
      cases ok' with
      | false => exact hl
      | true =>
        dsimp only
        have hacc : s₁'.acceptors = s₁.acceptors := hl.acceptors
        rw [hacc]
        exact (hl.setAcceptor _).register

theorem closeAcceptor (ha : Alike hide L s s') :
    Alike hide L (s.closeAcceptor a) (s'.closeAcceptor a) := by
  unfold State.closeAcceptor
  rw [ha.acceptors]
  dsimp only
  split
  · rw [ha.removeHandler.acceptors]
    exact ha.removeHandler.emit.setAcceptor _
  · exact ha.removeHandler

theorem destroyAcceptor (ha : Alike hide L s s') :
    Alike hide L (s.destroyAcceptor a) (s'.destroyAcceptor a) := by
  unfold State.destroyAcceptor
  rw [ha.acceptors]
  dsimp only
  split
  · exact ha.closeAcceptor.setAcceptor _
  · exact ha.setAcceptor _

/-! ### Calls into user code -/

/-- With the same arguments the same function of the user runs. -/
theorem invoke (ha : Alike hide L s s') : Alike hide L (s.invoke v err bytes via)
    (s'.invoke v err bytes via) := by
  have hfn := (ha.heap.same v).fn
  obtain ⟨g, c, rfl, hh, hc⟩ := ha
  unfold State.invoke
  dsimp only at hfn ⊢
  cases hcb : (s.heap.tok v).cb with
  | none =>
    rw [hcb] at hfn
    rw [Option.map_eq_none_iff.mp hfn]
    exact ⟨g, c, rfl, hh, hc⟩
  | some cb =>
    rw [hcb] at hfn
    obtain ⟨cb', hcb', hfn'⟩ := Option.map_eq_some_iff.mp hfn
    rw [hcb']
    refine ⟨_, _, rfl, hh.emit _ _ rfl, ?_⟩
    simp only [Option.map_some, Invocation.shown, hfn']

theorem invokeAccept (ha : Alike hide L s s') (soc : Int) :
    Alike hide L (s.invokeAccept a err soc) (s'.invokeAccept a err soc) := by
  unfold State.invokeAccept
  rw [ha.acceptors]
  obtain ⟨g, c, rfl, hh, hc⟩ := ha
  split
  · exact ⟨g, c, rfl, hh, hc⟩
  · exact ⟨_, _, rfl, hh.emit _ _ rfl, rfl⟩

/-- A hang-up sets both errors before it looks at them. -/
theorem onCloseSocket (ha : Alike hide L s s') :
    Alike hide (L \ {u | u.sock = id}) (s.onCloseSocket id) (s'.onCloseSocket id) := by
  have hr : Alike hide (L \ {u | u.sock = id}) (s.resetErrs id) (s'.resetErrs id) := by
    refine (ha.onHeap ((ha.heap.setErr ECONNRESET .closed).setErr ECONNRESET .closed)).mono ?_
    rintro ⟨i, d⟩ ⟨⟨hu, hrt⟩, hwt⟩
    refine ⟨hu, ?_⟩
    rintro (rfl : i = id)
    cases d with
    | read => exact hrt rfl
    | write => exact hwt rfl
  have hmem : ∀ d : Dir, (⟨id, d⟩ : TokenId) ∉ L \ {u | u.sock = id} := fun d h => h.2 rfl
  unfold State.onCloseSocket
  dsimp only
  rw [hr.heap.mode, hr.heap.mode, hr.heap.err _ (hmem .read), hr.heap.err _ (hmem .write)]
  split
  · exact hr.invoke
  · split
    · exact hr.invoke
    · exact hr

theorem onCloseAcceptor (ha : Alike hide L s s') :
    Alike hide L (s.onCloseAcceptor a) (s'.onCloseAcceptor a) := by
  unfold State.onCloseAcceptor
  rw [ha.acceptors]
  exact (ha.setAcceptor _).invokeAccept _

end Alike

end State

/-! ### Errors of the waiting operation -/

/-- The token, while its operation waits. -/
def Heap.waits (h : Heap κ) (t : TokenId) : Set TokenId := {u | u = t ∧ (h.tok u).mode.pending}

/-- The states look alike, and the errors agree unless the operation of `t` waits. -/
def State.Twin (hide : Event → Bool) (t : TokenId) (s s' : State κ) : Prop :=
  s.Alike hide (s.heap.waits t) s'

namespace State

variable {hide : Event → Bool} {s s' s₁ s₁' : State κ} {t v : TokenId} {L : Set TokenId}
  {id : SockId} {a : AccId}
  {r : ReadResult} {w : WriteResult} {act : Action κ} {h : Handler}

/-- A step that leaves the mode of the token as it is, or makes the errors agree. -/
theorem Alike.twin (ha : Alike hide L s₁ s₁') (hL : L ⊆ s.heap.waits t)
    (hm : t ∈ L → (s₁.heap.tok t).mode = (s.heap.tok t).mode) : Twin hide t s₁ s₁' := by
  refine ha.mono fun u hu => ?_
  obtain ⟨rfl, hp⟩ := hL hu
  refine ⟨rfl, ?_⟩
  rw [hm hu]
  exact hp

theorem twin_onHeap {f : Heap κ → Heap κ} (ht : Twin hide t s s')
    (hf : (f s.heap).Alike hide ((f s.heap).waits t) (f s'.heap)) :
    Twin hide t (s.onHeap f) (s'.onHeap f) :=
  Alike.onHeap ht hf

theorem Twin.refl : Twin hide t s s :=
  ⟨s.heap, s.callback, rfl, ⟨fun _ => ⟨rfl, rfl, rfl, rfl, rfl, rfl⟩, fun _ _ => rfl, fun _ => rfl,
    fun _ => rfl, rfl, rfl, rfl, rfl⟩, rfl⟩

theorem Alike.twin_noted (ha : Alike hide (s.heap.waits t) s₁ s₁') (hn : Noted s.heap s₁.heap) :
    Twin hide t s₁ s₁' :=
  ha.twin le_rfl fun _ => congrArg Token.mode (hn.tok t)

theorem twin_onRead {h h' : Heap κ} (ha : h.Alike hide (h.waits t) h') :
    (h.onRead id r).Alike hide ((h.onRead id r).waits t) (h'.onRead id r) := by
  by_cases hm : (h.tok ⟨id, .read⟩).mode.pending
  · refine (ha.onRead_pending hm).mono ?_
    rintro u ⟨⟨rfl, hp⟩, hne⟩
    refine ⟨rfl, ?_⟩
    rw [Heap.onRead_progresses.other hne]
    exact hp
  · rw [Heap.onRead_idle hm, Heap.onRead_idle (by rwa [ha.mode])]
    exact ha

theorem twin_onWrite {h h' : Heap κ} (ha : h.Alike hide (h.waits t) h') :
    (h.onWrite id w).Alike hide ((h.onWrite id w).waits t) (h'.onWrite id w) := by
  by_cases hm : (h.tok ⟨id, .write⟩).mode = .all
  · refine (ha.onWrite_pending hm).mono ?_
    rintro u ⟨⟨rfl, hp⟩, hne⟩
    refine ⟨rfl, ?_⟩
    rw [Heap.onWrite_progresses.other hne]
    exact hp
  · rw [Heap.onWrite_idle hm, Heap.onWrite_idle (by rwa [ha.mode])]
    exact ha

theorem mode_onCloseSocket : ((s.onCloseSocket id).heap.tok v).mode = (s.heap.tok v).mode := by
  have hr : ((s.resetErrs id).heap.tok v).mode = (s.heap.tok v).mode := by
    rw [tok_resetErrs]
    split <;> rfl
  refine onCloseSocket_rule (P := fun s₁ => (s₁.heap.tok v).mode = (s.heap.tok v).mode) hr ?_
  intro u _
  rw [tok_invoke]
  exact hr

/-- A call that takes its token makes the errors agree. -/
theorem twin_of_begun {v : TokenId} {h₁ h₁' : Heap κ} (ht : Twin hide t s s')
    (ha : Heap.Alike hide (s.heap.waits t \ {v}) h₁ h₁')
    (ho : t ≠ v → h₁.tok t = s.heap.tok t) :
    Twin hide t { s with heap := h₁ } { s' with heap := h₁' } := by
  obtain ⟨g, c, rfl, hh, hc⟩ := ht
  refine Alike.twin (s := s) (L := s.heap.waits t \ {v}) ⟨h₁', c, rfl, ha, hc⟩
    Set.sdiff_subset fun hmem => ?_
  exact congrArg Token.mode (ho hmem.2)

/-- A call that is refused in both runs. -/
theorem twin_of_refused {v : TokenId} (ht : Twin hide t s s') (d : Detail) :
    Twin hide t { s with heap := s.heap.refuse v d } { s' with heap := s'.heap.refuse v d } := by
  obtain ⟨g, c, rfl, hh, hc⟩ := ht
  refine Alike.twin (s := s) (L := s.heap.waits t) ⟨_, c, rfl, hh.refuse d, hc⟩ le_rfl
    fun _ => ?_
  rw [Heap.tok_refuse]
  split
  · rename_i htv
    rw [htv]
  · rfl

/-- A call of the user is refused in both states, or taken in both. -/
theorem twin_call {d : Dir} {detail : Detail} {f : Heap κ → Heap κ × Bool} {q : Request κ}
    (ht : Twin hide t s s') (hv : q.token = ⟨id, d⟩) (hopens : s.heap.Opens q (f s.heap))
    (hbusy : ∀ h : Heap κ, (h.tok ⟨id, d⟩).mode ≠ .none → f h = (h.refuse ⟨id, d⟩ detail, false))
    (hfree : (s.heap.tok ⟨id, d⟩).mode = .none →
      Heap.Alike hide (s.heap.waits t \ {⟨id, d⟩}) (f s.heap).1 (f s'.heap).1) :
    Twin hide t (s.onHeap fun h => (f h).1) (s'.onHeap fun h => (f h).1) := by
  by_cases hm : (s.heap.tok ⟨id, d⟩).mode = .none
  · exact twin_of_begun ht (hfree hm) fun hne => hopens.other (hv ▸ hne)
  · have hr := twin_of_refused ht (v := ⟨id, d⟩) detail
    have hf : (f s.heap).1 = s.heap.refuse ⟨id, d⟩ detail := congrArg Prod.fst (hbusy _ hm)
    have hf' : (f s'.heap).1 = s'.heap.refuse ⟨id, d⟩ detail :=
      congrArg Prod.fst (hbusy _ (by rwa [ht.heap.mode]))
    rw [← hf, ← hf'] at hr
    exact hr

/-- The completion that is delivered is not one of a waiting operation. -/
theorem twin_complete {cur : TokenId} {rest : List TokenId} (hb : s.heap.Books)
    (hq : s.heap.queue = cur :: rest) (ht : Twin hide t s s') :
    Twin hide t ((s.onHeap (·.complete cur)).invoke cur
        ((s.onHeap (·.complete cur)).heap.tok cur).err
        ((s.onHeap (·.complete cur)).heap.tok cur).ioSize .completion)
      ((s'.onHeap (·.complete cur)).invoke cur
        ((s'.onHeap (·.complete cur)).heap.tok cur).err
        ((s'.onHeap (·.complete cur)).heap.tok cur).ioSize .completion) := by
  have hfin : (s.heap.tok cur).mode.finished := (hb.queued cur).mp (hq ▸ List.mem_cons_self)
  have hcur : cur ∉ s.heap.waits t := fun h => Mode.not_finished_of_pending h.2 hfin
  have hc : Alike hide (s.heap.waits t) (s.onHeap (·.complete cur))
      (s'.onHeap (·.complete cur)) := ht.onHeap ht.heap.complete
  rw [hc.heap.err cur hcur, (hc.heap.same cur).ioSize]
  refine hc.invoke.twin le_rfl fun hmem => ?_
  have hne : t ≠ cur := by
    rintro rfl
    exact hcur hmem
  rw [tok_invoke, heap_onHeap, Heap.tok_complete, if_neg hne]

end State

end EchoBenchmark.Proactor
