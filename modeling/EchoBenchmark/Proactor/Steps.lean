import EchoBenchmark.Proactor.Loop
import EchoBenchmark.Proactor.Effects

/-!
What one step of the machine can do to the tokens, the queue, the timer list and the history. The
invariants of whole runs are derived from `step_effect` and do not unfold the step again.
-/

namespace EchoBenchmark.Proactor

variable {κ : Type}

/-- Entries of the history that say nothing about a token or the life of a Socket. -/
def Event.isNote : Event → Prop
  | .copied .. | .registered .. | .removed .. | .polled .. | .dispatched .. | .accepted ..
  | .opened .. | .closedFd .. | .useAfterFree .. | .kernel .. => True
  | _ => False

/-- Nothing but notes, descriptors and buffers changed from `h` to `h'`. -/
structure Heap.Noted (h h' : Heap κ) : Prop where
  tok : ∀ t, h'.tok t = h.tok t
  live : ∀ id, h'.live id = h.live id
  soc : ∀ id, h'.soc id = h.soc id ∨ h'.soc id = INVALID_SOCKET
  queue : h'.queue = h.queue
  timerList : h'.timerList = h.timerList
  nextCall : h'.nextCall = h.nextCall
  log : ∃ evs, (∀ e ∈ evs, e.isNote) ∧ h'.log = evs ++ h.log

namespace Heap.Noted

variable {h h₁ h₂ : Heap κ}

theorem refl (h : Heap κ) : Noted h h :=
  ⟨fun _ => rfl, fun _ => rfl, fun _ => .inl rfl, rfl, rfl, rfl, [], by simp, rfl⟩

theorem trans (h₀ : Noted h h₁) (h₁' : Noted h₁ h₂) : Noted h h₂ := by
  obtain ⟨evs, he, hlog⟩ := h₀.log
  obtain ⟨evs', he', hlog'⟩ := h₁'.log
  refine ⟨fun t => (h₁'.tok t).trans (h₀.tok t), fun id => (h₁'.live id).trans (h₀.live id),
    fun id => (h₁'.soc id).elim (fun h => by rw [h]; exact h₀.soc id) .inr,
    h₁'.queue.trans h₀.queue, h₁'.timerList.trans h₀.timerList, h₁'.nextCall.trans h₀.nextCall,
    evs' ++ evs, ?_, by rw [hlog', hlog, List.append_assoc]⟩
  intro e hmem
  rcases List.mem_append.mp hmem with hmem | hmem
  · exact he' e hmem
  · exact he e hmem

theorem emit {e : Event} (hn : Noted h h₁) (he : e.isNote) : Noted h (h₁.emit e) :=
  hn.trans ⟨fun _ => rfl, fun _ => rfl, fun _ => .inl rfl, rfl, rfl, rfl, [e], by simpa using he,
    rfl⟩

theorem tv (hn : Noted h h₁) (t : TokenId) : h₁.tv t = h.tv t := congrArg Token.tv (hn.tok t)

end Heap.Noted

open Heap (Noted)

namespace State

variable {s s' : State κ} {h : Handler} {id : SockId} {a : AccId} {acceptor : Bool} {ctl : Int}
  {t : TokenId} {err : Error} {bytes : Int} {via : Via} {e : Event}

/-! ### Functions that change no token -/

@[simp] theorem heap_emit : (s.emit e).heap = s.heap.emit e := rfl
@[simp] theorem pc_emit : (s.emit e).pc = s.pc := rfl
@[simp] theorem callback_emit : (s.emit e).callback = s.callback := rfl
@[simp] theorem interest_emit : (s.emit e).interest = s.interest := rfl
@[simp] theorem deleted_emit : (s.emit e).deleted = s.deleted := rfl
@[simp] theorem acceptors_emit : (s.emit e).acceptors = s.acceptors := rfl
@[simp] theorem fd_emit : (s.emit e).fd = s.fd := rfl
@[simp] theorem stop_emit : (s.emit e).stop = s.stop := rfl

@[simp] theorem live_emit : (s.emit e).live h = s.live h := by cases h <;> rfl

@[simp] theorem heap_onHeap (f : Heap κ → Heap κ) : (s.onHeap f).heap = f s.heap := rfl
@[simp] theorem pc_onHeap (f : Heap κ → Heap κ) : (s.onHeap f).pc = s.pc := rfl
@[simp] theorem callback_onHeap (f : Heap κ → Heap κ) : (s.onHeap f).callback = s.callback := rfl
@[simp] theorem interest_onHeap (f : Heap κ → Heap κ) : (s.onHeap f).interest = s.interest := rfl
@[simp] theorem deleted_onHeap (f : Heap κ → Heap κ) : (s.onHeap f).deleted = s.deleted := rfl
@[simp] theorem acceptors_onHeap (f : Heap κ → Heap κ) : (s.onHeap f).acceptors = s.acceptors := rfl
@[simp] theorem fd_onHeap (f : Heap κ → Heap κ) : (s.onHeap f).fd = s.fd := rfl

@[simp] theorem heap_setAcceptor (c : Acceptor κ) : (s.setAcceptor a c).heap = s.heap := rfl
@[simp] theorem pc_setAcceptor (c : Acceptor κ) : (s.setAcceptor a c).pc = s.pc := rfl
@[simp] theorem callback_setAcceptor (c : Acceptor κ) :
    (s.setAcceptor a c).callback = s.callback := rfl
@[simp] theorem interest_setAcceptor (c : Acceptor κ) :
    (s.setAcceptor a c).interest = s.interest := rfl
@[simp] theorem deleted_setAcceptor (c : Acceptor κ) :
    (s.setAcceptor a c).deleted = s.deleted := rfl
@[simp] theorem fd_setAcceptor (c : Acceptor κ) : (s.setAcceptor a c).fd = s.fd := rfl

@[simp] theorem pc_fault : (s.fault h).pc = .undefined := rfl
@[simp] theorem callback_fault : (s.fault h).callback = none := rfl

theorem fault_noted {h₀ : Heap κ} (hn : Noted h₀ s.heap) : Noted h₀ (s.fault h).heap :=
  hn.emit (by trivial)

theorem tok_setSoc (soc : Int) : (s.setSoc id soc).heap.tok t = s.heap.tok t := by
  obtain ⟨i, d⟩ := t
  by_cases hi : i = id
  · subst hi
    cases d <;> simp [setSoc, Heap.tok, Socket.token]
  · simp [setSoc, Heap.tok, hi]

theorem live_setSoc (soc : Int) (j : SockId) :
    (s.setSoc id soc).heap.live j = s.heap.live j := by
  by_cases hi : j = id
  · subst hi
    simp [setSoc, Heap.live]
  · simp [setSoc, Heap.live, hi]

theorem soc_setSoc (soc : Int) (j : SockId) :
    (s.setSoc id soc).heap.soc j = if j = id then soc else s.heap.soc j := by
  by_cases hi : j = id
  · subst hi
    simp [setSoc, Heap.soc]
  · simp [setSoc, Heap.soc, hi]

theorem setSoc_noted {h₀ : Heap κ} (hn : Noted h₀ s.heap) :
    Noted h₀ (s.setSoc id INVALID_SOCKET).heap := by
  refine hn.trans ⟨fun _ => tok_setSoc _, live_setSoc _, fun j => ?_, rfl, rfl, rfl, [], by simp,
    rfl⟩
  rw [soc_setSoc]
  split
  · exact .inr rfl
  · exact .inl rfl

theorem register_noted {h₀ : Heap κ} (hn : Noted h₀ s.heap) :
    Noted h₀ (s.register h acceptor ctl).1.heap := by
  unfold register
  split
  · exact hn
  · dsimp only
    split
    · exact hn
    · exact hn.emit (by trivial)

@[simp] theorem pc_register : (s.register h acceptor ctl).1.pc = s.pc := by
  unfold register
  split
  · rfl
  · dsimp only
    split <;> rfl

@[simp] theorem callback_register : (s.register h acceptor ctl).1.callback = s.callback := by
  unfold register
  split
  · rfl
  · dsimp only
    split <;> rfl

@[simp] theorem deleted_register : (s.register h acceptor ctl).1.deleted = s.deleted := by
  unfold register
  split
  · rfl
  · dsimp only
    split <;> rfl

@[simp] theorem heap_removeHandler : (s.removeHandler h).heap = s.heap.emit (.removed h) := by
  unfold removeHandler
  dsimp only
  split <;> rfl

@[simp] theorem pc_removeHandler : (s.removeHandler h).pc = s.pc := by
  unfold removeHandler
  dsimp only
  split <;> rfl

@[simp] theorem callback_removeHandler : (s.removeHandler h).callback = s.callback := by
  unfold removeHandler
  dsimp only
  split <;> rfl

@[simp] theorem deleted_removeHandler : (s.removeHandler h).deleted = s.deleted ++ [h] := by
  unfold removeHandler
  dsimp only
  split <;> rfl

@[simp] theorem acceptors_removeHandler : (s.removeHandler h).acceptors = s.acceptors := by
  unfold removeHandler
  dsimp only
  split <;> rfl

theorem closeSocket_noted : Noted s.heap (s.closeSocket id).heap := by
  have hr : Noted s.heap (s.removeHandler (.socket id)).heap := by
    rw [heap_removeHandler]
    exact (Noted.refl s.heap).emit (by trivial)
  unfold closeSocket
  dsimp only
  split
  · exact setSoc_noted (hr.emit (by trivial))
  · exact hr

@[simp] theorem pc_closeSocket : (s.closeSocket id).pc = s.pc := by
  unfold closeSocket
  dsimp only
  split <;> simp [setSoc]

@[simp] theorem callback_closeSocket : (s.closeSocket id).callback = s.callback := by
  unfold closeSocket
  dsimp only
  split <;> simp [setSoc]

@[simp] theorem deleted_closeSocket :
    (s.closeSocket id).deleted = s.deleted ++ [.socket id] := by
  unfold closeSocket
  dsimp only
  split <;> simp [setSoc]

@[simp] theorem acceptors_closeSocket : (s.closeSocket id).acceptors = s.acceptors := by
  unfold closeSocket removeHandler
  dsimp only
  split <;> split <;> rfl

theorem soc_closeSocket : (s.closeSocket id).heap.soc id = INVALID_SOCKET := by
  unfold closeSocket
  dsimp only
  split
  · rw [soc_setSoc, if_pos rfl]
  · rename_i h
    rw [heap_removeHandler]
    exact not_not.mp h

theorem closeAcceptor_noted : Noted s.heap (s.closeAcceptor a).heap := by
  have hr : Noted s.heap (s.removeHandler (.acceptor a)).heap := by
    rw [heap_removeHandler]
    exact (Noted.refl s.heap).emit (by trivial)
  unfold closeAcceptor
  dsimp only
  split
  · exact hr.emit (by trivial)
  · exact hr

@[simp] theorem pc_closeAcceptor : (s.closeAcceptor a).pc = s.pc := by
  unfold closeAcceptor
  dsimp only
  split <;> simp

@[simp] theorem callback_closeAcceptor : (s.closeAcceptor a).callback = s.callback := by
  unfold closeAcceptor
  dsimp only
  split <;> simp

@[simp] theorem deleted_closeAcceptor :
    (s.closeAcceptor a).deleted = s.deleted ++ [.acceptor a] := by
  unfold closeAcceptor
  dsimp only
  split <;> simp

theorem destroyAcceptor_noted : Noted s.heap (s.destroyAcceptor a).heap := by
  unfold destroyAcceptor
  dsimp only
  split
  · exact closeAcceptor_noted
  · exact Noted.refl _

@[simp] theorem pc_destroyAcceptor : (s.destroyAcceptor a).pc = s.pc := by
  unfold destroyAcceptor
  dsimp only
  split <;> simp

@[simp] theorem callback_destroyAcceptor : (s.destroyAcceptor a).callback = s.callback := by
  unfold destroyAcceptor
  dsimp only
  split <;> simp

/-- `_listen` opens a descriptor, or does not, and changes the acceptor. -/
theorem listenSocket_shape (r : ListenResult) :
    ∃ s₁ c, (s.listenSocket a r).1 = s₁.setAcceptor a c ∧
    (s₁ = s ∨ ∃ fd, s₁ = s.emit (.opened a .createSocket fd)) := by
  unfold listenSocket
  dsimp only
  cases r.socket with
  | error errno => exact ⟨s, _, rfl, .inl rfl⟩
  | ok fd =>
    dsimp only
    split
    · exact ⟨_, _, rfl, .inr ⟨fd, rfl⟩⟩
    · split
      · exact ⟨_, _, rfl, .inr ⟨fd, rfl⟩⟩
      · split
        · exact ⟨_, _, rfl, .inr ⟨fd, rfl⟩⟩
        · split <;> exact ⟨_, _, rfl, .inr ⟨fd, rfl⟩⟩

theorem listenSocket_noted (r : ListenResult) : Noted s.heap (s.listenSocket a r).1.heap := by
  obtain ⟨s₁, c, he, rfl | ⟨fd, rfl⟩⟩ := listenSocket_shape (s := s) (a := a) r
  · rw [he]
    exact Noted.refl _
  · rw [he]
    exact (Noted.refl s.heap).emit (by trivial)

theorem listenSocket_frame (r : ListenResult) : (s.listenSocket a r).1.pc = s.pc ∧
    (s.listenSocket a r).1.callback = s.callback ∧
    (s.listenSocket a r).1.deleted = s.deleted := by
  obtain ⟨s₁, c, he, rfl | ⟨fd, rfl⟩⟩ := listenSocket_shape (s := s) (a := a) r <;>
    rw [he] <;> exact ⟨rfl, rfl, rfl⟩

/-- `listen` is `_listen`, followed by a registration when that succeeded. -/
theorem listen_shape (cb : κ) (r : ListenResult) :
    (s.listen a cb r).1 = (s.listenSocket a r).1 ∨
    ∃ c, (s.listen a cb r).1 =
      (((s.listenSocket a r).1.setAcceptor a c).register (.acceptor a) true r.epollCtl).1 := by
  unfold listen
  split
  · rename_i s₁ he
    rw [he]
    exact .inl rfl
  · rename_i s₁ he
    rw [he]
    exact .inr ⟨_, rfl⟩

theorem listen_noted (cb : κ) (r : ListenResult) : Noted s.heap (s.listen a cb r).1.heap := by
  rcases listen_shape (s := s) (a := a) cb r with he | ⟨c, he⟩
  · rw [he]
    exact listenSocket_noted r
  · rw [he]
    exact register_noted (listenSocket_noted r)

theorem listen_frame (cb : κ) (r : ListenResult) : (s.listen a cb r).1.pc = s.pc ∧
    (s.listen a cb r).1.callback = s.callback ∧ (s.listen a cb r).1.deleted = s.deleted := by
  obtain ⟨hp, hc, hd⟩ := listenSocket_frame (s := s) (a := a) r
  rcases listen_shape (s := s) (a := a) cb r with he | ⟨c, he⟩
  · rw [he]
    exact ⟨hp, hc, hd⟩
  · rw [he]
    simp [hp, hc, hd]

theorem closeHandle_noted {h₀ : Heap κ} (hn : Noted h₀ s.heap) :
    Noted h₀ s.closeHandle.heap := by
  unfold closeHandle
  split
  · exact hn.emit (by trivial)
  · exact hn

@[simp] theorem callback_closeHandle : s.closeHandle.callback = s.callback := by
  unfold closeHandle
  split <;> rfl

@[simp] theorem deleted_closeHandle : s.closeHandle.deleted = s.deleted := by
  unfold closeHandle
  split <;> rfl

/-! ### Calls into user code -/

/-- A callback runs, or an empty one throws. -/
theorem invoke_cases (s : State κ) (t : TokenId) (err : Error) (bytes : Int) (via : Via) :
    ((s.heap.tok t).cb = none ∧ s.invoke t err bytes via = { s with pc := .thrown }) ∨
    ∃ cb, (s.heap.tok t).cb = some cb ∧
      s.invoke t err bytes via = { s.emit (.called t cb.call err.code bytes via) with
        callback := some (.io t cb err bytes via) } := by
  unfold invoke
  cases hcb : (s.heap.tok t).cb with
  | none => exact .inl ⟨rfl, rfl⟩
  | some cb => exact .inr ⟨cb, rfl, rfl⟩

@[simp] theorem tok_invoke {u : TokenId} :
    (s.invoke t err bytes via).heap.tok u = s.heap.tok u := by
  unfold invoke
  split <;> rfl

@[simp] theorem queue_invoke : (s.invoke t err bytes via).heap.queue = s.heap.queue := by
  unfold invoke
  split <;> rfl

@[simp] theorem timerList_invoke :
    (s.invoke t err bytes via).heap.timerList = s.heap.timerList := by
  unfold invoke
  split <;> rfl

@[simp] theorem live_invoke : (s.invoke t err bytes via).heap.live id = s.heap.live id := by
  unfold invoke
  split <;> rfl

@[simp] theorem soc_invoke : (s.invoke t err bytes via).heap.soc id = s.heap.soc id := by
  unfold invoke
  split <;> rfl

theorem tok_resetErrs (s : State κ) (id : SockId) (u : TokenId) : (s.resetErrs id).heap.tok u =
    if u.sock = id then { s.heap.tok u with err := ⟨ECONNRESET, .closed⟩ } else s.heap.tok u := by
  obtain ⟨i, d⟩ := u
  rw [resetErrs, heap_onHeap, Heap.tok_setErr, Heap.tok_setErr]
  by_cases hi : i = id
  · subst hi
    cases d <;> simp [Heap.tok_setErr]
  · simp [Heap.tok_setErr, hi]

/-- `onClose` calls back the read unless it is done, else the write unless it is done. -/
theorem onCloseSocket_cases (s : State κ) (id : SockId) :
    ((s.heap.tok ⟨id, .read⟩).mode ≠ .done ∧ s.onCloseSocket id =
      (s.resetErrs id).invoke ⟨id, .read⟩ ⟨ECONNRESET, .closed⟩ 0 .hangup) ∨
    ((s.heap.tok ⟨id, .read⟩).mode = .done ∧ (s.heap.tok ⟨id, .write⟩).mode ≠ .done ∧
      s.onCloseSocket id =
        (s.resetErrs id).invoke ⟨id, .write⟩ ⟨ECONNRESET, .closed⟩ 0 .hangup) ∨
    ((s.heap.tok ⟨id, .read⟩).mode = .done ∧ (s.heap.tok ⟨id, .write⟩).mode = .done ∧
      s.onCloseSocket id = s.resetErrs id) := by
  unfold onCloseSocket
  simp only [tok_resetErrs, if_true]
  by_cases hr : (s.heap.tok ⟨id, .read⟩).mode = .done
  · by_cases hw : (s.heap.tok ⟨id, .write⟩).mode = .done
    · exact .inr (.inr ⟨hr, hw, by simp [hr, hw]⟩)
    · exact .inr (.inl ⟨hr, hw, by simp [hr, hw]⟩)
  · exact .inl ⟨hr, by simp [hr]⟩

/-- What the reset errors and a call into user code both keep, `onClose` keeps. -/
theorem onCloseSocket_rule {P : State κ → Prop} (hreset : P (s.resetErrs id))
    (hinvoke : ∀ t, t.sock = id →
      P ((s.resetErrs id).invoke t ⟨ECONNRESET, .closed⟩ 0 .hangup)) :
    P (s.onCloseSocket id) := by
  obtain ⟨-, he⟩ | ⟨-, -, he⟩ | ⟨-, -, he⟩ := onCloseSocket_cases s id
  · rw [he]
    exact hinvoke _ rfl
  · rw [he]
    exact hinvoke _ rfl
  · rw [he]
    exact hreset

@[simp] theorem queue_onCloseSocket : (s.onCloseSocket id).heap.queue = s.heap.queue :=
  onCloseSocket_rule (P := fun s' => s'.heap.queue = s.heap.queue) rfl fun _ _ => queue_invoke

theorem invokeAccept_cases (s : State κ) (a : AccId) (err : Error) (soc : Int) :
    s.invokeAccept a err soc = { s with pc := .thrown } ∨
    ∃ inv, s.invokeAccept a err soc =
      { s.emit (.accepted a err.code soc) with callback := some inv } := by
  unfold invokeAccept
  cases (s.acceptors a).cb with
  | none => exact .inl rfl
  | some fn => exact .inr ⟨_, rfl⟩

theorem invokeAccept_noted {h₀ : Heap κ} (hn : Noted h₀ s.heap) (soc : Int) :
    Noted h₀ (s.invokeAccept a err soc).heap := by
  rcases invokeAccept_cases s a err soc with he | ⟨inv, he⟩
  · rw [he]
    exact hn
  · rw [he]
    exact hn.emit (by trivial)

/-! ### Dispatching to objects that are there -/

section Live

variable {ev : PollEvent} {rest : List PollEvent} {r : ReadResult} {w : WriteResult}

theorem dispatchClose_socket (hl : s.heap.live id = true) : s.dispatchClose (.socket id) =
    (s.emit (.dispatched (.socket id) .onClose)).onCloseSocket id := by
  have hl : (s.emit (.dispatched (.socket id) .onClose)).live (.socket id) = true := hl
  simp [dispatchClose, hl]

theorem dispatchClose_acceptor (hl : (s.acceptors a).live = true) :
    s.dispatchClose (.acceptor a) =
      (s.emit (.dispatched (.acceptor a) .onClose)).onCloseAcceptor a := by
  have hl : (s.emit (.dispatched (.acceptor a) .onClose)).live (.acceptor a) = true := hl
  simp [dispatchClose, hl]

theorem dispatchRead_socket (hev : ev.handler = .socket id) (hl : s.heap.live id = true) :
    s.dispatchRead ev rest r =
      { (s.emit (.dispatched (.socket id) .onRead)).onHeap (·.onRead id r) with
        pc := .drainRead ev rest } := by
  have hl : (s.emit (.dispatched (.socket id) .onRead)).live (.socket id) = true := hl
  simp [dispatchRead, hev, hl]

theorem dispatchRead_acceptor (hev : ev.handler = .acceptor a)
    (hl : (s.acceptors a).live = true) : s.dispatchRead ev rest r =
      { s.emit (.dispatched (.acceptor a) .onRead) with pc := .acceptLoop a ev rest } := by
  have hl : (s.emit (.dispatched (.acceptor a) .onRead)).live (.acceptor a) = true := hl
  simp [dispatchRead, hev, hl]

theorem dispatchWrite_socket (hl : s.heap.live id = true) :
    s.dispatchWrite (.socket id) rest w =
      { (s.emit (.dispatched (.socket id) .onWrite)).onHeap (·.onWrite id w) with
        pc := .drainWrite rest } := by
  have hl : (s.emit (.dispatched (.socket id) .onWrite)).live (.socket id) = true := hl
  simp [dispatchWrite, hl]

theorem dispatchWrite_acceptor (hl : (s.acceptors a).live = true) :
    s.dispatchWrite (.acceptor a) rest w =
      { s.emit (.dispatched (.acceptor a) .onWrite) with pc := .drainWrite rest } := by
  have hl : (s.emit (.dispatched (.acceptor a) .onWrite)).live (.acceptor a) = true := hl
  simp [dispatchWrite, hl]

end Live

end State

/-! ### Calls of the Socket functions -/

/-- What an action asks for, if it is a call of `readSome`, `readAll` or `writeAll`. -/
def Action.request : Action κ → Option (Request κ)
  | .readSome id buf size cb ms r now =>
    some ⟨⟨id, .read⟩, cb, ms, now, .some, fun _ => .sysRead id buf size r⟩
  | .readAll id buf size cb ms r now =>
    some ⟨⟨id, .read⟩, cb, ms, now, .all, fun _ => .sysRead id buf size r⟩
  | .writeAll id buf size cb ms w now =>
    some ⟨⟨id, .write⟩, cb, ms, now, .all,
      fun mem => .sysWrite id buf size w (mem.load buf w.count)⟩
  | _ => none

/-- What such a call returns. -/
def State.answer (s : State κ) : Action κ → Bool
  | .readSome id buf size cb ms r now => (s.heap.readSome id buf size cb ms r now).2
  | .readAll id buf size cb ms r now => (s.heap.readAll id buf size cb ms r now).2
  | .writeAll id buf size cb ms r now => (s.heap.writeAll id buf size cb ms r now).2
  | _ => false

/-! ### The effect of a step -/

/-- Outside of the two places that deliver completions, and of the ends of `run` by misuse. -/
def Pc.steady : Pc → Prop
  | .outside | .poll | .event _ | .acceptLoop .. | .output .. | .timer _ => True
  | .drainRead .. | .drainWrite _ | .thrown | .undefined => False

/-- In a loop of `_processCompletion`. -/
def Pc.draining : Pc → Prop
  | .drainRead .. | .drainWrite _ => True
  | _ => False

theorem Pc.draining.not_steady {p : Pc} (hd : p.draining) : ¬ p.steady := by
  cases p with
  | drainRead | drainWrite => exact id
  | _ => exact hd.elim

/-- The event that calls `onRead` or `onWrite` of a Socket for one of its tokens. -/
inductive Turn (s s' : State κ) : TokenId → Prop
  | read {id : SockId} {ev : PollEvent} {rest : List PollEvent} : s.pc = .event (ev :: rest) →
      ev.events.hangup = false → ev.events.input = true → ev.handler = .socket id →
      s'.pc = .drainRead ev rest → Turn s s' ⟨id, .read⟩
  | write {id : SockId} {ev : PollEvent} {rest : List PollEvent} : s.pc = .output ev rest →
      ev.events.pollout = true → ev.handler = .socket id → s'.pc = .drainWrite rest →
      Turn s s' ⟨id, .write⟩

theorem Turn.draining {s s' : State κ} {t : TokenId} (ht : Turn s s' t) : s'.pc.draining := by
  cases ht with
  | read _ _ _ _ hpc | write _ _ _ hpc =>
    rw [hpc]
    trivial

/-- What a round of `_processCompletion` does: it ends the drain, or it completes the first token.
-/
inductive CompletionRound (s s' : State κ) : Prop
  | ends {p : Pc} : s.pc.draining → s.heap.queue = [] → s.drained = some s' → p.steady →
      s' = { s with pc := p } → CompletionRound s s'
  | faults {t : TokenId} {rest : List TokenId} : s.pc.draining → s.heap.queue = t :: rest →
      s.heap.live t.sock = false → s' = s.fault (.socket t.sock) → CompletionRound s s'
  | completes {t : TokenId} {rest : List TokenId} : s.pc.draining → s.heap.queue = t :: rest →
      s.heap.live t.sock = true →
      s' = (s.onHeap (·.complete t)).invoke t (s.heap.tok t).err (s.heap.tok t).ioSize
        .completion → CompletionRound s s'

/-- What a round of `_processTimer` does: it ends the scan, or it expires the first token. -/
inductive TimerRound (s s' : State κ) : Prop
  | ends {now : Timeval} : s.pc = .timer now → s' = { s with pc := .poll } → TimerRound s s'
  | faults {t : TokenId} {rest : List TokenId} {now : Timeval} : s.pc = .timer now →
      s.heap.timerList = t :: rest → s.heap.live t.sock = false →
      s' = s.fault (.socket t.sock) → TimerRound s s'
  | expires {t : TokenId} {rest : List TokenId} {now : Timeval} : s.pc = .timer now →
      s.heap.timerList = t :: rest → s.heap.live t.sock = true →
      timercmp (s.heap.tv t) now = true →
      s' = (s.onHeap (·.expire t rest)).invoke t ⟨ETIMEDOUT, .timeout⟩ 0 .timer → TimerRound s s'

/-- What the dispatch of an event does: it calls a method of the handler, or only moves on. -/
inductive DispatchRound (s : State κ) (r : ReadResult) (w : WriteResult) (s' : State κ) : Prop
  | closeLost {ev : PollEvent} {rest : List PollEvent} : s.pc = .event (ev :: rest) →
      ev.events.hangup = true →
      s' = ({ s with pc := .event rest }.emit (.dispatched ev.handler .onClose)).fault ev.handler →
      DispatchRound s r w s'
  | closeSocket {ev : PollEvent} {rest : List PollEvent} {id : SockId} :
      s.pc = .event (ev :: rest) → ev.events.hangup = true → ev.handler = .socket id →
      s.heap.live id = true →
      s' = ({ s with pc := .event rest }.emit (.dispatched ev.handler .onClose)).onCloseSocket id →
      DispatchRound s r w s'
  | closeAcceptor {ev : PollEvent} {rest : List PollEvent} {a : AccId} :
      s.pc = .event (ev :: rest) → ev.events.hangup = true → ev.handler = .acceptor a →
      (s.acceptors a).live = true →
      s' = ({ s with pc := .event rest }.emit (.dispatched ev.handler .onClose)).onCloseAcceptor a →
      DispatchRound s r w s'
  | readLost {ev : PollEvent} {rest : List PollEvent} : s.pc = .event (ev :: rest) →
      ev.events.hangup = false → ev.events.input = true →
      s' = ({ s with deleted := [] }.emit (.dispatched ev.handler .onRead)).fault ev.handler →
      DispatchRound s r w s'
  | readSocket {ev : PollEvent} {rest : List PollEvent} {id : SockId} :
      s.pc = .event (ev :: rest) → ev.events.hangup = false → ev.events.input = true →
      ev.handler = .socket id → s.heap.live id = true →
      s' = { ({ s with deleted := [] }.emit (.dispatched ev.handler .onRead)).onHeap
        (·.onRead id r) with pc := .drainRead ev rest } → DispatchRound s r w s'
  | readAcceptor {ev : PollEvent} {rest : List PollEvent} {a : AccId} :
      s.pc = .event (ev :: rest) → ev.events.hangup = false → ev.events.input = true →
      ev.handler = .acceptor a →
      s' = { { s with deleted := [] }.emit (.dispatched ev.handler .onRead) with
        pc := .acceptLoop a ev rest } → DispatchRound s r w s'
  | skips {ev : PollEvent} {rest : List PollEvent} : s.pc = .event (ev :: rest) →
      ev.events.hangup = false → ev.events.input = false → s' = { s with pc := .output ev rest } →
      DispatchRound s r w s'
  | writeLost {ev : PollEvent} {rest : List PollEvent} : s.pc = .output ev rest →
      ev.events.pollout = true → s' = (s.emit (.dispatched ev.handler .onWrite)).fault ev.handler →
      DispatchRound s r w s'
  | writeSocket {ev : PollEvent} {rest : List PollEvent} {id : SockId} :
      s.pc = .output ev rest → ev.events.pollout = true → ev.handler = .socket id →
      s.heap.live id = true →
      s' = { (s.emit (.dispatched ev.handler .onWrite)).onHeap (·.onWrite id w) with
        pc := .drainWrite rest } → DispatchRound s r w s'
  | writeAcceptor {ev : PollEvent} {rest : List PollEvent} {a : AccId} :
      s.pc = .output ev rest → ev.events.pollout = true → ev.handler = .acceptor a →
      s' = { s.emit (.dispatched ev.handler .onWrite) with pc := .drainWrite rest } →
      DispatchRound s r w s'
  | passes {ev : PollEvent} {rest : List PollEvent} : s.pc = .output ev rest →
      ev.events.pollout = false → s' = { s with pc := .event rest } → DispatchRound s r w s'

/-- What a round of the loop of `Acceptor::onRead` does: it returns, with a callback or without, or
hands a connection over. `s₁` is the state after `::accept`. -/
inductive AcceptTurn (s s' : State κ) : Prop
  | lost {a : AccId} {ev : PollEvent} {rest : List PollEvent} : s.pc = .acceptLoop a ev rest →
      s' = s.fault (.acceptor a) → AcceptTurn s s'
  | returns {a : AccId} {ev : PollEvent} {rest : List PollEvent} {err : Error} {s₁ : State κ} :
      s.pc = .acceptLoop a ev rest → s₁ = s ∨ (∃ fd, s₁ = s.emit (.opened a .accept fd)) →
      s' = { s₁.setAcceptor a { s.acceptors a with err := err } with pc := .drainRead ev rest } →
      AcceptTurn s s'
  | failed {a : AccId} {ev : PollEvent} {rest : List PollEvent} {err : Error} {s₁ : State κ} :
      s.pc = .acceptLoop a ev rest → s₁ = s ∨ (∃ fd, s₁ = s.emit (.opened a .accept fd)) →
      s' = { s₁.setAcceptor a { s.acceptors a with err := err } with
        pc := .drainRead ev rest }.invokeAccept a err (-1) → AcceptTurn s s'
  | passed {a : AccId} {ev : PollEvent} {rest : List PollEvent} {err : Error} {fd : Int} :
      s.pc = .acceptLoop a ev rest →
      s' = ((s.emit (.opened a .accept fd)).setAcceptor a
        { s.acceptors a with err := err }).invokeAccept a err fd → AcceptTurn s s'

/-- What the head of the loop of `run` does. -/
inductive PollRound (s : State κ) (r : PollResult) (s' : State κ) : Prop
  | leaves {err : Error} : s' = { { s with err := err }.closeHandle with pc := .outside } →
      PollRound s r s'
  | idles : s' = { s with pc := .event [] } → PollRound s r s'
  | polls {evs : List PollEvent} : r = .events evs → s.reports evs →
      s' = { s.emit (.polled evs) with pc := .event evs } → PollRound s r s'

/-- What a step does to the tokens, with the place it does it from. -/
inductive Effect (s : State κ) (act : Action κ) (s' : State κ) : Prop
  | noted : Noted s.heap s'.heap → (s'.pc.steady → s.pc.steady ∨ s.heap.queue = []) →
      Effect s act s'
  | created {id : SockId} {soc : Int} {rtv wtv : Timeval} : s.heap.live id = false →
      Noted (s.heap.create id soc rtv wtv) s'.heap → s'.pc = s.pc → Effect s act s'
  | opened {q : Request κ} : act.request = some q → s.heap.live q.token.sock = true →
      s.heap.Opens q (s'.heap, s.answer act) → s'.pc = s.pc → Effect s act s'
  | progressed {t : TokenId} {h₁ : Heap κ} : s.heap.live t.sock = true → Noted s.heap h₁ →
      h₁.Progresses t s'.heap → Turn s s' t → Effect s act s'
  | destroyed {id : SockId} {h₁ : Heap κ} : s.heap.live id = true → Noted s.heap h₁ →
      s'.heap = (h₁.unlink id).release id → s'.pc = s.pc → Effect s act s'
  | completed {t : TokenId} {rest : List TokenId} : s.callback = none → s.pc.draining →
      s.heap.queue = t :: rest → s.heap.live t.sock = true →
      s' = (s.onHeap (·.complete t)).invoke t (s.heap.tok t).err (s.heap.tok t).ioSize
        .completion → Effect s act s'
  | fired {t : TokenId} {rest : List TokenId} {now : Timeval} : s.callback = none →
      s.pc = .timer now → s.heap.timerList = t :: rest → s.heap.live t.sock = true →
      timercmp (s.heap.tv t) now = true →
      s' = (s.onHeap (·.expire t rest)).invoke t ⟨ETIMEDOUT, .timeout⟩ 0 .timer → Effect s act s'
  | hungup {id : SockId} {ev : PollEvent} {rest : List PollEvent} {r : ReadResult}
      {w : WriteResult} : act = .dispatch r w → s.callback = none →
      s.pc = .event (ev :: rest) → ev.events.hangup = true → ev.handler = .socket id →
      s.heap.live id = true →
      s' = ({ s with pc := .event rest }.emit (.dispatched ev.handler .onClose)).onCloseSocket id →
      Effect s act s'

namespace State

variable {s s' : State κ} {act : Action κ}

theorem drained_cases (hs : s.drained = some s') :
    ∃ p : Pc, p.steady ∧ s' = { s with pc := p } := by
  unfold drained at hs
  split at hs
  · split at hs
    · exact ⟨.event _, trivial, (Option.some.inj hs).symm⟩
    · exact ⟨.output _ _, trivial, (Option.some.inj hs).symm⟩
  · exact ⟨.event _, trivial, (Option.some.inj hs).symm⟩
  · cases hs

theorem processCompletion_cases (hs : s.processCompletion = some s') : CompletionRound s s' := by
  have hd : s.pc.draining := by
    cases hpc : s.pc with
    | drainRead | drainWrite => trivial
    | _ => simp [processCompletion, hpc] at hs
  cases hq : s.heap.queue with
  | nil =>
    have hs' : s.drained = some s' := by
      unfold processCompletion at hs
      rw [hq] at hs
      split at hs
      · exact hs
      · exact hs
      · cases hs
    obtain ⟨p, hp, he⟩ := drained_cases hs'
    exact .ends hd hq hs' hp he
  | cons t rest =>
    cases hl : s.heap.live t.sock with
    | false =>
      unfold processCompletion at hs
      simp only [hq, hl, if_true] at hs
      split at hs
      · exact .faults hd hq hl (Option.some.inj hs).symm
      · exact .faults hd hq hl (Option.some.inj hs).symm
      · cases hs
    | true =>
      have htok : ((s.onHeap (·.complete t)).heap.tok t).err = (s.heap.tok t).err ∧
          ((s.onHeap (·.complete t)).heap.tok t).ioSize = (s.heap.tok t).ioSize := by
        simp [Heap.complete]
      unfold processCompletion at hs
      simp only [hq, hl, Bool.true_eq_false, if_false, htok.1, htok.2] at hs
      split at hs
      · exact .completes hd hq hl (Option.some.inj hs).symm
      · exact .completes hd hq hl (Option.some.inj hs).symm
      · cases hs

theorem processTimer_cases (hs : s.processTimer = some s') : TimerRound s s' := by
  unfold processTimer at hs
  split at hs
  · rename_i now hpc
    split at hs
    · exact .ends hpc (Option.some.inj hs).symm
    · rename_i t rest hq
      split at hs
      · rename_i hl
        exact .faults hpc hq hl (Option.some.inj hs).symm
      · rename_i hl
        split at hs
        · rename_i hlt
          refine .expires hpc hq (by simpa using hl) hlt ?_
          rw [← Option.some.inj hs]
          simp [Heap.expire, Heap.tok_setErr]
        · exact .ends hpc (Option.some.inj hs).symm
  · cases hs

theorem dispatch_cases {r : ReadResult} {w : WriteResult} (hs : s.dispatch r w = some s') :
    DispatchRound s r w s' := by
  unfold dispatch at hs
  split at hs
  · rename_i ev rest hpc
    split at hs
    · rename_i hup
      cases hs
      unfold dispatchClose
      dsimp only
      split
      · exact .closeLost hpc hup rfl
      · rename_i hl
        rw [live_emit] at hl
        split
        · rename_i hid
          rw [hid] at hl
          exact .closeSocket hpc hup hid (Bool.of_not_eq_false hl) (by rw [hid])
        · rename_i ha
          rw [ha] at hl
          exact .closeAcceptor hpc hup ha (Bool.of_not_eq_false hl) (by rw [ha])
    · rename_i hup
      rw [Bool.not_eq_true] at hup
      split at hs
      · rename_i hin
        cases hs
        unfold dispatchRead
        dsimp only
        split
        · exact .readLost hpc hup hin rfl
        · rename_i hl
          rw [live_emit] at hl
          split
          · rename_i hid
            rw [hid] at hl
            exact .readSocket hpc hup hin hid (Bool.of_not_eq_false hl) rfl
          · rename_i ha
            exact .readAcceptor hpc hup hin ha rfl
      · rename_i hin
        cases hs
        exact .skips hpc hup (Bool.not_eq_true _ ▸ hin) rfl
  · rename_i ev rest hpc
    split at hs
    · rename_i hout
      cases hs
      unfold dispatchWrite
      dsimp only
      split
      · exact .writeLost hpc hout rfl
      · rename_i hl
        rw [live_emit] at hl
        split
        · rename_i hid
          rw [hid] at hl
          exact .writeSocket hpc hout hid (Bool.of_not_eq_false hl) rfl
        · rename_i ha
          exact .writeAcceptor hpc hout ha rfl
    · rename_i hout
      cases hs
      exact .passes hpc (Bool.not_eq_true _ ▸ hout) rfl
  · cases hs

theorem accept_cases {r : AcceptResult} (hs : s.accept r = some s') : AcceptTurn s s' := by
  unfold accept at hs
  split at hs
  · rename_i a ev rest hpc
    split at hs
    · cases hs
      exact .lost hpc rfl
    · dsimp only at hs
      split at hs
      · split at hs
        · cases hs
          exact .returns hpc (.inl rfl) rfl
        · cases hs
          exact .failed hpc (.inl rfl) rfl
      · split at hs
        · split at hs
          · cases hs
            exact .returns hpc (.inr ⟨_, rfl⟩) rfl
          · cases hs
            exact .failed hpc (.inr ⟨_, rfl⟩) rfl
        · cases hs
          exact .passed hpc rfl
  · cases hs

theorem epollWait_cases {r : PollResult} (hs : s.epollWait r = some s') : PollRound s r s' := by
  unfold epollWait at hs
  split at hs
  · cases hs
    exact .leaves rfl
  · split at hs
    · cases hs
      exact .leaves rfl
    · split at hs
      · cases hs
        exact .idles rfl
      · cases hs
    · split at hs
      · rename_i hr
        cases hs
        exact .polls rfl hr rfl
      · cases hs

theorem user_cases {h : Handler} {f : State κ → State κ} (hs : s.user h f = some s') :
    s.userActive = true ∧ (s.live h = false ∧ s' = s.fault h ∨ s.live h = true ∧ s' = f s) := by
  unfold user at hs
  split at hs
  · rename_i hu
    refine ⟨hu, ?_⟩
    cases hl : s.live h with
    | false =>
      simp only [hl, if_true, Option.some.injEq] at hs
      exact .inl ⟨rfl, hs.symm⟩
    | true =>
      simp only [hl, Bool.true_eq_false, if_false, Option.some.injEq] at hs
      exact .inr ⟨rfl, hs.symm⟩
  · cases hs

theorem user_live {h : Handler} {f : State κ → State κ} (hl : s.live h = true)
    (hs : s.user h f = some s') : s' = f s := by
  obtain ⟨-, ⟨hd, -⟩ | ⟨-, he⟩⟩ := user_cases hs
  · rw [hl] at hd
    cases hd
  · exact he

/-- A call on a live Socket opens an operation, or is refused. -/
theorem opens_of_request {q : Request κ} (hq : act.request = some q)
    (hl : s.heap.live q.token.sock = true) (hs : s.step act = some s') :
    s.heap.Opens q (s'.heap, s.answer act) := by
  cases act with
  | readSome id buf size cb ms r now =>
    cases hq
    unfold step at hs
    rw [user_live (h := .socket id) hl hs]
    exact Heap.readSome_opens
  | readAll id buf size cb ms r now =>
    cases hq
    unfold step at hs
    rw [user_live (h := .socket id) hl hs]
    exact Heap.readAll_opens
  | writeAll id buf size cb ms r now =>
    cases hq
    unfold step at hs
    rw [user_live (h := .socket id) hl hs]
    exact Heap.writeAll_opens
  | _ => cases hq

theorem library_some {t : Option (State κ)} (hs : s.library t = some s') :
    s.callback = none ∧ t = some s' := by
  unfold library at hs
  split at hs
  · rename_i hc
    exact ⟨hc, hs⟩
  · cases hs

theorem fault_effect (h : Handler) : Effect s act (s.fault h) := by
  refine Effect.noted (fault_noted (Noted.refl s.heap)) ?_
  intro hp
  exact hp.elim

/-- A step of user code on an object. -/
theorem user_effect {h : Handler} {f : State κ → State κ} (hs : s.user h f = some s')
    (hf : s.live h = true → Effect s act (f s)) : Effect s act s' := by
  obtain ⟨-, ⟨-, rfl⟩ | ⟨hl, rfl⟩⟩ := user_cases hs
  · exact fault_effect h
  · exact hf hl

theorem noted_effect (hn : Noted s.heap s'.heap) (hp : s'.pc = s.pc) : Effect s act s' := by
  apply Effect.noted hn
  rw [hp]
  exact Or.inl

theorem destroySocket_effect {id : SockId} (hl : s.heap.live id = true) :
    Effect s act (s.destroySocket id) := by
  unfold destroySocket
  dsimp only
  split
  · exact Effect.destroyed hl closeSocket_noted rfl (by simp)
  · exact Effect.destroyed hl (Noted.refl _) rfl rfl

theorem dispatch_effect {r : ReadResult} {w : WriteResult} (hc : s.callback = none)
    (hs : s.dispatch r w = some s') : Effect s (.dispatch r w) s' := by
  cases dispatch_cases hs with
  | closeLost _ _ he | readLost _ _ _ he =>
    rw [he]
    exact .noted (fault_noted (by exact (Noted.refl s.heap).emit (by trivial))) (fun hp => hp.elim)
  | closeSocket hpc hup hid hl he => exact .hungup rfl hc hpc hup hid hl he
  | closeAcceptor hpc _ _ _ he =>
    rw [he]
    refine .noted (invokeAccept_noted (by exact (Noted.refl s.heap).emit (by trivial)) _) ?_
    intro _
    rw [hpc]
    exact .inl trivial
  | readSocket hpc hup hin hid hl he =>
    rw [he]
    exact .progressed (by exact hl) ((Noted.refl s.heap).emit (by trivial))
      Heap.onRead_progresses (.read hpc hup hin hid rfl)
  | readAcceptor hpc _ _ _ he =>
    rw [he]
    refine .noted ((Noted.refl s.heap).emit (by trivial)) ?_
    intro _
    rw [hpc]
    exact .inl trivial
  | skips hpc _ _ he | passes hpc _ he =>
    rw [he]
    refine .noted (Noted.refl s.heap) ?_
    intro _
    rw [hpc]
    exact .inl trivial
  | writeLost _ _ he =>
    rw [he]
    exact .noted (fault_noted ((Noted.refl s.heap).emit (by trivial))) (fun hp => hp.elim)
  | writeSocket hpc hout hid hl he =>
    rw [he]
    exact .progressed (by exact hl) ((Noted.refl s.heap).emit (by trivial))
      Heap.onWrite_progresses (.write hpc hout hid rfl)
  | writeAcceptor _ _ _ he =>
    rw [he]
    exact .noted ((Noted.refl s.heap).emit (by trivial)) (fun hp => hp.elim)

theorem accept_effect {r : AcceptResult} (hs : s.accept r = some s') : Effect s act s' := by
  have hsteady : ∀ {a ev rest}, s.pc = .acceptLoop a ev rest →
      s'.pc.steady → s.pc.steady ∨ s.heap.queue = [] := by
    intro a ev rest hpc _
    rw [hpc]
    exact .inl trivial
  -- the descriptor that `::accept` opened, if any, is a note
  have hopened : ∀ {a : AccId} {s₁ : State κ},
      (s₁ = s ∨ ∃ fd, s₁ = s.emit (.opened a .accept fd)) → Noted s.heap s₁.heap := by
    rintro a s₁ (rfl | ⟨fd, rfl⟩)
    · exact Noted.refl _
    · exact (Noted.refl s.heap).emit (by trivial)
  cases accept_cases hs with
  | lost _ he =>
    rw [he]
    exact fault_effect _
  | returns hpc h₁ he =>
    have hn := hopened h₁
    exact .noted (by rw [he]; exact hn) (hsteady hpc)
  | failed hpc h₁ he =>
    have hn := hopened h₁
    exact .noted (by rw [he]; exact invokeAccept_noted (by exact hn) _) (hsteady hpc)
  | @passed a ev rest err fd hpc he =>
    have hn := hopened (.inr ⟨fd, (rfl : _ = s.emit (.opened a .accept fd))⟩)
    exact .noted (by rw [he]; exact invokeAccept_noted (by exact hn) _) (hsteady hpc)

theorem processCompletion_effect (hc : s.callback = none)
    (hs : s.processCompletion = some s') : Effect s act s' := by
  cases processCompletion_cases hs with
  | ends _ hq _ _ he =>
    rw [he]
    exact .noted (Noted.refl _) fun _ => .inr hq
  | faults _ _ _ he =>
    rw [he]
    exact fault_effect _
  | completes hp hq hl he => exact .completed hc hp hq hl he

theorem processTimer_effect (hc : s.callback = none) (hs : s.processTimer = some s') :
    Effect s act s' := by
  cases processTimer_cases hs with
  | ends hpc he =>
    rw [he]
    exact .noted (Noted.refl _) fun _ => .inl (by rw [hpc]; trivial)
  | faults _ _ _ he =>
    rw [he]
    exact fault_effect _
  | expires hpc hq hl hlt he => exact .fired hc hpc hq hl hlt he

theorem epollWait_effect {r : PollResult} (hpc : s.pc = .poll) (hs : s.epollWait r = some s') :
    Effect s act s' := by
  have hsteady : s'.pc.steady → s.pc.steady ∨ s.heap.queue = [] := by
    intro _
    rw [hpc]
    exact .inl trivial
  cases epollWait_cases hs with
  | leaves he =>
    rw [he] at hsteady ⊢
    exact .noted (closeHandle_noted (by exact Noted.refl s.heap)) hsteady
  | idles he =>
    rw [he] at hsteady ⊢
    exact .noted (Noted.refl _) hsteady
  | polls _ _ he =>
    rw [he] at hsteady ⊢
    exact .noted ((Noted.refl s.heap).emit (by trivial)) hsteady

theorem memcpy_noted {h : Heap κ} (dst src : Ptr) (n : Nat) : Noted h (h.memcpy dst src n) :=
  ⟨fun _ => rfl, fun _ => rfl, fun _ => .inl rfl, rfl, rfl, rfl, [.copied dst src n],
    by simp [Event.isNote], rfl⟩

/-- Every step has one of the effects. -/
theorem step_effect (hs : s.step act = some s') : Effect s act s' := by
  cases act with
  | epollCreate fd errno =>
    dsimp only [step] at hs
    split at hs
    · split at hs <;> (cases hs; exact noted_effect (Noted.refl _) rfl)
    · cases hs
  | create id soc rtv wtv ctl =>
    dsimp only [step] at hs
    split at hs
    · rename_i hu
      cases hs
      exact .created hu.2 (register_noted (Noted.refl _)) pc_register
    · cases hs
  | createUnbound id rtv wtv =>
    dsimp only [step] at hs
    split at hs
    · rename_i hu
      cases hs
      exact .created hu.2 (Noted.refl _) rfl
    · cases hs
  | readSome id buf size cb ms r now =>
    unfold step at hs
    exact user_effect hs fun hl => .opened (by rfl) (by exact hl) Heap.readSome_opens rfl
  | readAll id buf size cb ms r now =>
    unfold step at hs
    exact user_effect hs fun hl => .opened (by rfl) (by exact hl) Heap.readAll_opens rfl
  | writeAll id buf size cb ms r now =>
    unfold step at hs
    exact user_effect hs fun hl => .opened (by rfl) (by exact hl) Heap.writeAll_opens rfl
  | close id =>
    unfold step at hs
    exact user_effect hs fun _ => noted_effect closeSocket_noted pc_closeSocket
  | destroy id =>
    unfold step at hs
    exact user_effect hs fun hl => destroySocket_effect hl
  | memcpy dst src n =>
    dsimp only [step] at hs
    split at hs
    · cases hs
      exact noted_effect (memcpy_noted dst src n) rfl
    · cases hs
  | createAcceptor a soc =>
    dsimp only [step] at hs
    split at hs
    · cases hs
      exact noted_effect (Noted.refl _) rfl
    · cases hs
  | listen a cb r =>
    unfold step at hs
    exact user_effect hs fun _ => noted_effect (listen_noted cb r) (listen_frame cb r).1
  | closeAcceptor a =>
    unfold step at hs
    exact user_effect hs fun _ => noted_effect closeAcceptor_noted pc_closeAcceptor
  | destroyAcceptor a =>
    unfold step at hs
    exact user_effect hs fun _ => noted_effect destroyAcceptor_noted pc_destroyAcceptor
  | stop =>
    cases hs
    exact noted_effect (Noted.refl _) rfl
  | run =>
    obtain ⟨-, hs⟩ := library_some hs
    split at hs
    · rename_i hpc
      cases hs
      refine Effect.noted (Noted.refl s.heap) ?_
      intro _
      rw [hpc]
      exact .inl trivial
    · cases hs
  | ret =>
    dsimp only [step] at hs
    split at hs
    · cases hs
      exact noted_effect (Noted.refl _) rfl
    · cases hs
  | epollWait r =>
    obtain ⟨-, hs⟩ := library_some hs
    split at hs
    · rename_i hpc
      exact epollWait_effect hpc hs
    · cases hs
  | dispatch r w =>
    obtain ⟨hc, hs⟩ := library_some hs
    exact dispatch_effect hc hs
  | accept r => exact accept_effect (library_some hs).2
  | processCompletion =>
    obtain ⟨hc, hs⟩ := library_some hs
    exact processCompletion_effect hc hs
  | startTimer now =>
    obtain ⟨-, hs⟩ := library_some hs
    unfold startTimer at hs
    split at hs
    · rename_i hpc
      cases hs
      refine Effect.noted (Noted.refl s.heap) ?_
      intro _
      rw [hpc]
      exact .inl trivial
    · cases hs
  | processTimer =>
    obtain ⟨hc, hs⟩ := library_some hs
    exact processTimer_effect hc hs
  | environment e =>
    cases hs
    exact noted_effect ((Noted.refl s.heap).emit (by trivial)) rfl

/-! ### The history grows -/

theorem log_suffix_noted {h h' : Heap κ} (hn : Noted h h') : h.log <:+ h'.log := by
  obtain ⟨evs, -, hlog⟩ := hn.log
  exact ⟨evs, hlog.symm⟩

theorem log_suffix_opens {h h' : Heap κ} {q : Request κ} {ok : Bool}
    (ho : h.Opens q (h', ok)) : h.log <:+ h'.log := by
  have hbegun : ∀ {e : Event} {h₁ : Heap κ}, h.Begun q e h₁ → h.log <:+ h₁.log := by
    intro e h₁ hb
    exact ⟨[e, .started q.token h.nextCall], by rw [hb.log]; rfl⟩
  cases ho with
  | refused d hm => exact List.suffix_cons _ _
  | finished hb hf => exact (hbegun hb).trans (List.suffix_refl _)
  | parked hb hp he =>
    refine (hbegun hb).trans ?_
    by_cases hms : q.timeoutMsec = 0
    · exact ⟨[], by rw [List.nil_append, hms, Heap.log_park_zero]⟩
    · rw [Heap.log_park hms]
      split
      · exact List.suffix_cons _ _
      · exact List.suffix_refl _

theorem log_suffix_progresses {h h' : Heap κ} {t : TokenId} (hp : h.Progresses t h') :
    h.log <:+ h'.log := by
  have htouched : ∀ {e : Event} {h₁ : Heap κ}, h.Touched t e h₁ → h.log <:+ h₁.log := by
    intro e h₁ hb
    exact ⟨[e], by rw [hb.log]; rfl⟩
  cases hp with
  | idle => exact List.suffix_refl _
  | waits _ hb => exact htouched hb
  | finishes _ hb _ => exact (htouched hb).trans (List.suffix_refl _)

theorem log_suffix_invoke {log : List Event} {t : TokenId} {err : Error} {bytes : Int} {via : Via}
    (h : log <:+ s.heap.log) : log <:+ (s.invoke t err bytes via).heap.log := by
  obtain ⟨-, he⟩ | ⟨cb, -, he⟩ := invoke_cases s t err bytes via
  · rw [he]
    exact h
  · rw [he]
    exact h.trans (List.suffix_cons _ _)

theorem log_suffix_onCloseSocket {log : List Event} {id : SockId} (h : log <:+ s.heap.log) :
    log <:+ (s.onCloseSocket id).heap.log :=
  onCloseSocket_rule (P := fun s' => log <:+ s'.heap.log) h fun _ _ =>
    log_suffix_invoke (by exact h)

theorem log_suffix_of_step (hs : s.step act = some s') : s.heap.log <:+ s'.heap.log := by
  cases step_effect hs with
  | noted hn _ => exact log_suffix_noted hn
  | created hl hn hpc => exact (List.suffix_cons _ _).trans (log_suffix_noted hn)
  | opened hq hl ho hpc => exact log_suffix_opens ho
  | progressed hl hn hpr hpc => exact (log_suffix_noted hn).trans (log_suffix_progresses hpr)
  | @destroyed id h₁ hl hn he hpc =>
    rw [he]
    refine (log_suffix_noted hn).trans ⟨[.destroyed id], ?_⟩
    exact congrArg (Event.destroyed id :: ·) Heap.log_unlink.symm
  | completed hc hpc hq hl he =>
    rw [he]
    exact log_suffix_invoke (List.suffix_refl _)
  | fired hc hpc ht hl hlt he =>
    rw [he]
    exact log_suffix_invoke (List.suffix_refl _)
  | @hungup id ev rest r w ha hc hpc hup hh hl he =>
    rw [he]
    exact log_suffix_onCloseSocket (List.suffix_cons (Event.dispatched ev.handler .onClose) _)

end State

end EchoBenchmark.Proactor
