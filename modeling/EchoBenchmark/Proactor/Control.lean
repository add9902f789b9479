import EchoBenchmark.Proactor.Steps

/-!
How one step moves `run`: where the counter goes, which events of the batch are left, and what is
said in the history about dispatches and removed handlers.
-/

namespace EchoBenchmark.Proactor

variable {κ : Type}

/-- The events of the batch that `run` has not looked at. -/
def Pc.waiting : Pc → List PollEvent
  | .event rest | .acceptLoop _ _ rest | .drainRead _ rest | .output _ rest | .drainWrite rest =>
    rest
  | .outside | .poll | .timer _ | .thrown | .undefined => []

/-- `run` has ended by misuse. -/
def Pc.dead : Pc → Prop
  | .thrown | .undefined => True
  | _ => False

/-- A loop of the library around calls of user code. -/
def Pc.looping : Pc → Prop
  | .acceptLoop .. | .drainRead .. | .drainWrite _ | .timer _ => True
  | _ => False

theorem Pc.draining.looping {p : Pc} (hd : p.draining) : p.looping := by
  cases p with
  | drainRead | drainWrite => trivial
  | _ => exact hd.elim

theorem Turn.not_looping {s s' : State κ} {t : TokenId} (ht : Turn s s' t) : ¬ s.pc.looping := by
  cases ht with
  | read hpc _ _ _ _ | write hpc _ _ _ =>
    rw [hpc]
    exact id

theorem Pc.dead.not_looping {p : Pc} (hd : p.dead) : ¬ p.looping := by
  cases p with
  | thrown | undefined => exact id
  | _ => exact hd.elim

/-- Entries about a batch, its dispatches and the handlers that are removed. -/
def Event.isBatch : Event → Bool
  | .polled _ | .dispatched .. | .removed _ => true
  | _ => false

/-- The part of the history that concerns the batches. -/
def batchLog (log : List Event) : List Event := log.filter Event.isBatch

@[simp] theorem batchLog_cons_of_not {e : Event} {log : List Event} (he : e.isBatch = false) :
    batchLog (e :: log) = batchLog log := by
  simp [batchLog, he]

theorem batchLog_cons_of {e : Event} {log : List Event} (he : e.isBatch = true) :
    batchLog (e :: log) = e :: batchLog log := by
  simp [batchLog, he]

theorem Event.isIo.not_batch {e : Event} {t : TokenId} (he : e.isIo t) : e.isBatch = false := by
  cases e <;> first | rfl | exact he.elim

namespace Heap

variable {h h' : Heap κ} {t : TokenId} {id : SockId} {n ms : Int} {m : Mode} {now : Timeval}
  {q : Request κ} {e : Event} {ok : Bool}

theorem batchLog_park : batchLog (h.park t n m ms now).log = batchLog h.log := by
  by_cases hms : ms = 0
  · subst hms
    rw [log_park_zero]
  · rw [log_park hms]
    split
    · exact batchLog_cons_of_not rfl
    · rfl

theorem Begun.batchLog_eq (hs : Begun h q e h') : batchLog h'.log = batchLog h.log := by
  rw [hs.log, batchLog_cons_of_not hs.io.not_batch, batchLog_cons_of_not rfl]

theorem Touched.batchLog_eq (hs : Touched h t e h') : batchLog h'.log = batchLog h.log := by
  rw [hs.log, batchLog_cons_of_not hs.io.not_batch]

theorem Opens.batchLog_eq (ho : Opens h q (h', ok)) : batchLog h'.log = batchLog h.log := by
  cases ho with
  | refused d hm => exact batchLog_cons_of_not rfl
  | finished hs hf => exact hs.batchLog_eq
  | parked hs hp he => rw [batchLog_park, hs.batchLog_eq]

theorem Progresses.batchLog_eq (hp : Progresses h t h') : batchLog h'.log = batchLog h.log := by
  cases hp with
  | idle => rfl
  | waits _ hs _ => exact hs.batchLog_eq
  | finishes _ hs _ => exact hs.batchLog_eq

end Heap

namespace State

variable {s s' : State κ} {act : Action κ} {h : Handler} {id : SockId} {a : AccId} {ctl : Int}
  {acceptor : Bool} {t : TokenId} {err : Error} {bytes : Int} {via : Via}

/-- What the history of a state says about the batches. -/
def batch (s : State κ) : List Event := batchLog s.heap.log

/-- The handler that an action of the user takes out of the proactor. -/
def removes (s : State κ) : Action κ → Option Handler
  | .close id => some (.socket id)
  | .destroy id => if s.heap.soc id ≠ INVALID_SOCKET then some (.socket id) else none
  | .closeAcceptor a => some (.acceptor a)
  | .destroyAcceptor a =>
    if (s.acceptors a).soc ≠ INVALID_SOCKET then some (.acceptor a) else none
  | _ => none

/-! ### What the functions leave in the history -/

@[simp] theorem batch_emit {e : Event} (he : e.isBatch = false) : (s.emit e).batch = s.batch :=
  batchLog_cons_of_not he

theorem batch_register : (s.register h acceptor ctl).1.batch = s.batch := by
  unfold register
  split
  · rfl
  · dsimp only
    split
    · rfl
    · exact batchLog_cons_of_not rfl

theorem batch_fault : (s.fault h).batch = s.batch := batchLog_cons_of_not rfl

theorem batch_removeHandler : (s.removeHandler h).batch = .removed h :: s.batch := by
  rw [batch, heap_removeHandler]
  exact batchLog_cons_of rfl

theorem batch_closeSocket : (s.closeSocket id).batch = .removed (.socket id) :: s.batch := by
  unfold closeSocket
  dsimp only
  split
  · exact (batchLog_cons_of_not rfl).trans batch_removeHandler
  · exact batch_removeHandler

theorem batch_closeAcceptor :
    (s.closeAcceptor a).batch = .removed (.acceptor a) :: s.batch := by
  unfold closeAcceptor
  dsimp only
  split
  · exact (batchLog_cons_of_not rfl).trans batch_removeHandler
  · exact batch_removeHandler

theorem batch_listen (cb : κ) (r : ListenResult) : (s.listen a cb r).1.batch = s.batch := by
  have hsock : (s.listenSocket a r).1.batch = s.batch := by
    obtain ⟨s₁, c, he, rfl | ⟨fd, rfl⟩⟩ := listenSocket_shape (s := s) (a := a) r
    · rw [he]
      rfl
    · rw [he]
      exact batchLog_cons_of_not rfl
  rcases listen_shape (s := s) (a := a) cb r with he | ⟨c, he⟩
  · rw [he, hsock]
  · rw [he, batch_register]
    exact hsock

theorem batch_invoke : (s.invoke t err bytes via).batch = s.batch := by
  unfold invoke
  split
  · rfl
  · exact batchLog_cons_of_not rfl

theorem batch_invokeAccept (soc : Int) : (s.invokeAccept a err soc).batch = s.batch := by
  unfold invokeAccept
  split
  · rfl
  · exact batchLog_cons_of_not rfl

end State

/-! ### The movement of a step -/

/-- Nothing that concerns the batches happened. -/
def Quiet (s s' : State κ) : Prop := s'.batch = s.batch ∧ s'.deleted = s.deleted

/-- Where the counter goes from `s` to `s'`. -/
inductive Control (s : State κ) (act : Action κ) (s' : State κ) : Prop
  | stays : s'.pc = s.pc → (s'.callback.isSome → s.callback.isSome ∨ s.pc.looping) → Quiet s s' →
      Control s act s'
  | removes {h : Handler} : s.userActive = true → s.removes act = some h → s'.pc = s.pc →
      s'.callback = s.callback → s'.batch = .removed h :: s.batch →
      s'.deleted = s.deleted ++ [h] → Control s act s'
  | dies : s'.pc.dead → s'.callback = none → s'.batch = s.batch → Control s act s'
  | enters : s.pc = .outside → s'.pc = .poll → s'.callback = none → Quiet s s' → Control s act s'
  | leaves : s.pc = .poll → s'.pc = .outside → s'.callback = none → Quiet s s' → Control s act s'
  | idles : s.pc = .poll → s'.pc = .event [] → s'.callback = none → Quiet s s' → Control s act s'
  | polls {evs : List PollEvent} : act = .epollWait (.events evs) → s.pc = .poll →
      s.reports evs → s'.pc = .event evs → s'.callback = none → s'.batch = .polled evs :: s.batch →
      s'.heap = s.heap.emit (.polled evs) → Control s act s'
  | closes {ev : PollEvent} {rest : List PollEvent} : s.pc = .event (ev :: rest) →
      ev.events.hangup = true → s'.pc = .event rest ∨ s'.pc.dead ∧ s'.callback = none →
      s'.batch = .dispatched ev.handler .onClose :: s.batch → Control s act s'
  | reads {ev : PollEvent} {rest : List PollEvent} : s.pc = .event (ev :: rest) →
      ev.events.hangup = false → ev.events.input = true →
      s'.pc = .drainRead ev rest ∨ (∃ a, ev.handler = .acceptor a ∧ s'.pc = .acceptLoop a ev rest) ∨
        s'.pc.dead →
      s'.callback = none → s'.deleted = [] →
      s'.batch = .dispatched ev.handler .onRead :: s.batch →
      (∀ id, ev.handler = .socket id → s'.pc.dead ∨ ∃ r w, act = .dispatch r w ∧
        s'.heap = (s.heap.emit (.dispatched ev.handler .onRead)).onRead id r) → Control s act s'
  | skips {ev : PollEvent} {rest : List PollEvent} : s.pc = .event (ev :: rest) →
      ev.events.hangup = false → ev.events.input = false → s'.pc = .output ev rest →
      s'.callback = none → Quiet s s' → Control s act s'
  | writes {ev : PollEvent} {rest : List PollEvent} : s.pc = .output ev rest →
      ev.events.pollout = true → s'.pc = .drainWrite rest ∨ s'.pc.dead → s'.callback = none →
      s'.batch = .dispatched ev.handler .onWrite :: s.batch →
      (∀ id, ev.handler = .socket id → s'.pc.dead ∨ ∃ r w, act = .dispatch r w ∧
        s'.heap = (s.heap.emit (.dispatched ev.handler .onWrite)).onWrite id w) → Control s act s'
  | passes {ev : PollEvent} {rest : List PollEvent} : s.pc = .output ev rest →
      ev.events.pollout = false → s'.pc = .event rest → s'.callback = none → Quiet s s' →
      Control s act s'
  | accepts {a : AccId} {r : AcceptResult} {ev : PollEvent} {rest : List PollEvent} :
      act = .accept r → s.pc = .acceptLoop a ev rest →
      s'.pc = .drainRead ev rest → Quiet s s' → Control s act s'
  | drops {ev : PollEvent} {rest : List PollEvent} : s.pc = .drainRead ev rest →
      s.heap.queue = [] → ev.handler ∈ s.deleted → s'.pc = .event rest → s'.callback = none →
      Quiet s s' → Control s act s'
  | continues {ev : PollEvent} {rest : List PollEvent} : s.pc = .drainRead ev rest →
      s.heap.queue = [] → ev.handler ∉ s.deleted → s'.pc = .output ev rest →
      s'.callback = none → Quiet s s' → Control s act s'
  | ends {rest : List PollEvent} : s.pc = .drainWrite rest → s.heap.queue = [] →
      s'.pc = .event rest → s'.callback = none → Quiet s s' → Control s act s'
  | times {now : Timeval} : s.pc = .event [] → s'.pc = .timer now → s'.callback = none →
      Quiet s s' → Control s act s'
  | loops {now : Timeval} : s.pc = .timer now → s'.pc = .poll → s'.callback = none → Quiet s s' →
      Control s act s'

theorem Pc.dead.waiting {p : Pc} (hd : p.dead) : p.waiting = [] := by
  cases p with
  | thrown | undefined => rfl
  | _ => exact hd.elim

/-- A batch is looked at from its head on, and only `epoll_wait` brings another. -/
theorem Control.waiting {s s' : State κ} {act : Action κ} (hc : Control s act s') :
    s'.pc.waiting <:+ s.pc.waiting ∨
    ∃ evs, act = .epollWait (.events evs) ∧ s.reports evs ∧ s'.pc = .event evs := by
  cases hc with
  | polls ha hpc hr hpc' _ _ _ => exact .inr ⟨_, ha, hr, hpc'⟩
  | stays hpc _ _ | removes _ _ hpc _ _ _ =>
    rw [hpc]
    exact .inl (List.suffix_refl _)
  | dies hd _ _ =>
    rw [hd.waiting]
    exact .inl (List.nil_suffix)
  | enters hpc hpc' _ _ | leaves hpc hpc' _ _ | idles hpc hpc' _ _ | times hpc hpc' _ _
  | loops hpc hpc' _ _ | skips hpc _ _ hpc' _ _ | passes hpc _ hpc' _ _ | accepts _ hpc hpc' _
  | drops hpc _ _ hpc' _ _ | continues hpc _ _ hpc' _ _ | ends hpc _ hpc' _ _ =>
    rw [hpc, hpc']
    exact .inl (by simp [Pc.waiting])
  | closes hpc _ hpc' _ =>
    rw [hpc]
    rcases hpc' with h | ⟨h, -⟩
    · rw [h]
      exact .inl (List.suffix_cons _ _)
    · rw [h.waiting]
      exact .inl (List.nil_suffix)
  | reads hpc _ _ hpc' _ _ _ _ =>
    rw [hpc]
    rcases hpc' with h | ⟨a, -, h⟩ | h
    · rw [h]
      exact .inl (List.suffix_cons _ _)
    · rw [h]
      exact .inl (List.suffix_cons _ _)
    · rw [h.waiting]
      exact .inl (List.nil_suffix)
  | writes hpc _ hpc' _ _ _ =>
    rw [hpc]
    rcases hpc' with h | h
    · rw [h]
      exact .inl (List.suffix_refl _)
    · rw [h.waiting]
      exact .inl (List.nil_suffix)

/-- `run` does not come back from misuse. -/
theorem Control.dead {s s' : State κ} {act : Action κ} (hc : Control s act s') (hd : s.pc.dead) :
    s'.pc.dead := by
  have hno : ∀ {p : Pc}, s.pc = p → ¬ p.dead → s'.pc.dead := by
    rintro p rfl hn
    exact (hn hd).elim
  cases hc with
  | stays hpc _ _ | removes _ _ hpc _ _ _ =>
    rw [hpc]
    exact hd
  | dies hd' _ _ => exact hd'
  | enters hpc _ _ _ | leaves hpc _ _ _ | idles hpc _ _ _ | polls _ hpc _ _ _ _ _ | closes hpc _ _ _
  | reads hpc _ _ _ _ _ _ _ | skips hpc _ _ _ _ _ | writes hpc _ _ _ _ _ | passes hpc _ _ _ _
  | accepts _ hpc _ _ | drops hpc _ _ _ _ _ | continues hpc _ _ _ _ _ | ends hpc _ _ _ _
  | times hpc _ _ _ | loops hpc _ _ _ => exact hno hpc id

/-- `Acceptor::onRead` returns from its own loop only. -/
theorem Control.accept_of_returns {s s' : State κ} {act : Action κ} {a : AccId}
    {ev ev' : PollEvent} {rest rest' : List PollEvent} (hc : Control s act s')
    (hpc : s.pc = .acceptLoop a ev rest) (hpc' : s'.pc = .drainRead ev' rest') :
    ∃ r, act = .accept r := by
  have hno : ∀ {p : Pc}, s.pc = p → (∀ a ev rest, p ≠ .acceptLoop a ev rest) →
      ∃ r, act = .accept r := by
    rintro p rfl hne
    exact (hne _ _ _ hpc).elim
  cases hc with
  | accepts ha _ _ _ => exact ⟨_, ha⟩
  | stays h _ _ | removes _ _ h _ _ _ =>
    rw [h, hpc] at hpc'
    cases hpc'
  | dies hd _ _ =>
    rw [hpc'] at hd
    exact hd.elim
  | enters h _ _ _ | leaves h _ _ _ | idles h _ _ _ | polls _ h _ _ _ _ _ | closes h _ _ _
  | reads h _ _ _ _ _ _ _ | skips h _ _ _ _ _ | writes h _ _ _ _ _ | passes h _ _ _ _
  | drops h _ _ _ _ _ | continues h _ _ _ _ _ | ends h _ _ _ _ | times h _ _ _
  | loops h _ _ _ => exact hno h (by simp)

/-- `run` enters the loop of an Acceptor for an event of its own. -/
theorem Control.acceptLoop {s s' : State κ} {act : Action κ} {a : AccId} {ev : PollEvent}
    {rest : List PollEvent} (hc : Control s act s') (hpc' : s'.pc = .acceptLoop a ev rest) :
    s.pc = .acceptLoop a ev rest ∨
    s.pc = .event (ev :: rest) ∧ ev.events.input = true ∧ ev.handler = .acceptor a := by
  have hno : ∀ {p : Pc}, s'.pc = p → (∀ a ev rest, p ≠ .acceptLoop a ev rest) →
      s.pc = .acceptLoop a ev rest ∨
      s.pc = .event (ev :: rest) ∧ ev.events.input = true ∧ ev.handler = .acceptor a := by
    rintro p rfl hne
    exact (hne _ _ _ hpc').elim
  have hdead : ¬ s'.pc.dead := by
    rw [hpc']
    exact id
  cases hc with
  | stays h _ _ | removes _ _ h _ _ _ =>
    rw [← h]
    exact .inl hpc'
  | dies hd _ _ => exact (hdead hd).elim
  | closes _ _ h _ =>
    rcases h with h | ⟨h, -⟩
    · exact hno h (by simp)
    · exact (hdead h).elim
  | reads hpc _ hin h _ _ _ _ =>
    rcases h with h | ⟨b, hb, h⟩ | h
    · exact hno h (by simp)
    · rw [h] at hpc'
      cases hpc'
      exact .inr ⟨hpc, hin, hb⟩
    · exact (hdead h).elim
  | writes _ _ h _ _ _ =>
    rcases h with h | h
    · exact hno h (by simp)
    · exact (hdead h).elim
  | enters _ h _ _ | leaves _ h _ _ | idles _ h _ _ | polls _ _ _ h _ _ _ | skips _ _ _ h _ _
  | passes _ _ h _ _ | accepts _ _ h _ | drops _ _ _ h _ _ | continues _ _ _ h _ _
  | ends _ _ h _ _ | times _ h _ _ | loops _ h _ _ => exact hno h (by simp)

namespace State

variable {s s' : State κ} {act : Action κ} {h : Handler} {id : SockId} {a : AccId} {t : TokenId}
  {err : Error} {bytes : Int} {via : Via}

theorem stays_of {s₁ : State κ} (hp : s₁.pc = s.pc) (hc : s₁.callback = s.callback)
    (hq : Quiet s s₁) : Control s act s₁ := by
  refine .stays hp ?_ hq
  rw [hc]
  exact Or.inl

theorem fault_dies : Control s act (s.fault h) := .dies trivial rfl batch_fault

theorem user_control {f : State κ → State κ} (hs : s.user h f = some s')
    (hf : s.userActive = true → Control s act (f s)) : Control s act s' := by
  obtain ⟨hu, ⟨-, rfl⟩ | ⟨-, rfl⟩⟩ := user_cases hs
  · exact fault_dies
  · exact hf hu

theorem opens_control {h' : Heap κ} {q : Request κ} {ok : Bool} (ho : s.heap.Opens q (h', ok)) :
    Control s act { s with heap := h' } :=
  stays_of rfl rfl ⟨ho.batchLog_eq, rfl⟩

theorem callback_destroySocket : (s.destroySocket id).callback = s.callback := by
  unfold destroySocket
  dsimp only
  split
  · exact callback_closeSocket
  · rfl

theorem destroySocket_control (hu : s.userActive = true) :
    Control s (.destroy id) (s.destroySocket id) := by
  have hrel : ∀ s₁ : State κ, (s₁.onHeap fun h => (h.unlink id).release id).batch = s₁.batch := by
    intro s₁
    refine (batchLog_cons_of_not rfl).trans ?_
    unfold Heap.unlink
    dsimp only
    split <;> split <;> rfl
  unfold destroySocket
  dsimp only
  split
  · rename_i hsoc
    refine .removes (h := .socket id) hu ?_ ?_ ?_ ?_ ?_
    · simp [State.removes, hsoc]
    · simp
    · simp
    · rw [hrel, batch_closeSocket]
    · simp
  · exact stays_of rfl rfl ⟨hrel s, rfl⟩

theorem destroyAcceptor_control (hu : s.userActive = true) :
    Control s (.destroyAcceptor a) (s.destroyAcceptor a) := by
  unfold destroyAcceptor
  dsimp only
  split
  · rename_i hsoc
    refine .removes (h := .acceptor a) hu ?_ ?_ ?_ ?_ ?_
    · simp [State.removes, hsoc]
    · simp
    · simp
    · exact batch_closeAcceptor
    · simp
  · exact stays_of rfl rfl ⟨rfl, rfl⟩

/-- A call into user code returns to where it was made from, or ends `run`. -/
theorem invoke_pc (s : State κ) (t : TokenId) (err : Error) (bytes : Int) (via : Via) :
    (s.invoke t err bytes via).pc = s.pc ∨
    (s.invoke t err bytes via).pc.dead ∧ (s.invoke t err bytes via).callback = s.callback := by
  obtain ⟨-, he⟩ | ⟨cb, -, he⟩ := invoke_cases s t err bytes via
  · rw [he]
    exact .inr ⟨trivial, rfl⟩
  · rw [he]
    exact .inl rfl

theorem invokeAccept_pc (s : State κ) (a : AccId) (err : Error) (soc : Int) :
    (s.invokeAccept a err soc).pc = s.pc ∨
    (s.invokeAccept a err soc).pc.dead ∧ (s.invokeAccept a err soc).callback = s.callback := by
  rcases invokeAccept_cases s a err soc with he | ⟨inv, he⟩
  · rw [he]
    exact .inr ⟨trivial, rfl⟩
  · rw [he]
    exact .inl rfl

@[simp] theorem deleted_invoke : (s.invoke t err bytes via).deleted = s.deleted := by
  unfold invoke
  split <;> rfl

@[simp] theorem deleted_invokeAccept (soc : Int) :
    (s.invokeAccept a err soc).deleted = s.deleted := by
  unfold invokeAccept
  split <;> rfl

theorem onCloseSocket_pc : (s.onCloseSocket id).pc = s.pc ∨
    (s.onCloseSocket id).pc.dead ∧ (s.onCloseSocket id).callback = s.callback :=
  onCloseSocket_rule (P := fun s' => s'.pc = s.pc ∨ s'.pc.dead ∧ s'.callback = s.callback)
    (.inl rfl) fun _ _ => invoke_pc _ _ _ _ _

theorem batch_onCloseSocket : (s.onCloseSocket id).batch = s.batch :=
  onCloseSocket_rule (P := fun s' => s'.batch = s.batch) rfl fun _ _ => batch_invoke

theorem dispatch_control {r : ReadResult} {w : WriteResult} (hc : s.callback = none)
    (hs : s.dispatch r w = some s') : Control s (.dispatch r w) s' := by
  cases dispatch_cases hs with
  | closeLost hpc hup he =>
    rw [he]
    exact .closes hpc hup (.inr ⟨trivial, rfl⟩) (batch_fault.trans (batchLog_cons_of rfl))
  | closeSocket hpc hup _ _ he =>
    rw [he]
    refine .closes hpc hup ?_ (batch_onCloseSocket.trans (batchLog_cons_of rfl))
    rw [← hc]
    exact onCloseSocket_pc
  | closeAcceptor hpc hup _ _ he =>
    rw [he]
    refine .closes hpc hup ?_ ((batch_invokeAccept _).trans (batchLog_cons_of rfl))
    rw [← hc]
    exact invokeAccept_pc _ _ _ _
  | readLost hpc hup hin he =>
    rw [he]
    exact .reads hpc hup hin (.inr (.inr trivial)) rfl rfl
      (batch_fault.trans (batchLog_cons_of rfl)) fun _ _ => .inl trivial
  | readSocket hpc hup hin hid _ he =>
    rw [he]
    refine .reads hpc hup hin (.inl rfl) hc rfl
      (Heap.onRead_progresses.batchLog_eq.trans (batchLog_cons_of rfl)) fun j hj => ?_
    cases hid.symm.trans hj
    exact .inr ⟨r, w, rfl, rfl⟩
  | @readAcceptor _ _ a hpc hup hin ha he =>
    rw [he]
    refine .reads hpc hup hin (.inr (.inl ⟨a, ha, rfl⟩)) hc rfl (batchLog_cons_of rfl)
      fun j hj => ?_
    cases ha.symm.trans hj
  | skips hpc hup hin he =>
    rw [he]
    exact .skips hpc hup hin rfl hc ⟨rfl, rfl⟩
  | writeLost hpc hout he =>
    rw [he]
    exact .writes hpc hout (.inr trivial) rfl (batch_fault.trans (batchLog_cons_of rfl))
      fun _ _ => .inl trivial
  | writeSocket hpc hout hid _ he =>
    rw [he]
    refine .writes hpc hout (.inl rfl) hc
      (Heap.onWrite_progresses.batchLog_eq.trans (batchLog_cons_of rfl)) fun j hj => ?_
    cases hid.symm.trans hj
    exact .inr ⟨r, w, rfl, rfl⟩
  | writeAcceptor hpc hout ha he =>
    rw [he]
    refine .writes hpc hout (.inl rfl) hc (batchLog_cons_of rfl) fun j hj => ?_
    cases ha.symm.trans hj
  | passes hpc hout he =>
    rw [he]
    exact .passes hpc hout rfl hc ⟨rfl, rfl⟩

theorem accept_control {r : AcceptResult} (hc : s.callback = none)
    (hs : s.accept r = some s') : Control s (.accept r) s' := by
  have hopened : ∀ {s₁ : State κ} {a : AccId},
      (s₁ = s ∨ ∃ fd, s₁ = s.emit (.opened a .accept fd)) → s₁.callback = none ∧ Quiet s s₁ := by
    rintro s₁ a (rfl | ⟨fd, rfl⟩)
    · exact ⟨hc, rfl, rfl⟩
    · exact ⟨hc, batchLog_cons_of_not rfl, rfl⟩
  cases accept_cases hs with
  | lost _ he =>
    rw [he]
    exact fault_dies
  | returns hpc h₁ he =>
    have hq := (hopened h₁).2
    rw [he]
    exact .accepts rfl hpc rfl hq
  | @failed a ev rest err s₁ hpc h₁ he =>
    obtain ⟨hn, hq⟩ := hopened h₁
    rw [he]
    rcases invokeAccept_pc { s₁.setAcceptor a { s.acceptors a with err := err } with
      pc := .drainRead ev rest } a err (-1) with h | ⟨h, h'⟩
    · exact .accepts rfl hpc h ⟨(batch_invokeAccept _).trans hq.1,
        (deleted_invokeAccept _).trans hq.2⟩
    · exact .dies h (h'.trans hn) ((batch_invokeAccept _).trans hq.1)
  | @passed a ev rest err fd hpc he =>
    obtain ⟨hn, hq⟩ := hopened (.inr ⟨fd, (rfl : _ = s.emit (.opened a .accept fd))⟩)
    rw [he]
    rcases invokeAccept_pc ((s.emit (.opened a .accept fd)).setAcceptor a
      { s.acceptors a with err := err }) a err fd with h | ⟨h, h'⟩
    · exact .stays h (fun _ => .inr (by rw [hpc]; trivial))
        ⟨(batch_invokeAccept _).trans hq.1, (deleted_invokeAccept _).trans hq.2⟩
    · exact .dies h (h'.trans hn) ((batch_invokeAccept _).trans hq.1)

theorem invoke_control {s₁ : State κ} (hl : s.pc.looping) (hp : s₁.pc = s.pc)
    (hc : s₁.callback = none) (hq : Quiet s s₁) :
    Control s act (s₁.invoke t err bytes via) := by
  rcases invoke_pc s₁ t err bytes via with h | ⟨h, h'⟩
  · exact .stays (h.trans hp) (fun _ => .inr hl)
      ⟨batch_invoke.trans hq.1, by rw [deleted_invoke]; exact hq.2⟩
  · exact .dies h (h'.trans hc) (batch_invoke.trans hq.1)

theorem drained_control (hc : s.callback = none) (hq : s.heap.queue = [])
    (hs : s.drained = some s') : Control s act s' := by
  unfold drained at hs
  split at hs
  · rename_i ev rest hpc
    split at hs
    · rename_i hd
      cases hs
      exact .drops hpc hq hd rfl hc ⟨rfl, rfl⟩
    · rename_i hd
      cases hs
      exact .continues hpc hq hd rfl hc ⟨rfl, rfl⟩
  · rename_i rest hpc
    cases hs
    exact .ends hpc hq rfl hc ⟨rfl, rfl⟩
  · cases hs

theorem processCompletion_control (hc : s.callback = none)
    (hs : s.processCompletion = some s') : Control s act s' := by
  cases processCompletion_cases hs with
  | ends _ hq hd _ _ => exact drained_control hc hq hd
  | faults _ _ _ he =>
    rw [he]
    exact fault_dies
  | completes hp _ _ he =>
    rw [he]
    exact invoke_control hp.looping (by rfl) hc ⟨by rfl, by rfl⟩

theorem processTimer_control (hc : s.callback = none) (hs : s.processTimer = some s') :
    Control s act s' := by
  cases processTimer_cases hs with
  | ends hpc he =>
    rw [he]
    exact .loops hpc rfl hc ⟨rfl, rfl⟩
  | faults _ _ _ he =>
    rw [he]
    exact fault_dies
  | expires hpc _ _ _ he =>
    rw [he]
    exact invoke_control (by rw [hpc]; trivial) (by rfl) hc ⟨by rfl, by rfl⟩

theorem epollWait_control {r : PollResult} (hc : s.callback = none) (hpc : s.pc = .poll)
    (hs : s.epollWait r = some s') : Control s (.epollWait r) s' := by
  cases epollWait_cases hs with
  | leaves he =>
    rw [he]
    refine .leaves hpc rfl ?_ ?_
    · exact callback_closeHandle.trans hc
    · unfold closeHandle
      split
      · exact ⟨batchLog_cons_of_not rfl, rfl⟩
      · exact ⟨rfl, rfl⟩
  | idles he =>
    rw [he]
    exact .idles hpc rfl hc ⟨rfl, rfl⟩
  | polls hr hrep he =>
    rw [he]
    exact .polls (congrArg _ hr) hpc hrep rfl hc (batchLog_cons_of rfl) rfl

/-- Every step moves the counter in one of these ways. -/
theorem step_control (hs : s.step act = some s') : Control s act s' := by
  cases act with
  | epollCreate fd errno =>
    dsimp only [step] at hs
    split at hs
    · split at hs <;> (cases hs; exact stays_of rfl rfl ⟨rfl, rfl⟩)
    · cases hs
  | create id soc rtv wtv ctl =>
    dsimp only [step] at hs
    split at hs
    · cases hs
      refine stays_of pc_register callback_register ⟨?_, deleted_register⟩
      exact batch_register.trans (batchLog_cons_of_not rfl)
    · cases hs
  | createUnbound id rtv wtv =>
    dsimp only [step] at hs
    split at hs
    · cases hs
      exact stays_of rfl rfl ⟨batchLog_cons_of_not rfl, rfl⟩
    · cases hs
  | readSome id buf size cb ms r now =>
    unfold step at hs
    exact user_control hs fun _ => opens_control Heap.readSome_opens
  | readAll id buf size cb ms r now =>
    unfold step at hs
    exact user_control hs fun _ => opens_control Heap.readAll_opens
  | writeAll id buf size cb ms r now =>
    unfold step at hs
    exact user_control hs fun _ => opens_control Heap.writeAll_opens
  | close id =>
    unfold step at hs
    exact user_control hs fun hu => .removes hu rfl pc_closeSocket callback_closeSocket
      batch_closeSocket deleted_closeSocket
  | destroy id =>
    unfold step at hs
    exact user_control hs fun hu => destroySocket_control hu
  | memcpy dst src n =>
    dsimp only [step] at hs
    split at hs
    · cases hs
      exact stays_of rfl rfl ⟨batchLog_cons_of_not rfl, rfl⟩
    · cases hs
  | createAcceptor a soc =>
    dsimp only [step] at hs
    split at hs
    · cases hs
      exact stays_of rfl rfl ⟨rfl, rfl⟩
    · cases hs
  | listen a cb r =>
    unfold step at hs
    refine user_control hs fun _ => ?_
    obtain ⟨hp, hc, hd⟩ := listen_frame (s := s) (a := a) cb r
    exact stays_of hp hc ⟨batch_listen cb r, hd⟩
  | closeAcceptor a =>
    unfold step at hs
    exact user_control hs fun hu => .removes hu rfl pc_closeAcceptor callback_closeAcceptor
      batch_closeAcceptor deleted_closeAcceptor
  | destroyAcceptor a =>
    unfold step at hs
    exact user_control hs fun hu => destroyAcceptor_control hu
  | stop =>
    cases hs
    exact stays_of rfl rfl ⟨rfl, rfl⟩
  | run =>
    obtain ⟨hc, hs⟩ := library_some hs
    split at hs
    · rename_i hpc
      cases hs
      exact .enters hpc rfl hc ⟨rfl, rfl⟩
    · cases hs
  | ret =>
    dsimp only [step] at hs
    split at hs
    · cases hs
      exact .stays rfl (fun h => nomatch h) ⟨rfl, rfl⟩
    · cases hs
  | epollWait r =>
    obtain ⟨hc, hs⟩ := library_some hs
    split at hs
    · rename_i hpc
      exact epollWait_control hc hpc hs
    · cases hs
  | dispatch r w =>
    obtain ⟨hc, hs⟩ := library_some hs
    exact dispatch_control hc hs
  | accept r =>
    obtain ⟨hc, hs⟩ := library_some hs
    exact accept_control hc hs
  | processCompletion =>
    obtain ⟨hc, hs⟩ := library_some hs
    exact processCompletion_control hc hs
  | startTimer now =>
    obtain ⟨hc, hs⟩ := library_some hs
    unfold startTimer at hs
    split at hs
    · rename_i hpc
      cases hs
      exact .times hpc rfl hc ⟨rfl, rfl⟩
    · cases hs
  | processTimer =>
    obtain ⟨hc, hs⟩ := library_some hs
    exact processTimer_control hc hs
  | environment e =>
    cases hs
    exact stays_of rfl rfl ⟨batchLog_cons_of_not rfl, rfl⟩

/-- A callback runs until it returns or the program misuses an object. -/
theorem callback_kept {inv : Invocation κ} (hc : s.callback = some inv)
    (hs : s.step act = some s') : act = .ret ∨ s'.callback = some inv ∨ s'.pc.dead := by
  have huser : ∀ {h : Handler} {f : State κ → State κ}, s.user h f = some s' →
      (f s).callback = s.callback → s'.callback = some inv ∨ s'.pc.dead := by
    intro h f hs hf
    obtain ⟨-, ⟨-, rfl⟩ | ⟨-, rfl⟩⟩ := user_cases hs
    · exact .inr trivial
    · exact .inl (hf.trans hc)
  have hlib : ∀ {t : Option (State κ)}, s.library t = some s' → False := by
    intro t hs
    rw [(library_some hs).1] at hc
    cases hc
  cases act with
  | ret => exact .inl rfl
  | epollCreate fd errno =>
    dsimp only [step] at hs
    split at hs
    · split at hs <;> (cases hs; exact .inr (.inl hc))
    · cases hs
  | create id soc rtv wtv ctl =>
    dsimp only [step] at hs
    split at hs
    · cases hs
      exact .inr (.inl (callback_register.trans hc))
    · cases hs
  | createUnbound id rtv wtv =>
    dsimp only [step] at hs
    split at hs
    · cases hs
      exact .inr (.inl hc)
    · cases hs
  | memcpy dst src n =>
    dsimp only [step] at hs
    split at hs
    · cases hs
      exact .inr (.inl hc)
    · cases hs
  | createAcceptor a soc =>
    dsimp only [step] at hs
    split at hs
    · cases hs
      exact .inr (.inl hc)
    · cases hs
  | readSome id buf size cb ms r now | readAll id buf size cb ms r now
  | writeAll id buf size cb ms r now =>
    unfold step at hs
    exact .inr (huser hs rfl)
  | close id =>
    unfold step at hs
    exact .inr (huser hs callback_closeSocket)
  | destroy id =>
    unfold step at hs
    exact .inr (huser hs callback_destroySocket)
  | listen a cb r =>
    unfold step at hs
    exact .inr (huser hs (listen_frame cb r).2.1)
  | closeAcceptor a =>
    unfold step at hs
    exact .inr (huser hs callback_closeAcceptor)
  | destroyAcceptor a =>
    unfold step at hs
    exact .inr (huser hs callback_destroyAcceptor)
  | stop | environment e =>
    cases hs
    exact .inr (.inl hc)
  | run | epollWait r | dispatch r w | accept r | processCompletion | startTimer now
  | processTimer => exact (hlib hs).elim

/-- What `epoll_wait` is required to report only holds of all events that are still waiting. -/
theorem waiting_of_reachable {p : State κ → Action κ → Prop} {P : PollEvent → Prop}
    (hp : ∀ s evs, p s (.epollWait (.events evs)) → ∀ ev ∈ evs, P ev)
    (hr : (proactor κ).Reachable p s) : ∀ ev ∈ s.pc.waiting, P ev := by
  apply hr.invariant (I := fun s => ∀ ev ∈ s.pc.waiting, P ev)
  · rintro s₀ ⟨mem, rfl⟩ ev hev
    cases hev
  · intro s₀ act s₁ _ hi ha hs ev hev
    rcases (step_control hs).waiting with hsub | ⟨evs, rfl, -, hpc⟩
    · exact hi ev (hsub.subset hev)
    · rw [hpc] at hev
      exact hp s₀ evs ha ev hev

/-- No callback runs while `run` stands at the test for `EPOLLOUT` or has ended by misuse. -/
theorem callback_none_of_reachable {p : State κ → Action κ → Prop}
    (hr : (proactor κ).Reachable p s) :
    ((∃ ev rest, s.pc = .output ev rest) ∨ s.pc.dead) → s.callback = none := by
  apply hr.invariant (I := fun s => ((∃ ev rest, s.pc = .output ev rest) ∨ s.pc.dead) →
    s.callback = none)
  · rintro s₀ ⟨mem, rfl⟩ -
    rfl
  · intro s₀ act s₁ _ hi _ hs hout
    have hstay : s₁.pc = s₀.pc → s₀.callback = none ∧ ¬ s₀.pc.looping := by
      intro hpc
      rw [hpc] at hout
      refine ⟨hi hout, ?_⟩
      rcases hout with ⟨ev, rest, he⟩ | he
      · rw [he]
        exact fun h => h
      · exact he.not_looping
    cases step_control hs with
    | stays hpc hc hq =>
      obtain ⟨hn, hl⟩ := hstay hpc
      rw [hn] at hc
      cases hc₁ : s₁.callback with
      | none => rfl
      | some inv =>
        rw [hc₁] at hc
        rcases hc rfl with h | h
        · cases h
        · exact (hl h).elim
    | removes hu hrem hpc hc hb hd =>
      rw [hc]
      exact (hstay hpc).1
    | closes hpc hup hpc' hb =>
      rcases hpc' with h | ⟨-, h⟩
      · rw [h] at hout
        rcases hout with ⟨ev, rest, he⟩ | he
        · cases he
        · exact he.elim
      · exact h
    | accepts _ hpc hpc' hq =>
      rw [hpc'] at hout
      rcases hout with ⟨ev, rest, he⟩ | he
      · cases he
      · exact he.elim
    | dies _ h _ | enters _ _ h _ | leaves _ _ h _ | idles _ _ h _ | polls _ _ _ _ h _ _
    | reads _ _ _ _ h _ _ _ | skips _ _ _ _ h _ | writes _ _ _ h _ _ | passes _ _ _ h _
    | drops _ _ _ _ h _ | continues _ _ _ _ h _ | ends _ _ _ h _ | times _ _ h _
    | loops _ _ h _ => exact h

end State

end EchoBenchmark.Proactor
