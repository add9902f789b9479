import EchoBenchmark.Proactor.Twins

/-!
A call that is refused while the operation of its token waits changes nothing of what that operation
delivers; one that is refused after the operation has ended changes the error it delivers.
-/

namespace EchoBenchmark.Proactor

open Heap (Noted)

variable {κ : Type}

/-! ### Steps of states that look alike -/

namespace State

variable {hide : Event → Bool} {s s' s₁ s₁' : State κ} {t v : TokenId} {id : SockId} {a : AccId}
  {r : ReadResult} {w : WriteResult} {act : Action κ} {h : Handler}

theorem Twin.dispatchClose (ht : Twin hide t s s') :
    Twin hide t (s.dispatchClose h) (s'.dispatchClose h) := by
  have he : Alike hide (s.heap.waits t) (s.emit (.dispatched h .onClose))
      (s'.emit (.dispatched h .onClose)) := ht.emit
  unfold State.dispatchClose
  dsimp only
  rw [he.live]
  split
  · exact he.fault.twin_noted (((Noted.refl _).emit (by trivial)).emit (by trivial))
  · cases h with
    | socket id =>
      refine he.onCloseSocket.twin (s := s) Set.sdiff_subset fun _ => ?_
      rw [mode_onCloseSocket]
      rfl
    | acceptor a =>
      refine he.onCloseAcceptor.twin_noted ?_
      exact invokeAccept_noted ((Noted.refl s.heap).emit (by trivial)) _

theorem Twin.dispatchRead {ev : PollEvent} {rest : List PollEvent} (ht : Twin hide t s s') :
    Twin hide t (s.dispatchRead ev rest r) (s'.dispatchRead ev rest r) := by
  have he : Alike hide (s.heap.waits t) (s.emit (.dispatched ev.handler .onRead))
      (s'.emit (.dispatched ev.handler .onRead)) := ht.emit
  unfold State.dispatchRead
  dsimp only
  rw [he.live]
  split
  · exact he.fault.twin_noted (((Noted.refl _).emit (by trivial)).emit (by trivial))
  · split
    · exact (he.onHeap (twin_onRead he.heap)).setPc _
    · exact he.setPc _

theorem Twin.dispatchWrite {rest : List PollEvent} (ht : Twin hide t s s') :
    Twin hide t (s.dispatchWrite h rest w) (s'.dispatchWrite h rest w) := by
  have he : Alike hide (s.heap.waits t) (s.emit (.dispatched h .onWrite))
      (s'.emit (.dispatched h .onWrite)) := ht.emit
  unfold State.dispatchWrite
  dsimp only
  rw [he.live]
  split
  · exact he.fault.twin_noted (((Noted.refl _).emit (by trivial)).emit (by trivial))
  · split
    · exact (he.onHeap (twin_onWrite he.heap)).setPc _
    · exact he.setPc _

theorem Twin.dispatch (ht : Twin hide t s s') :
    Option.Rel (Twin hide t) (s.dispatch r w) (s'.dispatch r w) := by
  have hdel : Twin hide t { s with deleted := [] } { s' with deleted := [] } := by
    obtain ⟨g, c, rfl, hh, hc⟩ := ht
    exact ⟨g, c, rfl, hh, hc⟩
  unfold State.dispatch
  rw [ht.pc]
  split
  · split
    · exact .some (Twin.dispatchClose (ht.setPc _))
    · split
      · exact .some hdel.dispatchRead
      · exact .some (ht.setPc _)
  · split
    · exact .some ht.dispatchWrite
    · exact .some (ht.setPc _)
  · exact .none

theorem Twin.accept (ht : Twin hide t s s') (r : AcceptResult) :
    Option.Rel (Twin hide t) (s.accept r) (s'.accept r) := by
  unfold State.accept
  rw [ht.pc]
  split
  · rename_i a ev rest hpc
    rw [ht.live, ht.acceptors]
    split
    · exact .some (ht.fault.twin_noted ((Noted.refl _).emit (by trivial)))
    · dsimp only
      split
      · split
        · exact .some ((ht.setAcceptor _).setPc _)
        · refine .some (Alike.twin_noted (s := s)
            (Alike.invokeAccept ((ht.setAcceptor _).setPc _) _) (invokeAccept_noted ?_ _))
          exact Noted.refl s.heap
      · rename_i fd nonblock
        have he := ht.emit (e := .opened a .accept fd)
        split
        · split
          · exact .some ((he.setAcceptor _).setPc _)
          · refine .some (Alike.twin_noted (s := s)
              (Alike.invokeAccept ((he.setAcceptor _).setPc _) _) (invokeAccept_noted ?_ _))
            exact (Noted.refl s.heap).emit (by trivial)
        · refine .some (Alike.twin_noted (s := s)
            (Alike.invokeAccept (he.setAcceptor _) _) (invokeAccept_noted ?_ _))
          exact (Noted.refl s.heap).emit (by trivial)
  · exact .none

theorem Twin.drained (ht : Twin hide t s s') : Option.Rel (Twin hide t) s.drained s'.drained := by
  obtain ⟨g, c, rfl, hh, hc⟩ := ht
  unfold State.drained
  dsimp only
  split
  · split
    · exact .some ⟨g, c, rfl, hh, hc⟩
    · exact .some ⟨g, c, rfl, hh, hc⟩
  · exact .some ⟨g, c, rfl, hh, hc⟩
  · exact .none

theorem Twin.processCompletion (hb : s.heap.Books) (ht : Twin hide t s s') :
    Option.Rel (Twin hide t) s.processCompletion s'.processCompletion := by
  unfold State.processCompletion
  rw [ht.pc, ht.heap.queue]
  split
  · split
    · exact ht.drained
    · rename_i cur rest hq
      rw [ht.heap.live]
      split
      · exact .some (ht.fault.twin_noted ((Noted.refl _).emit (by trivial)))
      · exact .some (twin_complete hb hq ht)
  · split
    · exact ht.drained
    · rename_i cur rest hq
      rw [ht.heap.live]
      split
      · exact .some (ht.fault.twin_noted ((Noted.refl _).emit (by trivial)))
      · exact .some (twin_complete hb hq ht)
  · exact .none

/-- A timeout sets the error before it is delivered. -/
theorem Twin.processTimer (ht : Twin hide t s s') :
    Option.Rel (Twin hide t) s.processTimer s'.processTimer := by
  unfold State.processTimer
  rw [ht.pc, ht.heap.timerList]
  split
  · rename_i now hpc
    split
    · exact .some (ht.setPc _)
    · rename_i cur timers hq
      rw [ht.heap.live]
      split
      · exact .some (ht.fault.twin_noted ((Noted.refl _).emit (by trivial)))
      · rw [ht.heap.tv]
        split
        · have hc : Alike hide (s.heap.waits t \ {cur}) (s.onHeap (·.expire cur timers))
              (s'.onHeap (·.expire cur timers)) := ht.onHeap (ht.heap.expire timers)
          dsimp only
          rw [hc.heap.err cur fun h => h.2 rfl]
          refine .some (hc.invoke.twin Set.sdiff_subset fun hmem => ?_)
          have hne : t ≠ cur := hmem.2
          rw [tok_invoke, heap_onHeap, Heap.tok_expire, if_neg hne]
        · exact .some (ht.setPc _)
  · exact .none

theorem Twin.startTimer (ht : Twin hide t s s') (now : Timeval) :
    Option.Rel (Twin hide t) (s.startTimer now) (s'.startTimer now) := by
  unfold State.startTimer
  rw [ht.pc]
  split
  · exact .some (ht.setPc _)
  · exact .none

theorem Twin.closeHandle (ht : Twin hide t s s') : Twin hide t s.closeHandle s'.closeHandle := by
  obtain ⟨g, c, rfl, hh, hc⟩ := ht
  unfold State.closeHandle
  dsimp only
  split
  · exact ⟨_, c, rfl, hh.emit _ _ rfl, hc⟩
  · exact ⟨g, c, rfl, hh, hc⟩

theorem Twin.epollWait (ht : Twin hide t s s') (r : PollResult) :
    Option.Rel (Twin hide t) (s.epollWait r) (s'.epollWait r) := by
  obtain ⟨g, c, rfl, hh, hc⟩ := ht
  have hclose : ∀ err : Error, Twin hide t { s with err := err }.closeHandle
      { s with heap := g, callback := c, err := err }.closeHandle :=
    fun err => Twin.closeHandle (s := { s with err := err }) ⟨g, c, rfl, hh, hc⟩
  unfold State.epollWait
  dsimp only
  split
  · exact .some ((hclose s.err).setPc _)
  · split
    · exact .some ((hclose _).setPc _)
    · split
      · exact .some ⟨g, c, rfl, hh, hc⟩
      · exact .none
    · have hreports : ∀ evs, State.reports { s with heap := g, callback := c } evs ↔
        s.reports evs := fun _ => Iff.rfl
      simp only [hreports]
      split
      · exact .some ⟨_, c, rfl, hh.emit _ _ rfl, hc⟩
      · exact .none

/-- The action is a call on the token that returns `false`. -/
def refuses (t : TokenId) (s : State κ) (act : Action κ) : Prop :=
  ∃ q ∈ act.request, q.token = t ∧ s.heap.live t.sock = true ∧ s.answer act = false

/-- A refused call on the token finds its operation waiting, not ended. -/
def refusesWaiting (t : TokenId) (s : State κ) (act : Action κ) : Prop :=
  s.refuses t act → (s.heap.tok t).mode.pending

instance (s : State κ) (act : Action κ) : Decidable (s.refuses t act) :=
  inferInstanceAs (Decidable (∃ q ∈ act.request, _))

instance (s : State κ) (act : Action κ) : Decidable (s.refusesWaiting t act) :=
  inferInstanceAs (Decidable (_ → _))

theorem user_twin (f : State κ → State κ) (ht : Twin hide t s s')
    (hf : s.live h = true → Twin hide t (f s) (f s')) :
    Option.Rel (Twin hide t) (s.user h f) (s'.user h f) := by
  unfold State.user
  rw [ht.userActive, ht.live]
  split
  · refine .some ?_
    split
    · exact ht.fault.twin_noted ((Noted.refl _).emit (by trivial))
    · rename_i hl
      exact hf (by simpa using hl)
  · exact .none

theorem if_twin {P : Prop} [Decidable P] (ht : P → Twin hide t s₁ s₁') :
    Option.Rel (Twin hide t) (if P then some s₁ else none) (if P then some s₁' else none) := by
  split
  · rename_i hP
    exact .some (ht hP)
  · exact .none

theorem library_twin {o o' : Option (State κ)} (ht : Twin hide t s s')
    (ho : Option.Rel (Twin hide t) o o') :
    Option.Rel (Twin hide t) (s.library o) (s'.library o') := by
  unfold State.library
  cases hc : s.callback with
  | none =>
    rw [ht.callback_none hc]
    exact ho
  | some inv =>
    have hsome := ht.isSome
    rw [hc] at hsome
    obtain ⟨inv', hc'⟩ := Option.isSome_iff_exists.mp hsome
    rw [hc']
    exact .none

theorem twin_step (act : Action κ) (hb : Consistent s) (ht : Twin hide t s s') :
    Option.Rel (Twin hide t) (s.step act) (s'.step act) := by
  -- no operation waits at an address without an object
  have hnew : ∀ {id : SockId} {soc : Int} {rtv wtv : Timeval}, s.heap.live id = false →
      t ∈ s.heap.waits t →
      ((s.heap.create id soc rtv wtv).tok t).mode = (s.heap.tok t).mode := by
    intro id soc rtv wtv hl hmem
    have hne : t.sock ≠ id := by
      rintro rfl
      exact Mode.ne_none_of_pending hmem.2 (hb.books.gone t hl)
    rw [Heap.tok_create, if_neg hne]
  cases act with
  | epollCreate fd errno =>
    obtain ⟨g, c, rfl, hh, hc⟩ := ht
    have hu : (State.userActive { s with heap := g, callback := c }) = s.userActive :=
      (show Alike hide (s.heap.waits t) s _ from ⟨g, c, rfl, hh, hc⟩).userActive
    dsimp only [step]
    rw [hu]
    split
    · split
      · exact .some ⟨g, c, rfl, hh, hc⟩
      · exact .some ⟨g, c, rfl, hh, hc⟩
    · exact .none
  | create id soc rtv wtv ctl =>
    dsimp only [step]
    rw [ht.userActive, ht.heap.live]
    refine if_twin fun hl => ?_
    have hc : Alike hide (s.heap.waits t) (s.newSocket id soc rtv wtv)
        (s'.newSocket id soc rtv wtv) := ht.onHeap (ht.heap.create soc rtv wtv)
    refine hc.register.twin le_rfl fun hmem => ?_
    rw [(register_noted (Noted.refl _)).tok t]
    exact hnew hl.2 hmem
  | createUnbound id rtv wtv =>
    dsimp only [step]
    rw [ht.userActive, ht.heap.live]
    refine if_twin fun hl => ?_
    exact (ht.onHeap (ht.heap.create INVALID_SOCKET rtv wtv)).twin le_rfl (hnew hl.2)
  | readSome id buf size cb ms r now =>
    refine user_twin (·.onHeap fun h => (h.readSome id buf size cb ms r now).1) ht fun _ => ?_
    exact twin_call ht rfl Heap.readSome_opens
      (fun h hm => Heap.readSome_busy hm) fun hm => ht.heap.readSome_free hm
  | readAll id buf size cb ms r now =>
    refine user_twin (·.onHeap fun h => (h.readAll id buf size cb ms r now).1) ht fun _ => ?_
    exact twin_call ht rfl Heap.readAll_opens
      (fun h hm => Heap.readAll_busy hm) fun hm => ht.heap.readAll_free hm
  | writeAll id buf size cb ms w now =>
    refine user_twin (·.onHeap fun h => (h.writeAll id buf size cb ms w now).1) ht fun _ => ?_
    exact twin_call ht rfl Heap.writeAll_opens
      (fun h hm => Heap.writeAll_busy hm) fun hm => ht.heap.writeAll_free hm
  | close id =>
    exact user_twin (·.closeSocket id) ht fun _ => ht.closeSocket.twin_noted closeSocket_noted
  | destroy id =>
    refine user_twin (·.destroySocket id) ht fun _ =>
      ht.destroySocket.twin Set.sdiff_subset fun hmem => ?_
    have hne : t.sock ≠ id := hmem.2
    unfold State.destroySocket
    dsimp only
    split
    · rw [heap_onHeap, Heap.tok_release, if_neg hne, Heap.tok_unlink, closeSocket_noted.tok]
    · rw [heap_onHeap, Heap.tok_release, if_neg hne, Heap.tok_unlink]
  | memcpy dst src n =>
    dsimp only [step]
    rw [ht.userActive]
    refine if_twin fun _ => ?_
    exact (ht.onHeap (ht.heap.memcpy dst src n)).twin_noted (memcpy_noted dst src n)
  | createAcceptor a soc =>
    dsimp only [step]
    rw [ht.userActive, ht.acceptors]
    exact if_twin fun _ => ht.setAcceptor _
  | listen a cb r => exact user_twin (fun s => (s.listen a cb r).1) ht fun _ =>
    (ht.listen cb r).twin_noted (listen_noted cb r)
  | closeAcceptor a => exact user_twin (·.closeAcceptor a) ht fun _ =>
    ht.closeAcceptor.twin_noted closeAcceptor_noted
  | destroyAcceptor a =>
    exact user_twin (·.destroyAcceptor a) ht fun _ =>
      ht.destroyAcceptor.twin_noted destroyAcceptor_noted
  | stop =>
    obtain ⟨g, c, rfl, hh, hc⟩ := ht
    exact .some ⟨g, c, rfl, hh, hc⟩
  | run =>
    refine library_twin ht ?_
    rw [ht.pc]
    exact if_twin fun _ => ht.setPc _
  | ret =>
    dsimp only [step]
    rw [ht.isSome]
    exact if_twin fun _ => ht.returns
  | epollWait r =>
    refine library_twin ht ?_
    rw [ht.pc]
    split
    · exact ht.epollWait r
    · exact .none
  | dispatch r w => exact library_twin ht ht.dispatch
  | accept r => exact library_twin ht (ht.accept r)
  | processCompletion => exact library_twin ht (ht.processCompletion hb.books)
  | startTimer now => exact library_twin ht (ht.startTimer now)
  | processTimer => exact library_twin ht ht.processTimer
  | environment e => exact .some ht.emit

/-- The refused call changes the error of the waiting operation, and nothing else that shows. -/
theorem twin_refused (hhide : hide (.refused t 0) = true) (ht : Twin hide t s s')
    (hr : s.refuses t act) (hp : (s.heap.tok t).mode.pending) (hs : s.step act = some s₁) :
    Twin hide t s₁ s' := by
  obtain ⟨q, hq, hqt, hl, hanswer⟩ := hr
  have hm : (s.heap.tok t).mode ≠ .none := Mode.ne_none_of_pending hp
  have hone : ∀ (d : Detail) (h₁ : Heap κ), h₁ = s.heap.refuse t d →
      Twin hide t { s with heap := h₁ } s' := by
    rintro d h₁ rfl
    obtain ⟨g, c, rfl, hh, hc⟩ := ht
    refine Alike.twin (s := s) (L := s.heap.waits t)
      ⟨g, c, rfl, hh.refuse_left ⟨rfl, hp⟩ hhide d, hc⟩
      le_rfl fun _ => ?_
    rw [Heap.tok_refuse, if_pos rfl]
  cases act with
  | readSome id buf size cb ms r now =>
    cases hq
    subst hqt
    unfold step at hs
    rw [user_live (h := .socket id) hl hs]
    exact hone _ _ (congrArg Prod.fst (Heap.readSome_busy hm))
  | readAll id buf size cb ms r now =>
    cases hq
    subst hqt
    unfold step at hs
    rw [user_live (h := .socket id) hl hs]
    exact hone _ _ (congrArg Prod.fst (Heap.readAll_busy hm))
  | writeAll id buf size cb ms r now =>
    cases hq
    subst hqt
    unfold step at hs
    rw [user_live (h := .socket id) hl hs]
    exact hone _ _ (congrArg Prod.fst (Heap.writeAll_busy hm))
  | _ => cases hq

end State

/-! ### Whole runs -/

/-- The refused calls on the token. -/
def refusedOf (t : TokenId) (e : Event) : Bool := decide (e = .refused t 0)

variable {s s' : State κ} {t : TokenId} {acts : List (Action κ)}

/-- Without the refused calls, the run calls the same callbacks with the same arguments, and finds
the same in the buffers. -/
theorem refused_calls_change_nothing (hr : (proactor κ).Reachable Machine.free s)
    (hrun : (proactor κ).exec (State.refusesWaiting t) s acts = some s') :
    ∃ s'', (proactor κ).exec Machine.free s
        ((proactor κ).without (State.refuses t) s acts) = some s'' ∧
      s''.callback.map Invocation.shown = s'.callback.map Invocation.shown ∧
      shown (refusedOf t) s''.heap.log = shown (refusedOf t) s'.heap.log ∧
      s''.heap.mem = s'.heap.mem := by
  obtain ⟨s'', hexec, -, g, c, rfl, hh, hc⟩ := Machine.exec_without
    (R := fun u v => Consistent u ∧ State.Twin (refusedOf t) t u v)
    (fun u act u₁ v hR hp hd hu =>
      ⟨hR.1.step hu, State.twin_refused (decide_eq_true rfl) hR.2 hd (hp hd) hu⟩)
    (fun u act u₁ v hR hp hd hu => by
      have hrel := State.twin_step act hR.1 hR.2
      have hu' : u.step act = some u₁ := hu
      rw [hu'] at hrel
      generalize hv : v.step act = o at hrel
      cases hrel with
      | some ht => exact ⟨_, hv, hR.1.step hu, ht⟩)
    hrun ⟨consistent_of_reachable hr, .refl⟩
  exact ⟨_, hexec, hc, hh.log, hh.mem⟩

/-- The callback of a read on descriptor 5 reads again, and the byte is there at once. -/
def readAgain : List (Action Unit) :=
  [.epollCreate 3 0, .create 0 5 ⟨0, 0⟩ ⟨0, 0⟩ 0,
    .readSome 0 ⟨0, 0⟩ 8 () 0 (.fail EAGAIN) ⟨10, 0⟩, .run,
    .epollWait (.events [⟨5, .socket 0, ⟨true, false, false, false, false⟩⟩]),
    .dispatch (.got [65]) (.accepted 0), .processCompletion,
    .readSome 0 ⟨0, 0⟩ 8 () 0 (.got [66]) ⟨10, 0⟩]

/-- It reads a third time, which is refused; then the completion is delivered. -/
def refusedThenDelivered : List (Action Unit) :=
  [.readSome 0 ⟨0, 0⟩ 8 () 0 (.got []) ⟨10, 0⟩, .ret, .processCompletion]

/-- The read had one byte and no error; after the refused call it is delivered with an error. -/
theorem refused_call_changes_error : ∃ s s' s'' : State Unit,
    (proactor Unit).Reachable Machine.free s ∧
    (proactor Unit).exec Machine.free s refusedThenDelivered = some s' ∧
    (proactor Unit).exec Machine.free s
      ((proactor Unit).without (State.refuses ⟨0, .read⟩) s refusedThenDelivered) = some s'' ∧
    s'.heap.log.head? = some (.called ⟨0, .read⟩ 1 (-1) 1 .completion) ∧
    s''.heap.log.head? = some (.called ⟨0, .read⟩ 1 0 1 .completion) := by
  obtain ⟨s, hr, hrun⟩ := Machine.exists_of_exec (M := proactor Unit) (p := Machine.free)
    (s := State.initial fun _ _ => 0) (l := readAgain)
    (f := fun s : State Unit =>
      (((proactor Unit).exec Machine.free s refusedThenDelivered).map
          fun s' : State Unit => s'.heap.log.head?,
        ((proactor Unit).exec Machine.free s
          ((proactor Unit).without (State.refuses ⟨0, .read⟩) s refusedThenDelivered)).map
          fun s'' : State Unit => s''.heap.log.head?))
    (b := (some (some (.called ⟨0, .read⟩ 1 (-1) 1 .completion)),
      some (some (.called ⟨0, .read⟩ 1 0 1 .completion)))) ⟨_, rfl⟩ rfl
  obtain ⟨hwith, hwithout⟩ := Prod.mk.inj hrun
  obtain ⟨s', hs', hlog'⟩ := Option.map_eq_some_iff.mp hwith
  obtain ⟨s'', hs'', hlog''⟩ := Option.map_eq_some_iff.mp hwithout
  exact ⟨s, s', s'', hr, hs', hs'', hlog', hlog''⟩

/-- A second read while the first waits, which the next event completes. -/
def refusedWhileWaiting : List (Action Unit) :=
  [.readSome 0 ⟨0, 0⟩ 8 () 0 (.got []) ⟨10, 0⟩, .run,
    .epollWait (.events [⟨5, .socket 0, ⟨true, false, false, false, false⟩⟩]),
    .dispatch (.got [65]) (.accepted 0), .processCompletion]

/-- A call that is refused while the read waits does not show in what it delivers. -/
theorem refused_calls_change_nothing_waiting : ∃ s s' s'' : State Unit,
    (proactor Unit).exec (State.refusesWaiting ⟨0, .read⟩) s refusedWhileWaiting = some s' ∧
    (proactor Unit).exec Machine.free s
      ((proactor Unit).without (State.refuses ⟨0, .read⟩) s refusedWhileWaiting) = some s'' ∧
    s'.heap.log.head? = some (.called ⟨0, .read⟩ 0 0 1 .completion) ∧
    shown (refusedOf ⟨0, .read⟩) s''.heap.log = shown (refusedOf ⟨0, .read⟩) s'.heap.log ∧
    s''.heap.mem = s'.heap.mem := by
  obtain ⟨s, hr, hrun⟩ := Machine.exists_of_exec (M := proactor Unit) (p := Machine.free)
    (s := State.initial fun _ _ => 0) (l := readAgain.take 3)
    (f := fun s : State Unit => ((proactor Unit).exec (State.refusesWaiting ⟨0, .read⟩) s
      refusedWhileWaiting).map fun s' : State Unit => s'.heap.log.head?)
    (b := some (some (.called ⟨0, .read⟩ 0 0 1 .completion))) ⟨_, rfl⟩ rfl
  obtain ⟨s', hs', hlog⟩ := Option.map_eq_some_iff.mp hrun
  obtain ⟨s'', hs'', -, hshown, hmem⟩ := refused_calls_change_nothing hr hs'
  exact ⟨s, s', s'', hs', hs'', hlog, hshown, hmem⟩

end EchoBenchmark.Proactor
