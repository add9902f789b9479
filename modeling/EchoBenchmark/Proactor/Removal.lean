import EchoBenchmark.Proactor.Control

/-!
Which handlers `run` may still call after a callback has removed some: `_deleted` protects the
event in hand only, not the events of the batch that come later.
-/

namespace EchoBenchmark.Proactor

variable {κ : Type} {s s' : State κ} {act : Action κ} {h : Handler}

/-- The handler was removed since the last batch came from `epoll_wait`. -/
def removedInBatch (h : Handler) : List Event → Prop
  | [] => False
  | .polled _ :: _ => False
  | .removed h' :: log => h' = h ∨ removedInBatch h log
  | _ :: log => removedInBatch h log

/-- No method was called on a handler that had been removed in the same batch. -/
def StaleFree : List Event → Prop
  | [] => True
  | .dispatched h _ :: log => ¬ removedInBatch h log ∧ StaleFree log
  | _ :: log => StaleFree log

theorem removedInBatch_batchLog {log : List Event} :
    removedInBatch h (batchLog log) ↔ removedInBatch h log := by
  induction log with
  | nil => rfl
  | cons e log ih =>
    cases e with
    | polled evs => rfl
    | removed h' => exact or_congr_right ih
    | _ => exact ih

theorem staleFree_batchLog {log : List Event} : StaleFree (batchLog log) ↔ StaleFree log := by
  induction log with
  | nil => rfl
  | cons e log ih =>
    cases e with
    | dispatched h m => exact and_congr (not_congr removedInBatch_batchLog) ih
    | _ => exact ih

/-- `run` calls a method of the handler for this event. -/
def PollEvent.calls (ev : PollEvent) : Prop :=
  ev.events.hangup = true ∨ ev.events.input = true ∨ ev.events.pollout = true

instance (ev : PollEvent) : Decidable ev.calls := inferInstanceAs (Decidable (_ ∨ _))

/-- The event whose `onRead` was called and whose `EPOLLOUT` has not been looked at. -/
def Pc.inHand : Pc → Option PollEvent
  | .acceptLoop _ ev _ | .drainRead ev _ => some ev
  | _ => none

theorem Pc.dead.inHand {p : Pc} (hd : p.dead) : p.inHand = none := by
  cases p with
  | thrown | undefined => rfl
  | _ => exact hd.elim

theorem Pc.dead.ne_output {p : Pc} (hd : p.dead) (ev : PollEvent) (rest : List PollEvent) :
    p ≠ .output ev rest := by
  rintro rfl
  exact hd

namespace State

/-- User code removes no handler for which an event of the batch is still to come. -/
def sparesWaiting (s : State κ) (act : Action κ) : Prop :=
  ∀ h ∈ s.removes act, ∀ ev ∈ s.pc.waiting, ev.calls → ev.handler ≠ h

instance (act : Action κ) : Decidable (s.sparesWaiting act) := by
  unfold sparesWaiting
  infer_instance

/-- What `run` still has to call is not removed, or is listed in `_deleted`. -/
structure Unremoved (s : State κ) : Prop where
  fresh : StaleFree s.batch
  waiting : ∀ ev ∈ s.pc.waiting, ev.calls → ¬ removedInBatch ev.handler s.batch
  inHand : ∀ ev ∈ s.pc.inHand, removedInBatch ev.handler s.batch → ev.handler ∈ s.deleted
  output : ∀ ev rest, s.pc = .output ev rest → ev.events.pollout = true →
    ¬ removedInBatch ev.handler s.batch

namespace Unremoved

/-- The counter moved on to events that are no less safe. -/
theorem quiet (hi : Unremoved s) (hq : Quiet s s') (hw : s'.pc.waiting <:+ s.pc.waiting)
    (hh : ∀ ev ∈ s'.pc.inHand, ev ∈ s.pc.inHand)
    (ho : ∀ ev rest, s'.pc = .output ev rest → ev.events.pollout = true →
      ¬ removedInBatch ev.handler s.batch) : Unremoved s' := by
  obtain ⟨hb, hd⟩ := hq
  refine ⟨?_, ?_, ?_, ?_⟩
  · rw [hb]
    exact hi.fresh
  · intro ev hev
    rw [hb]
    exact hi.waiting ev (hw.subset hev)
  · intro ev hev
    rw [hb, hd]
    exact hi.inHand ev (hh ev hev)
  · intro ev rest hpc hout
    rw [hb]
    exact ho ev rest hpc hout

/-- A method is called for an event that was safe. -/
theorem dispatched {ev : PollEvent} {m : Method} (hi : Unremoved s)
    (hev : ¬ removedInBatch ev.handler s.batch) (hw : s'.pc.waiting <:+ s.pc.waiting)
    (hb : s'.batch = .dispatched ev.handler m :: s.batch)
    (hh : ∀ ev' ∈ s'.pc.inHand, ev' = ev) (ho : ∀ ev rest, s'.pc ≠ .output ev rest) :
    Unremoved s' := by
  have hrem : ∀ h, removedInBatch h s'.batch ↔ removedInBatch h s.batch := by
    intro h
    rw [hb]
    rfl
  refine ⟨?_, ?_, ?_, ?_⟩
  · rw [hb]
    exact ⟨hev, hi.fresh⟩
  · intro ev' hev' hcalls
    rw [hrem]
    exact hi.waiting ev' (hw.subset hev') hcalls
  · intro ev' hev' hr
    rw [hrem, hh ev' hev'] at hr
    exact (hev hr).elim
  · intro ev' rest hpc
    exact (ho ev' rest hpc).elim

theorem step (hr : (proactor κ).Reachable sparesWaiting s) (hi : Unremoved s)
    (hp : s.sparesWaiting act) (hs : s.step act = some s') : Unremoved s' := by
  -- a quiet move to a place that is neither the test for EPOLLOUT nor new in hand
  have hmove : ∀ {p p' : Pc}, s.pc = p → s'.pc = p' → Quiet s s' → p'.waiting <:+ p.waiting →
      (∀ ev ∈ p'.inHand, ev ∈ p.inHand) → (∀ ev rest, p' ≠ .output ev rest) → Unremoved s' := by
    rintro p p' rfl rfl hq hw hh ho
    exact hi.quiet hq hw hh fun ev rest hpc => (ho ev rest hpc).elim
  cases step_control hs with
  | stays hpc _ hq =>
    refine hi.quiet hq (hpc ▸ List.suffix_refl _) (hpc ▸ fun _ h => h) ?_
    rw [hpc]
    exact hi.output
  | @removes h hu hrem hpc _ hb hd =>
    have hcase : ∀ h', removedInBatch h' s'.batch ↔ h = h' ∨ removedInBatch h' s.batch := by
      intro h'
      rw [hb]
      rfl
    refine ⟨?_, ?_, ?_, ?_⟩
    · rw [hb]
      exact hi.fresh
    · intro ev hev hcalls
      rw [hpc] at hev
      rw [hcase]
      rintro (heq | hold)
      · exact hp h hrem ev hev hcalls heq.symm
      · exact hi.waiting ev hev hcalls hold
    · intro ev hev hr'
      rw [hpc] at hev
      rw [hd, List.mem_append, List.mem_singleton]
      rcases (hcase _).mp hr' with heq | hold
      · exact .inr heq.symm
      · exact .inl (hi.inHand ev hev hold)
    · intro ev rest hout
      -- at the test for EPOLLOUT no user code runs
      rw [hpc] at hout
      have hn := callback_none_of_reachable hr (.inl ⟨ev, rest, hout⟩)
      simp [userActive, hn, hout] at hu
  | dies hdead _ hb =>
    refine ⟨by rw [hb]; exact hi.fresh, ?_, ?_, ?_⟩
    · rw [hdead.waiting]
      intro ev hev
      cases hev
    · rw [hdead.inHand]
      intro ev hev
      cases hev
    · intro ev rest hpc
      exact (hdead.ne_output ev rest hpc).elim
  | @polls evs ha hpc hrep hpc' _ hb =>
    have hnone : ∀ h, ¬ removedInBatch h s'.batch := by
      intro h
      rw [hb]
      exact id
    refine ⟨?_, fun ev _ _ => hnone _, fun ev _ hr' => (hnone _ hr').elim, fun ev _ _ _ => hnone _⟩
    rw [hb]
    exact hi.fresh
  | enters hpc hpc' _ hq | leaves hpc hpc' _ hq | idles hpc hpc' _ hq | times hpc hpc' _ hq
  | loops hpc hpc' _ hq | passes hpc _ hpc' _ hq | drops hpc _ _ hpc' _ hq | ends hpc _ hpc' _ hq =>
    exact hmove hpc hpc' hq (by simp [Pc.waiting]) (by simp [Pc.inHand]) (by simp)
  | accepts _ hpc hpc' hq =>
    exact hmove hpc hpc' hq (by simp [Pc.waiting]) (by simp [Pc.inHand]) (by simp)
  | @closes ev rest hpc hup hpc' hb =>
    have hev := hi.waiting ev (by rw [hpc]; exact List.mem_cons_self) (.inl hup)
    rcases hpc' with h | ⟨h, -⟩
    · exact hi.dispatched hev (by simp [hpc, h, Pc.waiting]) hb (by simp [h, Pc.inHand])
        (by simp [h])
    · exact hi.dispatched hev (by simp [h.waiting]) hb (by simp [h.inHand]) (by simp [h.ne_output])
  | @reads ev rest hpc hup hin hpc' _ _ hb =>
    have hev := hi.waiting ev (by rw [hpc]; exact List.mem_cons_self) (.inr (.inl hin))
    rcases hpc' with h | ⟨a, -, h⟩ | h
    · exact hi.dispatched hev (by simp [hpc, h, Pc.waiting]) hb (by simp [h, Pc.inHand])
        (by simp [h])
    · exact hi.dispatched hev (by simp [hpc, h, Pc.waiting]) hb (by simp [h, Pc.inHand])
        (by simp [h])
    · exact hi.dispatched hev (by simp [h.waiting]) hb (by simp [h.inHand]) (by simp [h.ne_output])
  | @writes ev rest hpc hout hpc' _ hb =>
    have hev := hi.output ev rest hpc hout
    rcases hpc' with h | h
    · exact hi.dispatched hev (by simp [hpc, h, Pc.waiting]) hb (by simp [h, Pc.inHand])
        (by simp [h])
    · exact hi.dispatched hev (by simp [h.waiting]) hb (by simp [h.inHand]) (by simp [h.ne_output])
  | @skips ev rest hpc hup hin hpc' _ hq =>
    refine hi.quiet hq (by simp [hpc, hpc', Pc.waiting]) (by simp [hpc', Pc.inHand]) ?_
    intro ev' rest' heq hout
    rw [hpc'] at heq
    cases heq
    exact hi.waiting ev (by rw [hpc]; exact List.mem_cons_self) (.inr (.inr hout))
  | @continues ev rest hpc hq₀ hnd hpc' _ hq =>
    refine hi.quiet hq (by simp [hpc, hpc', Pc.waiting]) (by simp [hpc', Pc.inHand]) ?_
    intro ev' rest' heq hout hrem
    rw [hpc'] at heq
    cases heq
    exact hnd (hi.inHand ev (by rw [hpc]; rfl) hrem)

end Unremoved

theorem unremoved_of_reachable (hr : (proactor κ).Reachable sparesWaiting s) : Unremoved s := by
  apply hr.invariant (I := Unremoved)
  · rintro s₀ ⟨mem, rfl⟩
    exact ⟨trivial, by simp [initial, Pc.waiting], by simp [initial, Pc.inHand], by simp [initial]⟩
  · intro s₀ act s₁ hr₀ hi hp hs
    exact hi.step hr₀ hp hs

end State

/-- While no callback removes a handler with an event of the batch still to come, no method of a
removed handler is called. -/
theorem no_stale_dispatch (hr : (proactor κ).Reachable State.sparesWaiting s) :
    StaleFree s.heap.log :=
  staleFree_batchLog.mp (State.unremoved_of_reachable hr).fresh

/-- Two Sockets on descriptors 5 and 6, each with a read that waits. -/
def twoReaders : List (Action Unit) :=
  [.epollCreate 3 0, .create 0 5 ⟨0, 0⟩ ⟨0, 0⟩ 0, .create 1 6 ⟨0, 0⟩ ⟨0, 0⟩ 0,
    .readSome 0 ⟨0, 0⟩ 8 () 0 (.fail EAGAIN) ⟨10, 0⟩,
    .readSome 1 ⟨1, 0⟩ 8 () 0 (.fail EAGAIN) ⟨10, 0⟩, .run]

/-- The events of `EPOLLIN` and `EPOLLOUT` for a Socket. -/
def inputOutput (fd : Int) (id : SockId) : PollEvent :=
  ⟨fd, .socket id, ⟨true, false, true, false, false⟩⟩

/-- A callback destroys its own Socket, which is not written to in this round. -/
theorem no_stale_dispatch_own : ∃ s : State Unit,
    (proactor Unit).Reachable State.sparesWaiting s ∧ s.pc = .event [] ∧
    .destroyed 0 ∈ s.heap.log ∧ StaleFree s.heap.log := by
  obtain ⟨s, hr, hf⟩ := Machine.exists_of_exec (M := proactor Unit) (p := State.sparesWaiting)
    (s := State.initial fun _ _ => 0)
    (l := twoReaders ++ [.epollWait (.events [inputOutput 5 0]),
      .dispatch (.got [65]) (.accepted 0), .processCompletion, .destroy 0, .ret,
      .processCompletion])
    (f := fun s => (s.pc, decide (.destroyed 0 ∈ s.heap.log)))
    (b := (.event [], true)) ⟨_, rfl⟩ rfl
  obtain ⟨hpc, hd⟩ := Prod.mk.inj hf
  exact ⟨s, hr, hpc, of_decide_eq_true hd, no_stale_dispatch hr⟩

/-- A callback destroys the other Socket of the batch, whose `onRead` is called all the same. -/
theorem stale_dispatch : ∃ s : State Unit, (proactor Unit).Reachable Machine.free s ∧
    .useAfterFree (.socket 1) ∈ s.heap.log ∧ ¬ StaleFree s.heap.log := by
  obtain ⟨s, hr, hf⟩ := Machine.exists_of_exec (M := proactor Unit) (p := Machine.free)
    (s := State.initial fun _ _ => 0)
    (l := twoReaders ++ [.epollWait (.events [inputOutput 5 0, inputOutput 6 1]),
      .dispatch (.got [65]) (.accepted 0), .processCompletion, .destroy 1, .ret,
      .processCompletion, .dispatch (.got []) (.accepted 0), .processCompletion,
      .dispatch (.got [66]) (.accepted 0)])
    (f := fun s => s.heap.log.take 7)
    (b := [.useAfterFree (.socket 1), .dispatched (.socket 1) .onRead,
      .dispatched (.socket 0) .onWrite, .destroyed 1, .closedFd 6, .removed (.socket 1),
      .called ⟨0, .read⟩ 0 0 1 .completion]) ⟨_, rfl⟩ rfl
  have hlog := List.take_append_drop 7 s.heap.log
  rw [hf] at hlog
  refine ⟨s, hr, ?_, ?_⟩
  · rw [← hlog]
    exact List.mem_cons_self
  · rw [← hlog]
    exact fun h => h.1 (.inl rfl)

end EchoBenchmark.Proactor
