import EchoBenchmark.Proactor.Accounts
import EchoBenchmark.Proactor.Control

/-!
What a hang-up completes. `onClose` overwrites both errors, calls back one direction and leaves
both tokens as they were; it serves a Socket that only waits for its read and goes away with it.
-/

namespace EchoBenchmark.Proactor

variable {κ : Type} {s s' s₁ s₂ : State κ} {act : Action κ} {id : SockId} {i : Nat} {t : TokenId}
  {cb : Callback κ} {r : ReadResult} {w : WriteResult}

/-- What the hang-up on Socket `id` that `run` dispatches in state `s` owes in a later state. -/
structure HangupServed (id : SockId) (s s' : State κ) : Prop where
  pending : ∀ d cb, (s.heap.tok ⟨id, d⟩).mode.pending → (s.heap.tok ⟨id, d⟩).cb = some cb →
    (deliveries cb.call s'.heap.log).length ≤ 1 ∧
    (∀ x ∈ deliveries cb.call s'.heap.log, x.1 = ECONNRESET) ∧
    (s'.pc = .poll → deliveries cb.call s'.heap.log ≠ [])
  idle : ∀ d cb, (s.heap.tok ⟨id, d⟩).mode = .none → (s.heap.tok ⟨id, d⟩).cb = some cb →
    deliveries cb.call s'.heap.log = deliveries cb.call s.heap.log
  finished : ∀ d cb, (s.heap.tok ⟨id, d⟩).mode.finished → (s.heap.tok ⟨id, d⟩).cb = some cb →
    deliveries cb.call s'.heap.log =
      [((s.heap.tok ⟨id, d⟩).err.code, (s.heap.tok ⟨id, d⟩).ioSize)] ∨
    deliveries cb.call s'.heap.log = [] ∧ ⟨id, d⟩ ∈ s'.heap.queue ∧
      (s'.heap.tok ⟨id, d⟩).cb = some cb ∧
      (s'.heap.tok ⟨id, d⟩).err.code = (s.heap.tok ⟨id, d⟩).err.code ∧
      (s'.heap.tok ⟨id, d⟩).ioSize = (s.heap.tok ⟨id, d⟩).ioSize

/-! ### Runs in which hang-ups are served -/

/-- A pending operation, or one that failed with the result that a hang-up gives. -/
def Token.awaitsReset (k : Token κ) : Prop :=
  k.mode.pending ∨ k.mode = .err ∧ k.err.code = ECONNRESET ∧ k.ioSize = 0

instance (k : Token κ) : Decidable k.awaitsReset := inferInstanceAs (Decidable (_ ∨ _))

/-- The Socket whose `onClose` the next dispatch calls. -/
def State.closing (s : State κ) : Option SockId :=
  match s.pc with
  | .event (ev :: _) =>
    match ev.handler with
    | .socket id => if ev.events.hangup = true ∧ s.heap.live id = true then some id else none
    | .acceptor _ => none
  | _ => none

/-- A hang-up finds a read to reset and no write, and its callback destroys the Socket. -/
def servesHangups (s : State κ) : Action κ → Prop
  | .dispatch _ _ => ∀ id ∈ s.closing,
    (s.heap.tok ⟨id, .read⟩).awaitsReset ∧ (s.heap.tok ⟨id, .write⟩).mode = .none
  | .ret =>
    match s.callback with
    | some (.io t cb _ _ .hangup) => (s.heap.tok t).cb.map Callback.call ≠ some cb.call
    | _ => True
  | _ => True

instance (s : State κ) (act : Action κ) : Decidable (servesHangups s act) := by
  apply @Action.casesOn κ _ act <;> (intros; dsimp only [servesHangups]; try infer_instance)
  generalize s.callback = c
  apply @Option.casesOn _ _ c
  · dsimp only
    infer_instance
  · intro i
    apply @Invocation.casesOn κ _ i
    · intro t cb err bytes via
      apply @Via.casesOn _ via <;> (dsimp only; infer_instance)
    · intros
      dsimp only
      infer_instance

theorem closing_of_hangsUp (hup : s.hangsUp id) : s.closing = some id := by
  obtain ⟨ev, rest, hpc, hev, hh, hl⟩ := hup
  simp [State.closing, hpc, hh, hev, hl]

theorem Token.awaitsReset.mode_ne {k : Token κ} (hk : k.awaitsReset) :
    k.mode ≠ .none ∧ k.mode ≠ .done := by
  rcases hk with (hm | hm) | ⟨hm, -, -⟩ <;> simp [hm]

/-- The step that serves the read of a Socket. -/
theorem hangup_step (hup : s.hangsUp id) (hm : (s.heap.tok ⟨id, .read⟩).mode ≠ .done)
    (hcb : (s.heap.tok ⟨id, .read⟩).cb = some cb) (hs : s.step (.dispatch r w) = some s') :
    callLog s'.heap.log = .called ⟨id, .read⟩ cb.call ECONNRESET 0 .hangup :: callLog s.heap.log ∧
      s'.callback = some (.io ⟨id, .read⟩ cb ⟨ECONNRESET, .closed⟩ 0 .hangup) := by
  obtain ⟨ev, rest, hpc, hev, hh, hl⟩ := hup
  obtain ⟨-, hs⟩ := State.library_some hs
  have hlive : ({ s with pc := .event rest }.emit (.dispatched ev.handler .onClose)).live
      ev.handler = true := by
    rw [State.live_emit, hh]
    exact hl
  simp only [State.dispatch, hpc, hev, if_true, Option.some.injEq] at hs
  subst hs
  unfold State.dispatchClose
  dsimp only
  rw [hlive, if_neg (by simp), hh]
  dsimp only
  obtain ⟨-, he⟩ | ⟨hd, -, -⟩ | ⟨hd, -, -⟩ := State.onCloseSocket_cases
    ({ s with pc := .event rest }.emit (.dispatched (.socket id) .onClose)) id
  · rw [he]
    have hcb' : ((({ s with pc := .event rest }.emit
        (.dispatched (.socket id) .onClose)).resetErrs id).heap.tok ⟨id, .read⟩).cb = some cb :=
      cb_resetErrs.trans hcb
    obtain ⟨hn, -⟩ | ⟨c, hc, hinv⟩ := State.invoke_cases
      (({ s with pc := .event rest }.emit (.dispatched (.socket id) .onClose)).resetErrs id)
      ⟨id, .read⟩ ⟨ECONNRESET, .closed⟩ 0 .hangup
    · rw [hcb'] at hn
      cases hn
    · rw [hcb'] at hc
      cases hc
      rw [hinv]
      exact ⟨rfl, rfl⟩
  · exact (hm hd).elim
  · exact (hm hd).elim

/-! ### Calls that are over -/

/-- Call `i` cannot be called back any more: no token holds it, but for that of a hang-up whose
callback still runs. -/
def Discharged (i : Nat) (s : State κ) : Prop :=
  s.pc.dead ∨ Named (fun _ _ => False) i s.heap ∨
    ∃ t cb err bytes, s.callback = some (.io t cb err bytes .hangup) ∧ cb.call = i ∧
      Named (fun u _ => u = t) i s.heap

theorem Discharged.step (hd : Discharged i s) (hp : servesHangups s act)
    (hs : s.step act = some s') : Discharged i s' := by
  rcases hd with hd | hd | ⟨t, cb, err, bytes, hc, hi, hn⟩
  · exact .inl ((State.step_control hs).dead hd)
  · exact .inr (.inl (hd.step hs))
  · rcases State.callback_kept hc hs with rfl | hc' | hd
    · -- the callback returns and has destroyed its Socket
      refine .inr (.inl ⟨(hn.step hs).numbered, fun u cu hcu hiu => ?_⟩)
      have hu : u = t := (hn.step hs).holds u cu hcu hiu
      subst hu
      have hheap : s'.heap = s.heap := by
        dsimp only [State.step] at hs
        rw [hc] at hs
        cases hs
        rfl
      rw [hheap] at hcu
      simp only [servesHangups, hc, hcu, Option.map_some] at hp
      exact hp (congrArg some (hiu.trans hi.symm))
    · exact .inr (.inr ⟨t, cb, err, bytes, hc', hi, hn.step hs⟩)
    · exact .inl hd

/-- A step calls back no call that is over. -/
theorem Discharged.not_called {err : Error} {bytes : Int} {via : Via} (hd : Discharged i s)
    (hs : s.step act = some s') (hr : (proactor κ).Reachable servesHangups s')
    (hn : s.callback = none) (hcb : (s.heap.tok t).cb = some cb)
    (hc' : s'.callback = some (.io t cb err bytes via)) : cb.call ≠ i := by
  intro hi
  rcases hd with hd | hd | ⟨u, cu, e, b, hc, -, -⟩
  · rw [State.callback_none_of_reachable hr (.inr ((State.step_control hs).dead hd))] at hc'
    cases hc'
  · exact hd.holds t cb hcb hi
  · rw [hn] at hc
    cases hc

theorem Discharged.deliveries_eq (hd : Discharged i s) (hs : s.step act = some s')
    (hr : (proactor κ).Reachable servesHangups s') :
    deliveries i s'.heap.log = deliveries i s.heap.log := by
  have hcalls : deliveries i (callLog s.heap.log) = deliveries i s.heap.log := deliveries_callLog
  rw [← deliveries_callLog, ← hcalls]
  cases invokes_step hs with
  | none hlog => rw [hlog]
  | callback hn hcb hc' hlog _ _ =>
    rw [hlog, deliveries, if_neg (hd.not_called hs hr hn hcb hc')]

/-- The call that a hang-up calls back is over. -/
theorem discharged_of_hangup {err : Error} {bytes : Int}
    (hr : (proactor κ).Reachable servesHangups s) (hs : s.step act = some s')
    (hcb : (s.heap.tok t).cb = some cb) (hc' : s'.callback = some (.io t cb err bytes .hangup)) :
    Discharged cb.call s' := by
  have hnum := numbered_of_reachable hr
  have hn : Named (fun u (_ : κ) => u = t) cb.call s.heap :=
    ⟨hnum.owned t cb hcb, fun u cu hcu hiu => hnum.distinct u t cu cb hcu hcb hiu⟩
  exact .inr (.inr ⟨t, cb, err, bytes, hc', rfl, hn.step hs⟩)

theorem discharged_of_hungUp (hr : (proactor κ).Reachable servesHangups s) :
    HungUp i s.heap.log → Discharged i s := by
  apply hr.invariant (I := fun s => HungUp i s.heap.log → Discharged i s)
  · rintro s₀ ⟨mem, rfl⟩ h
    exact h.elim
  · intro s₀ act s₁ hr₀ ih hp hs hh
    rw [← hungUp_callLog] at hh
    cases invokes_step hs with
    | none hlog =>
      rw [hlog, hungUp_callLog] at hh
      exact (ih hh).step hp hs
    | @callback t cb err bytes via hn hcb hc' hlog _ _ =>
      rw [hlog] at hh
      cases via with
      | hangup =>
        rcases hh with rfl | hh
        · exact discharged_of_hangup hr₀ hs hcb hc'
        · exact (ih (hungUp_callLog.mp hh)).step hp hs
      | completion | timer => exact (ih (hungUp_callLog.mp hh)).step hp hs

/-- The callback of an operation in progress has not been called. -/
theorem deliveries_of_busy (hr : (proactor κ).Reachable servesHangups s) (hc : s.callback = none)
    (hpc : ¬ s.pc.dead) (hm : (s.heap.tok t).mode ≠ .none) (hcb : (s.heap.tok t).cb = some cb) :
    deliveries cb.call s.heap.log = [] := by
  have hno : ¬ HungUp cb.call s.heap.log := by
    intro hh
    rcases discharged_of_hungUp hr hh with hd | hd | ⟨u, cu, e, b, hc', -, -⟩
    · exact hpc hd
    · exact hd.holds t cb hcb rfl
    · rw [hc] at hc'
      cases hc'
  have hd := State.delivers_of_reachable hr
  obtain ⟨c, hc₁, hh⟩ := hd.busy t hm
  rw [hcb] at hc₁
  cases hc₁
  rw [← List.length_eq_zero_iff, length_deliveries hno]
  exact (Ledger.holder_unique hd.legal).2 t hh

/-! ### Callbacks of idle tokens -/

/-- Only idle tokens hold call `i`. -/
structure Retired (i : Nat) (h : Heap κ) : Prop where
  numbered : i < h.nextCall
  idle : ∀ u cb, (h.tok u).cb = some cb → cb.call = i → (h.tok u).mode = .none

section Retiring

variable {h h₁ h' : Heap κ} {u : TokenId} {q : Request κ} {e : Event} {ok : Bool}

theorem Retired.of_renames (hi : Retired i h) (hr : Renames h h')
    (hm : ∀ u cb, (h'.tok u).cb = some cb → cb.call = i → (h.tok u).mode = .none →
      (h'.tok u).mode = .none) : Retired i h' := by
  cases hr with
  | kept hold hle =>
    exact ⟨lt_of_lt_of_le hi.numbered hle, fun u cb hc hn =>
      hm u cb hc hn (hi.idle u cb (hold u cb hc) hn)⟩
  | named q hnew hold hlt =>
    refine ⟨hi.numbered.trans hlt, fun u cb hc hn => ?_⟩
    by_cases hu : u = q.token
    · rw [hu, hnew] at hc
      cases hc
      exact absurd hi.numbered (by rw [← hn]; exact lt_irrefl _)
    · exact hm u cb hc hn (hi.idle u cb (hold u cb hu hc) hn)

theorem Retired.opens (hi : Retired i h) (ho : h.Opens q (h', ok)) : Retired i h' := by
  refine hi.of_renames (renames_opens ho) fun u cb hc hn hidle => ?_
  have htaken : ∀ {e : Event} {h₁ : Heap κ}, h.Begun q e h₁ →
      (h'.tok q.token).cb = (h₁.tok q.token).cb →
      u ≠ q.token := by
    rintro e h₁ hs hcb rfl
    rw [hcb, hs.cb] at hc
    cases hc
    exact absurd hi.numbered (by rw [← hn]; exact lt_irrefl _)
  cases ho with
  | refused d hm =>
    rw [Heap.tok_refuse]
    split
    · rename_i hu
      exact (hm (hu ▸ hidle)).elim
    · exact hidle
  | finished hs hf =>
    have hu := htaken hs (by rw [Heap.tok_finish, if_pos rfl])
    rw [Heap.tok_finish, if_neg hu, hs.other u hu]
    exact hidle
  | parked hs hp he =>
    have hu := htaken hs (by rw [Heap.tok_park, if_pos rfl])
    rw [Heap.tok_park, if_neg hu, hs.other u hu]
    exact hidle

theorem Retired.progresses (hi : Retired i h) (hp : h.Progresses t h') : Retired i h' := by
  refine hi.of_renames (renames_progresses hp) fun u cb hc hn hidle => ?_
  cases hp with
  | idle => exact hidle
  | waits hm hs he =>
    by_cases hu : u = t
    · rw [hu, hs.mode, ← hu]
      exact hidle
    · rw [hs.other u hu]
      exact hidle
  | finishes hm hs hf =>
    have hu : u ≠ t := by
      rintro rfl
      exact Mode.ne_none_of_pending hm hidle
    rw [Heap.tok_finish, if_neg hu, hs.other u hu]
    exact hidle

theorem Retired.step (hi : Retired i s.heap) (hs : s.step act = some s') : Retired i s'.heap := by
  have hren := renames_step hs
  cases State.step_effect hs with
  | noted hn _ => exact hi.of_renames hren fun u cb _ _ hm => by rw [hn.tok]; exact hm
  | created hl hn hpc =>
    refine hi.of_renames hren fun u cb _ _ hm => ?_
    rw [hn.tok, Heap.tok_create]
    split
    · rfl
    · exact hm
  | opened hq hl ho hpc => exact hi.opens ho
  | progressed hl hn hpr ht =>
    exact (hi.of_renames (renames_noted hn) fun u cb _ _ hm => by rw [hn.tok]; exact hm).progresses
      hpr
  | destroyed hl hn he hpc =>
    refine hi.of_renames hren fun u cb _ _ hm => ?_
    rw [he, Heap.tok_release, Heap.tok_unlink]
    split
    · rfl
    · rw [hn.tok]
      exact hm
  | completed hc hpc hq hl he =>
    subst he
    refine hi.of_renames hren fun u cb _ _ hm => ?_
    rw [State.tok_invoke, State.heap_onHeap, Heap.tok_complete]
    split
    · rfl
    · exact hm
  | fired hc hpc ht hl hlt he =>
    subst he
    refine hi.of_renames hren fun u cb _ _ hm => ?_
    rw [State.tok_invoke, State.heap_onHeap, Heap.tok_expire]
    split
    · rfl
    · exact hm
  | hungup ha hc hpc hup hh hl he =>
    subst he
    refine hi.of_renames hren fun u cb _ _ hm => ?_
    refine State.onCloseSocket_rule (P := fun s' => (s'.heap.tok u).mode = .none) ?_ fun _ _ => ?_
    · rw [State.tok_resetErrs]
      split <;> exact hm
    · rw [State.tok_invoke, State.tok_resetErrs]
      split <;> exact hm

/-- The callback of an idle token is not called as long as hang-ups find a read to reset. -/
theorem Retired.deliveries_eq (hi : Retired i s.heap)
    (hr : (proactor κ).Reachable servesHangups s) (hp : servesHangups s act)
    (hs : s.step act = some s') : deliveries i s'.heap.log = deliveries i s.heap.log := by
  have hcalls : deliveries i (callLog s.heap.log) = deliveries i s.heap.log := deliveries_callLog
  rw [← deliveries_callLog, ← hcalls]
  cases invokes_step hs with
  | none hlog => rw [hlog]
  | @callback t cb err bytes via hn hcb hc' hlog hmem hvia =>
    have hne : cb.call ≠ i := by
      intro he
      have hidle := hi.idle t cb hcb he
      have hb := (consistent_of_reachable hr).books
      by_cases hv : via = .hangup
      · obtain ⟨⟨r, w, rfl⟩, hup, hdir, -, -⟩ := hvia hv
        obtain ⟨hrd, -⟩ := hp _ (closing_of_hangsUp hup)
        have ht : t = ⟨t.sock, .read⟩ := by rw [← hdir hrd.mode_ne.2]
        rw [ht] at hidle
        exact hrd.mode_ne.1 hidle
      · rcases hmem hv with hq | ht
        · exact Mode.not_finished_of_none hidle ((hb.queued t).mp hq)
        · exact hb.timed t ht hidle
    rw [hlog, deliveries, if_neg hne]

end Retiring

/-! ### The hang-up -/

/-- In runs whose hang-ups each find a read to reset and no write, and whose callbacks for them
destroy the Socket, each hang-up completes what is outstanding and nothing else. -/
theorem hangup_served (hr : (proactor κ).Reachable servesHangups s) (hup : s.hangsUp id)
    (hp : servesHangups s (.dispatch r w)) (hs : s.step (.dispatch r w) = some s₁)
    (hst : (proactor κ).Steps servesHangups s₁ s₂) : HangupServed id s s₂ := by
  obtain ⟨hrd, hwr⟩ := hp id (closing_of_hangsUp hup)
  have hr₁ := hr.step hp hs
  have hcalm : s.callback = none := (State.library_some hs).1
  have hpc : ¬ s.pc.dead := by
    obtain ⟨ev, rest, hpc, -⟩ := hup
    rw [hpc]
    exact fun h => h
  -- the read is called back by this step and by no later one
  have honce : ∀ cb, (s.heap.tok ⟨id, .read⟩).cb = some cb →
      deliveries cb.call s₂.heap.log = [(ECONNRESET, 0)] := by
    intro cb hcb
    obtain ⟨hlog, hc'⟩ := hangup_step hup hrd.mode_ne.2 hcb hs
    have h₁ : deliveries cb.call s₁.heap.log = [(ECONNRESET, 0)] := by
      have h₀ := deliveries_of_busy hr hcalm hpc hrd.mode_ne.1 hcb
      rw [← deliveries_callLog] at h₀
      rw [← deliveries_callLog, hlog, deliveries, if_pos rfl, h₀]
    have hlast := hr₁.steps_invariant (I := fun u => Discharged cb.call u ∧
        deliveries cb.call u.heap.log = [(ECONNRESET, 0)])
      (fun u act v hru hu hpu hsu => ⟨hu.1.step hpu hsu,
        (hu.1.deliveries_eq hsu (hru.step hpu hsu)).trans hu.2⟩)
      hst ⟨discharged_of_hangup hr hs hcb hc', h₁⟩
    exact hlast.2
  refine ⟨?_, ?_, ?_⟩
  · intro d cb hm hcb
    cases d with
    | read =>
      rw [honce cb hcb]
      simp
    | write =>
      exact (Mode.ne_none_of_pending hm hwr).elim
  · intro d cb hm hcb
    cases d with
    | read => exact (hrd.mode_ne.1 hm).elim
    | write =>
      have hnum := numbered_of_reachable hr
      have hret : Retired cb.call s.heap := by
        refine ⟨hnum.owned _ cb hcb, fun u cu hcu hiu => ?_⟩
        rw [hnum.distinct u _ cu cb hcu hcb hiu]
        exact hm
      have hlast := hr.steps_invariant (I := fun u => Retired cb.call u.heap ∧
          deliveries cb.call u.heap.log = deliveries cb.call s.heap.log)
        (fun u act v hru hu hpu hsu => ⟨hu.1.step hsu,
          (hu.1.deliveries_eq hru hpu hsu).trans hu.2⟩)
        (Machine.Steps.head hp hs hst) ⟨hret, rfl⟩
      exact hlast.2
  · intro d cb hf hcb
    cases d with
    | read =>
      left
      rw [honce cb hcb]
      rcases hrd with hm | ⟨-, hcode, hsize⟩
      · exact (Mode.not_finished_of_pending hm hf).elim
      · rw [hcode, hsize]
    | write => exact (Mode.ne_none_of_finished hf hwr).elim

/-- A peer that resets its connection, as `epoll_wait` reports it. -/
def resetEvent (fd : Int) (id : SockId) : PollEvent :=
  ⟨fd, .socket id, ⟨true, false, true, true, true⟩⟩

/-- Socket `0` waits for its read, and `epoll_wait` reports that the peer reset the connection. -/
def resetReader : List (Action Unit) :=
  [.epollCreate 3 0, .create 0 5 ⟨0, 0⟩ ⟨0, 0⟩ 0,
    .readSome 0 ⟨1, 0⟩ 8 () 5000 (.fail EAGAIN) ⟨10, 0⟩,
    .run, .epollWait (.events [resetEvent 5 0])]

theorem hangup_served_resetReader : ∃ s s₂ : State Unit, s.hangsUp 0 ∧
    (proactor Unit).Reachable servesHangups s₂ ∧ s₂.pc = .poll ∧ HangupServed 0 s s₂ := by
  obtain ⟨s, hr, hf⟩ := Machine.exists_of_exec (M := proactor Unit) (p := servesHangups)
    (s := State.initial fun _ _ => 0) (l := resetReader)
    (f := fun s => (s.pc, s.heap.live 0, (s.heap.tok ⟨0, .read⟩).mode,
      (s.heap.tok ⟨0, .write⟩).mode, s.closing, (s.step (.dispatch (.got []) (.accepted 0))).map
        fun s => ((proactor Unit).exec servesHangups s
          [.destroy 0, .ret, .startTimer ⟨11, 0⟩, .processTimer]).map State.pc))
    (b := (.event [resetEvent 5 0], true, .some, .none, some 0, some (some .poll))) ⟨_, rfl⟩ rfl
  simp only [Prod.mk.injEq] at hf
  obtain ⟨hpc, hl, hrd, hwr, hcl, hsome⟩ := hf
  have hup : s.hangsUp 0 := ⟨resetEvent 5 0, [], hpc, rfl, rfl, hl⟩
  have hp : servesHangups s (.dispatch (.got []) (.accepted 0)) := by
    intro id hid
    rw [hcl] at hid
    cases hid
    exact ⟨.inl (.inl hrd), hwr⟩
  obtain ⟨s₁, hs, hex⟩ := Option.map_eq_some_iff.mp hsome
  obtain ⟨s₂, hex, hpoll⟩ := Option.map_eq_some_iff.mp hex
  have hst := Machine.exec_steps hex
  exact ⟨s, s₂, hup, (hr.step hp hs).steps hst, hpoll, hangup_served hr hup hp hs hst⟩

/-- With a read and a write pending, the callback of the write is never called. -/
theorem hangup_forgets_write : ∃ s s₁ s₂ : State Unit,
    (proactor Unit).Reachable Machine.free s ∧ s.hangsUp 0 ∧
    s.step (.dispatch (.got []) (.accepted 0)) = some s₁ ∧
    (proactor Unit).Steps Machine.free s₁ s₂ ∧ ¬ HangupServed 0 s s₂ := by
  obtain ⟨s, hr, hf⟩ := Machine.exists_of_exec (M := proactor Unit) (p := Machine.free)
    (s := State.initial fun _ _ => 0)
    (l := [.epollCreate 3 0, .create 0 5 ⟨0, 0⟩ ⟨0, 0⟩ 0,
      .readSome 0 ⟨1, 0⟩ 8 () 0 (.fail EAGAIN) ⟨10, 0⟩,
      .writeAll 0 ⟨2, 0⟩ 8 () 0 (.fail EAGAIN) ⟨10, 0⟩,
      .run, .epollWait (.events [resetEvent 5 0])])
    (f := fun s => (s.pc, s.heap.live 0, (s.heap.tok ⟨0, .write⟩).mode,
      (s.heap.tok ⟨0, .write⟩).cb, (s.step (.dispatch (.got []) (.accepted 0))).map
        fun s => ((proactor Unit).exec Machine.free s
          [.ret, .startTimer ⟨11, 0⟩, .processTimer]).map fun s => (s.pc, deliveries 1 s.heap.log)))
    (b := (.event [resetEvent 5 0], true, .all, some ⟨1, ()⟩, some (some (.poll, []))))
    ⟨_, rfl⟩ rfl
  simp only [Prod.mk.injEq] at hf
  obtain ⟨hpc, hl, hm, hcb, hsome⟩ := hf
  obtain ⟨s₁, hs, hex⟩ := Option.map_eq_some_iff.mp hsome
  obtain ⟨s₂, hex, hend⟩ := Option.map_eq_some_iff.mp hex
  simp only [Prod.mk.injEq] at hend
  refine ⟨s, s₁, s₂, hr, ⟨resetEvent 5 0, [], hpc, rfl, rfl, hl⟩, hs, Machine.exec_steps hex, ?_⟩
  intro hserved
  obtain ⟨-, -, hcalled⟩ := hserved.pending .write ⟨1, ()⟩ (.inr hm) hcb
  exact hcalled hend.1 hend.2

end EchoBenchmark.Proactor
