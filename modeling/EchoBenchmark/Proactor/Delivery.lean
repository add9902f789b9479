import EchoBenchmark.Proactor.Accounts
import EchoBenchmark.Proactor.Control

/-!
Without hang-ups no completion is lost or duplicated, in any interleaving.
-/

namespace EchoBenchmark.Proactor

variable {κ : Type} {s s' s'' : State κ} {act : Action κ} {q : Request κ} {i : Nat}

/-- `epoll_wait` reports no error and no hang-up. -/
def noHangup (_ : State κ) : Action κ → Prop
  | .epollWait (.events evs) => ∀ ev ∈ evs, ev.events.hangup = false
  | _ => True

instance (s : State κ) (act : Action κ) : Decidable (noHangup s act) := by
  unfold noHangup
  split <;> infer_instance

theorem not_hangsUp_of_calm {id : SockId} (hcalm : ∀ ev ∈ s.pc.waiting, ev.events.hangup = false) :
    ¬ s.hangsUp id := by
  rintro ⟨ev, rest, hpc, hup, -, -⟩
  rw [hcalm ev (by rw [hpc]; exact List.mem_cons_self)] at hup
  cases hup

theorem not_hungUp_of_reachable (hr : (proactor κ).Reachable noHangup s) :
    ¬ HungUp i s.heap.log := by
  apply hr.invariant (I := fun s => ¬ HungUp i s.heap.log)
  · rintro s₀ ⟨mem, rfl⟩
    exact id
  · intro s₀ act s₁ hr₀ hn _ hs
    have hcalm := State.waiting_of_reachable (fun _ _ h => h) hr₀
    rw [← hungUp_callLog] at hn ⊢
    cases invokes_step hs with
    | none hlog =>
      rw [hlog]
      exact hn
    | @callback t cb err bytes via _ _ _ hlog _ hvia =>
      rw [hlog]
      cases via with
      | hangup => exact (not_hangsUp_of_calm hcalm (hvia rfl).2.1).elim
      | completion | timer => exact hn

/-- The number of an accepted call is bound to its token and its callback. -/
theorem named_of_opens {h h' : Heap κ} (hn : Numbered h) (ho : h.Opens q (h', true)) :
    Named (fun u g => u = q.token ∧ g = q.fn) h.nextCall h' := by
  have hown : ∀ {e : Event} {h₁ : Heap κ}, h.Begun q e h₁ →
      (∀ u, (h'.tok u).cb = (h₁.tok u).cb) → h'.nextCall = h₁.nextCall →
      Named (fun u g => u = q.token ∧ g = q.fn) h.nextCall h' := by
    intro e h₁ hs hcb hnext
    refine ⟨by rw [hnext, hs.nextCall]; exact Nat.lt_succ_self _, fun u cb hc hi => ?_⟩
    rw [hcb] at hc
    by_cases hu : u = q.token
    · rw [hu, hs.cb] at hc
      cases hc
      exact ⟨hu, rfl⟩
    · rw [hs.other u hu] at hc
      exact absurd (hn.owned u cb hc) (by rw [hi]; exact lt_irrefl _)
  cases ho with
  | finished hs hf =>
    refine hown hs (fun u => ?_) rfl
    rw [Heap.tok_finish]
    split
    · rename_i hu
      rw [hu]
    · rfl
  | parked hs hp he =>
    refine hown hs (fun u => ?_) Heap.nextCall_park
    rw [Heap.tok_park]
    split
    · rename_i hu
      rw [hu]
    · rfl

/-- In a continuation of a call, its callback comes at most once, never if the call was refused,
and until then its token is queued or pending with the callback it passed. -/
theorem completion_delivered_once (hr : (proactor κ).Reachable noHangup s)
    (hq : act.request = some q) (hl : s.heap.live q.token.sock = true)
    (hs : s.step act = some s') (hst : (proactor κ).Steps noHangup s' s'') :
    (deliveries s.heap.nextCall s''.heap.log).length ≤ 1 ∧
    (s.answer act = false → deliveries s.heap.nextCall s''.heap.log = []) ∧
    (s.answer act = true → Outstanding q.token s.heap.nextCall s''.heap.log →
      (s''.heap.tok q.token).cb = some ⟨s.heap.nextCall, q.fn⟩ ∧
      (q.token ∈ s''.heap.queue ∧ (s''.heap.tok q.token).mode.finished ∨
        (s''.heap.tok q.token).mode.pending)) := by
  have hcall : noHangup s act := by
    cases act <;> trivial
  have hr' := (hr.step hcall hs).steps hst
  have hd := State.delivers_of_reachable hr'
  have hb := (consistent_of_reachable hr').books
  have ho := State.opens_of_request hq hl hs
  have hcount := length_deliveries (not_hungUp_of_reachable (i := s.heap.nextCall) hr')
  refine ⟨?_, ?_, ?_⟩
  · rw [hcount]
    exact Ledger.settledCount_le_one hd.legal
  · intro hno
    have href : Event.refused q.token s.heap.nextCall ∈ s'.heap.log := by
      rw [hno] at ho
      generalize s'.heap = h' at ho
      cases ho with
      | refused d hm => exact List.mem_cons_self
    have hmem := hst.invariant
      (I := fun u => Event.refused q.token s.heap.nextCall ∈ u.heap.log)
      (fun _ _ _ h _ hs₁ => (State.log_suffix_of_step hs₁).subset h) href
    rw [← List.length_eq_zero_iff, hcount]
    refine Ledger.settledCount_of_refused hd.legal ?_
    exact List.mem_flatMap.mpr ⟨_, hmem, List.mem_singleton.mpr rfl⟩
  · intro hyes hout
    rw [hyes] at ho
    have hn := hst.invariant
      (I := fun u => Named (fun v g => v = q.token ∧ g = q.fn) s.heap.nextCall u.heap)
      (fun _ _ _ h _ hs₁ => h.step hs₁) (named_of_opens (numbered_of_reachable hr) ho)
    have hh := Ledger.holder_of_unsettled hd.legal (unsettled_of_outstanding hout)
    have hm : (s''.heap.tok q.token).mode ≠ .none := by
      intro hm
      rw [hd.idle q.token hm] at hh
      cases hh
    obtain ⟨⟨i, g⟩, hcb, hi⟩ := hd.busy q.token hm
    rw [hh] at hi
    cases hi
    obtain ⟨-, hg⟩ := hn.holds q.token _ hcb rfl
    dsimp only at hg
    subst hg
    refine ⟨hcb, ?_⟩
    by_cases hf : (s''.heap.tok q.token).mode.finished
    · exact .inl ⟨(hb.queued q.token).mpr hf, hf⟩
    · exact .inr (Mode.pending_of_not_finished hm hf)

/-- A read with a timeout that has to wait. -/
def waitingRead : Action Unit := .readSome 0 ⟨1, 0⟩ 8 () 5000 (.fail EAGAIN) ⟨10, 0⟩

/-- One byte comes, and the callback is called. -/
def byteComes : List (Action Unit) :=
  [.run, .epollWait (.events [⟨5, .socket 0, ⟨true, false, false, false, false⟩⟩]),
    .dispatch (.got [65]) (.accepted 0), .processCompletion]

/-- The read waits with its callback until that has been called, once. -/
theorem completion_delivered_once_waitingRead : ∃ s' s'' : State Unit,
    (proactor Unit).Reachable noHangup s' ∧ (proactor Unit).Steps noHangup s' s'' ∧
    (s'.heap.tok ⟨0, .read⟩).cb = some ⟨0, ()⟩ ∧
    (⟨0, .read⟩ ∈ s'.heap.queue ∧ (s'.heap.tok ⟨0, .read⟩).mode.finished ∨
      (s'.heap.tok ⟨0, .read⟩).mode.pending) ∧
    deliveries 0 s''.heap.log = [(0, 1)] ∧ (deliveries 0 s''.heap.log).length ≤ 1 := by
  obtain ⟨s, hr, hf⟩ := Machine.exists_of_exec (M := proactor Unit) (p := noHangup)
    (s := State.initial fun _ _ => 0) (l := [.epollCreate 3 0, .create 0 5 ⟨0, 0⟩ ⟨0, 0⟩ 0])
    (f := fun s => (s.heap.nextCall, s.heap.live 0, s.answer waitingRead,
      (s.step waitingRead).map fun s' => (s'.heap.log.take 3,
        ((proactor Unit).exec noHangup s' byteComes).map fun s'' => deliveries 0 s''.heap.log)))
    (b := (0, true, true, some ([.armed ⟨0, .read⟩ ⟨15, 0⟩,
      .sysRead 0 ⟨1, 0⟩ 8 (.fail EAGAIN), .started ⟨0, .read⟩ 0], some [(0, 1)])))
    ⟨_, rfl⟩ rfl
  simp only [Prod.mk.injEq] at hf
  obtain ⟨hn, hl, ha, hcall⟩ := hf
  obtain ⟨s', hs, hcall⟩ := Option.map_eq_some_iff.mp hcall
  obtain ⟨hlog, hrest⟩ := Prod.mk.inj hcall
  obtain ⟨s'', hst, hdelivered⟩ := Option.map_eq_some_iff.mp hrest
  have hst : (proactor Unit).Steps noHangup s' s'' := Machine.exec_steps hst
  have hq : waitingRead.request = some _ := rfl
  obtain ⟨-, -, hwait⟩ := completion_delivered_once hr hq hl hs Machine.Steps.refl
  obtain ⟨honce, -, -⟩ := completion_delivered_once hr hq hl hs hst
  rw [hn] at honce hwait
  have hout : Outstanding ⟨0, .read⟩ 0 s'.heap.log := by
    rw [← List.take_append_drop 3 s'.heap.log, hlog]
    exact .inl ⟨rfl, rfl⟩
  obtain ⟨hcb, hplace⟩ := hwait ha hout
  exact ⟨s', s'', hr.step (a := waitingRead) trivial hs, hst, hcb, hplace, hdelivered, honce⟩

end EchoBenchmark.Proactor
