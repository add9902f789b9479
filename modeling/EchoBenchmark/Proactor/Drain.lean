import EchoBenchmark.Proactor.Control

/-!
When the completion queue is empty at `epoll_wait`. The queue is drained after `onRead` and
`onWrite` only, so an operation that completes at once in another callback may have to wait.
-/

namespace EchoBenchmark.Proactor

variable {κ : Type}

/-- An event after which `run` drains the queue. -/
def PollEvent.drains (ev : PollEvent) : Prop :=
  ev.events.hangup = false ∧ (ev.events.input = true ∨ ev.events.pollout = true)

instance (ev : PollEvent) : Decidable ev.drains := inferInstanceAs (Decidable (_ ∧ _))

/-- `run` calls `_processCompletion` before it comes back to `epoll_wait`, if it does. -/
def Pc.drains : Pc → Prop
  | .outside | .poll | .timer _ => False
  | .event rest => ∃ ev ∈ rest, ev.drains
  | .output ev rest => ev.events.pollout = true ∨ ∃ ev ∈ rest, ev.drains
  | .acceptLoop .. | .drainRead .. | .drainWrite _ | .thrown | .undefined => True

instance (p : Pc) : Decidable p.drains := by
  apply @Pc.casesOn _ p <;> (intros; dsimp only [Pc.drains]; infer_instance)

theorem Pc.dead.drains {p : Pc} (hd : p.dead) : p.drains := by
  cases p with
  | thrown | undefined => trivial
  | _ => exact hd.elim

theorem Pc.draining.drains {p : Pc} (hd : p.draining) : p.drains := by
  cases p with
  | drainRead | drainWrite => trivial
  | _ => exact hd.elim

variable {s s' : State κ} {act : Action κ} {q : Request κ}

/-- A drain that is due stays due until it finds the queue empty. -/
theorem Control.drains (hc : Control s act s') (hd : s.pc.drains) :
    s'.pc.drains ∨ s.heap.queue = [] := by
  cases hc with
  | stays hpc _ _ | removes _ _ hpc _ _ _ =>
    rw [hpc]
    exact .inl hd
  | dies hdead _ _ => exact .inl hdead.drains
  | enters hpc _ _ _ | leaves hpc _ _ _ | idles hpc _ _ _ | polls _ hpc _ _ _ _ _
  | loops hpc _ _ _ =>
    rw [hpc] at hd
    exact hd.elim
  | times hpc _ _ _ =>
    rw [hpc] at hd
    obtain ⟨ev, hev, -⟩ := hd
    cases hev
  | drops _ hq _ _ _ _ | continues _ hq _ _ _ _ | ends _ hq _ _ _ => exact .inr hq
  | accepts _ _ hpc' _ =>
    rw [hpc']
    exact .inl trivial
  | @closes ev rest hpc hup hpc' _ =>
    rw [hpc] at hd
    obtain ⟨ev', hev, hdr⟩ := hd
    -- a hang-up is not followed by a drain, so the one that is due comes later
    have hrest : ev' ∈ rest := by
      rcases List.mem_cons.mp hev with rfl | hev
      · rw [hdr.1] at hup
        cases hup
      · exact hev
    rcases hpc' with h | ⟨h, -⟩
    · rw [h]
      exact .inl ⟨ev', hrest, hdr⟩
    · exact .inl h.drains
  | reads _ _ _ hpc' _ _ _ _ =>
    rcases hpc' with h | ⟨a, -, h⟩ | h
    · rw [h]
      exact .inl trivial
    · rw [h]
      exact .inl trivial
    · exact .inl h.drains
  | @skips ev rest hpc hup hin hpc' _ _ =>
    rw [hpc] at hd
    rw [hpc']
    obtain ⟨ev', hev, hdr⟩ := hd
    rcases List.mem_cons.mp hev with rfl | hev
    · rcases hdr.2 with h | h
      · rw [hin] at h
        cases h
      · exact .inl (.inl h)
    · exact .inl (.inr ⟨ev', hev, hdr⟩)
  | writes _ _ hpc' _ _ _ =>
    rcases hpc' with h | h
    · rw [h]
      exact .inl trivial
    · exact .inl h.drains
  | @passes ev rest hpc hout hpc' _ _ =>
    rw [hpc] at hd
    rw [hpc']
    rcases hd with h | h
    · rw [hout] at h
      cases h
    · exact .inl h

namespace State

/-- A call that ends its operation before it returns, by the answer of the kernel. -/
def completesAtOnce (s : State κ) : Action κ → Prop
  | .readSome id _ _ _ _ r _ => (s.heap.tok ⟨id, .read⟩).mode = .none ∧ r ≠ .fail EAGAIN
  | .readAll id _ size _ _ r _ => (s.heap.tok ⟨id, .read⟩).mode = .none ∧ r ≠ .fail EAGAIN ∧
      ¬ (0 < r.ret ∧ r.ret < size)
  | .writeAll id _ size _ _ r _ => (s.heap.tok ⟨id, .write⟩).mode = .none ∧ r ≠ .fail EAGAIN ∧
      ¬ (0 < r.ret ∧ r.ret < size)
  | _ => False

/-- Operations are started from callbacks only. -/
def fromCallbacks (s : State κ) (act : Action κ) : Prop :=
  act.request.isSome → s.callback.isSome

/-- Besides, none completes at once where no drain follows: in a callback of a timeout, or of a
hang-up after which no event of the batch is read or written. -/
def drainFollows (s : State κ) (act : Action κ) : Prop :=
  s.fromCallbacks act ∧ (s.completesAtOnce act → s.pc.drains)

instance (act : Action κ) : Decidable (s.completesAtOnce act) := by
  apply @Action.casesOn κ _ act <;> (intros; dsimp only [completesAtOnce]; infer_instance)

instance (act : Action κ) : Decidable (s.fromCallbacks act) :=
  inferInstanceAs (Decidable (_ → _))

instance (act : Action κ) : Decidable (s.drainFollows act) := inferInstanceAs (Decidable (_ ∧ _))

/-- A call that does not complete at once leaves the queue as it is. -/
theorem queue_of_not_completesAtOnce (hq : act.request = some q)
    (hl : s.heap.live q.token.sock = true) (hs : s.step act = some s')
    (hn : ¬ s.completesAtOnce act) : s'.heap.queue = s.heap.queue := by
  cases act with
  | readSome id buf size cb ms r now =>
    cases hq
    unfold step at hs
    rw [user_live (h := .socket id) hl hs, heap_onHeap]
    by_cases hm : (s.heap.tok ⟨id, .read⟩).mode = .none
    · have hr : r = .fail EAGAIN := by
        by_contra hr
        exact hn ⟨hm, hr⟩
      subst hr
      rw [Heap.readSome_again hm, Heap.queue_park, Heap.queue_startRead]
    · rw [Heap.readSome_busy hm]
      rfl
  | readAll id buf size cb ms r now =>
    cases hq
    unfold step at hs
    rw [user_live (h := .socket id) hl hs, heap_onHeap]
    by_cases hm : (s.heap.tok ⟨id, .read⟩).mode = .none
    · by_cases hr : r = .fail EAGAIN
      · subst hr
        rw [Heap.readAll_again hm, Heap.queue_park, Heap.queue_startRead]
      · have hpart : 0 < r.ret ∧ r.ret < size := by
          by_contra hpart
          exact hn ⟨hm, hr, hpart⟩
        cases r with
        | got bytes =>
          have hb : bytes ≠ [] := by
            rintro rfl
            exact lt_irrefl _ hpart.1
          rw [Heap.readAll_part hm hb hpart.2, Heap.queue_park, Heap.queue_startRead]
        | fail errno => exact absurd hpart.1 (by simp [ReadResult.ret])
    · rw [Heap.readAll_busy hm]
      rfl
  | writeAll id buf size cb ms r now =>
    cases hq
    unfold step at hs
    rw [user_live (h := .socket id) hl hs, heap_onHeap]
    by_cases hm : (s.heap.tok ⟨id, .write⟩).mode = .none
    · by_cases hr : r = .fail EAGAIN
      · subst hr
        rw [Heap.writeAll_again hm, Heap.queue_park, Heap.queue_startWrite]
      · have hpart : 0 < r.ret ∧ r.ret < size := by
          by_contra hpart
          exact hn ⟨hm, hr, hpart⟩
        cases r with
        | accepted count =>
          have hpos : 0 < count := Int.natCast_pos.mp hpart.1
          rw [Heap.writeAll_part hm hpos hpart.2, Heap.queue_park, Heap.queue_startWrite]
        | fail errno => exact absurd hpart.1 (by simp [WriteResult.ret])
    · rw [Heap.writeAll_busy hm]
      rfl
  | _ => cases hq

/-- Only `_processCompletion` and the calls that complete at once have to do with a drain. -/
theorem drains_step (hi : s.heap.queue ≠ [] → s.pc.drains) (hp : s.drainFollows act)
    (hs : s.step act = some s') : s'.heap.queue ≠ [] → s'.pc.drains := by
  intro hq'
  have hkeep : s.heap.queue ≠ [] → s'.pc.drains := fun hq =>
    ((step_control hs).drains (hi hq)).resolve_right hq
  cases step_effect hs with
  | noted hn _ =>
    rw [hn.queue] at hq'
    exact hkeep hq'
  | created hl hn hpc =>
    rw [hn.queue] at hq'
    exact hkeep hq'
  | opened hq hl ho hpc =>
    by_cases hc : s.completesAtOnce act
    · rw [hpc]
      exact hp.2 hc
    · rw [queue_of_not_completesAtOnce hq hl hs hc] at hq'
      exact hkeep hq'
  | progressed hl hn hpr ht => exact ht.draining.drains
  | @destroyed id h₁ hl hn he hpc =>
    refine hkeep fun hq => hq' ?_
    rw [he]
    change (h₁.unlink id).queue = []
    rw [Heap.queue_unlink, hn.queue, hq]
    rfl
  | completed hc hpc hq hl he =>
    exact hkeep (by rw [hq]; exact List.cons_ne_nil _ _)
  | fired hc hpc ht hl hlt he =>
    subst he
    rw [queue_invoke] at hq'
    exact hkeep hq'
  | hungup ha hc hpc hup hh hl he =>
    subst he
    rw [queue_onCloseSocket] at hq'
    exact hkeep hq'

end State

/-- With every immediate completion before a drain, nothing waits behind `epoll_wait`. -/
theorem queue_empty_at_poll (hr : (proactor κ).Reachable State.drainFollows s)
    (hpc : s.pc = .poll) : s.heap.queue = [] := by
  have hi : s.heap.queue ≠ [] → s.pc.drains := by
    apply hr.invariant (I := fun s => s.heap.queue ≠ [] → s.pc.drains)
    · rintro s₀ ⟨mem, rfl⟩ hq
      exact (hq rfl).elim
    · intro s₀ act s₁ _ hi hp hs
      exact State.drains_step hi hp hs
  by_contra hq
  have hd := hi hq
  rw [hpc] at hd
  exact hd

/-- An Acceptor on descriptor 4, and `run`. -/
def listening : List (Action Unit) :=
  [.epollCreate 3 0, .createAcceptor 0 (-1), .listen 0 () ⟨.ok 4, 0, .ok, 0, 0, 0⟩, .run]

/-- The rest of a round of `run` after the last event. -/
def roundEnd : List (Action Unit) := [.startTimer ⟨10, 0⟩, .processTimer]

/-- A connection is accepted and its first read completes at once. -/
theorem queue_empty_at_poll_accepted : ∃ s : State Unit,
    (proactor Unit).Reachable State.drainFollows s ∧ s.pc = .poll ∧
    .called ⟨0, .read⟩ 0 0 1 .completion ∈ s.heap.log ∧ s.heap.queue = [] := by
  obtain ⟨s, hr, hf⟩ := Machine.exists_of_exec (M := proactor Unit) (p := State.drainFollows)
    (s := State.initial fun _ _ => 0)
    (l := listening ++ [.epollWait (.events [⟨4, .acceptor 0, ⟨true, false, false, false, false⟩⟩]),
      .dispatch (.got []) (.accepted 0), .accept (.conn 5 .ok), .create 0 5 ⟨0, 0⟩ ⟨0, 0⟩ 0,
      .readSome 0 ⟨0, 0⟩ 1024 () 5000 (.got [65]) ⟨10, 0⟩, .ret, .accept (.fail EAGAIN),
      .processCompletion, .ret, .processCompletion, .dispatch (.got []) (.accepted 0)] ++ roundEnd)
    (f := fun s => (s.pc, decide (.called ⟨0, .read⟩ 0 0 1 .completion ∈ s.heap.log)))
    (b := (.poll, true)) ⟨_, rfl⟩ rfl
  obtain ⟨hpc, hcalled⟩ := Prod.mk.inj hf
  exact ⟨s, hr, hpc, of_decide_eq_true hcalled, queue_empty_at_poll hr hpc⟩

/-- The accept callback of a hang-up starts a read, which fails at once and waits. -/
theorem queue_waits_at_poll : ∃ s : State Unit,
    (proactor Unit).Reachable State.fromCallbacks s ∧ s.pc = .poll ∧
    s.heap.queue = [⟨0, .read⟩] ∧ (s.heap.tok ⟨0, .read⟩).mode = .err := by
  obtain ⟨s, hr, hf⟩ := Machine.exists_of_exec (M := proactor Unit) (p := State.fromCallbacks)
    (s := State.initial fun _ _ => 0)
    (l := listening ++ [.epollWait (.events [⟨4, .acceptor 0, ⟨false, false, false, false, true⟩⟩]),
      .dispatch (.got []) (.accepted 0), .create 0 (-1) ⟨0, 0⟩ ⟨0, 0⟩ 0,
      .readSome 0 ⟨0, 0⟩ 1024 () 5000 (.fail EBADF) ⟨10, 0⟩, .ret] ++ roundEnd)
    (f := fun s => (s.pc, s.heap.queue, (s.heap.tok ⟨0, .read⟩).mode))
    (b := (.poll, [⟨0, .read⟩], .err)) ⟨_, rfl⟩ rfl
  simp only [Prod.mk.injEq] at hf
  exact ⟨s, hr, hf⟩

end EchoBenchmark.Proactor
