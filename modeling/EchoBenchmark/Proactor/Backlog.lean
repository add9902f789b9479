import EchoBenchmark.Proactor.Acceptors
import EchoBenchmark.Proactor.Control

/-!
The accept loop. It hands each connection to the callback and returns when none is left, unless
`::accept` or `SetNonBlock` fails: then it returns at once, and the new descriptor is forgotten.
-/

namespace EchoBenchmark.Proactor

open History (Adds)

variable {κ : Type} {s s' : State κ} {act : Action κ} {a : AccId} {r : AcceptResult}

/-- The descriptor of a connection that `::accept` gave to the Acceptor. -/
def Event.connection (a : AccId) : Event → Option Int
  | .opened b call fd => if b = a ∧ call = .accept then some fd else none
  | _ => none

/-- The descriptor of a connection that was passed to the callback of the Acceptor. -/
def Event.handedOver (a : AccId) : Event → Option Int
  | .accepted b code soc => if b = a ∧ code = 0 then some soc else none
  | _ => none

/-- The connections of an Acceptor, the newest first. -/
def connections (a : AccId) (log : List Event) : List Int := log.filterMap (Event.connection a)

/-- The connections that its callback got, the newest first. -/
def handedOver (a : AccId) (log : List Event) : List Int := log.filterMap (Event.handedOver a)

/-- `::accept` found nothing more, or gave a descriptor that does not block from now on. -/
def AcceptResult.proper : AcceptResult → Prop
  | .fail errno => errno = EAGAIN
  | .conn fd .ok => fd ≠ -1
  | .conn _ _ => False

instance : Decidable r.proper := by
  unfold AcceptResult.proper
  split <;> infer_instance

/-- Both lists are those of the older history. -/
def Even (a : AccId) (log log' : List Event) : Prop :=
  connections a log' = connections a log ∧ handedOver a log' = handedOver a log

theorem even_of_adds {P : Event → Prop} {log log' : List Event} (h : Adds P log log')
    (hc : ∀ e, P e → e.connection a = none) (hh : ∀ e, P e → e.handedOver a = none) :
    Even a log log' :=
  ⟨h.filterMap_eq hc, h.filterMap_eq hh⟩

theorem Event.aside_not_counted {e : Event} (he : e.acceptor ≠ some a) :
    e.connection a = none ∧ e.handedOver a = none := by
  cases e with
  | opened b call fd =>
    refine ⟨if_neg ?_, rfl⟩
    rintro ⟨rfl, -⟩
    exact he rfl
  | accepted b code soc =>
    refine ⟨rfl, if_neg ?_⟩
    rintro ⟨rfl, -⟩
    exact he rfl
  | _ => exact ⟨rfl, rfl⟩

theorem even_aside {log log' : List Event} (h : AddsAside a log log') : Even a log log' :=
  even_of_adds h (fun _ he => (Event.aside_not_counted he).1)
    fun _ he => (Event.aside_not_counted he).2

theorem even_listen (cb : κ) (l : ListenResult) :
    Even a s.heap.log (s.listen a cb l).1.heap.log := by
  have hsock : ∀ {log}, Adds (State.socketOpened a) s.heap.log log → Even a s.heap.log log := by
    intro log h
    refine even_of_adds h ?_ ?_
    · rintro e ⟨fd, rfl⟩
      simp [Event.connection]
    · rintro e ⟨fd, rfl⟩
      rfl
  rcases State.listen_adds (s := s) (a := a) cb l with ⟨-, h⟩ | ⟨i, log, -, -, h, hlog⟩
  · exact hsock h
  · obtain ⟨hc, hh⟩ := hsock h
    rw [hlog]
    exact ⟨hc, hh⟩

theorem even_closeAcceptor : Even a s.heap.log (s.closeAcceptor a).heap.log := by
  obtain ⟨log, rfl, h⟩ := State.closeAcceptor_adds (s := s) (a := a)
  have hclosed : ∀ e, State.socketClosed e → e.connection a = none ∧ e.handedOver a = none := by
    rintro e ⟨fd, rfl⟩
    exact ⟨rfl, rfl⟩
  obtain ⟨hc, hh⟩ := even_of_adds h (fun e he => (hclosed e he).1) fun e he => (hclosed e he).2
  exact ⟨hc, hh⟩

namespace State

/-- Each round of an accept loop gets a connection or learns that none is left. -/
def acceptsProperly : State κ → Action κ → Prop
  | _, .accept r => r.proper
  | _, _ => True

instance : Decidable (s.acceptsProperly act) := by
  apply @Action.casesOn κ _ act <;> (intros; dsimp only [acceptsProperly]; infer_instance)

/-- The callback got the connections, each once and in order. -/
def HandsOver (a : AccId) (s : State κ) : Prop :=
  ¬ s.pc.dead → handedOver a s.heap.log = connections a s.heap.log

theorem HandsOver.step (hh : HandsOver a s) (hp : s.acceptsProperly act)
    (hs : s.step act = some s') : HandsOver a s' := by
  intro hrun
  have hold := hh fun hd => hrun ((step_control hs).dead hd)
  have heven : Even a s.heap.log s'.heap.log →
      handedOver a s'.heap.log = connections a s'.heap.log := by
    intro he
    rw [he.1, he.2]
    exact hold
  cases step_acceptor a hs with
  | aside ha => exact heven (even_aside ha.log)
  | created _ _ _ he =>
    rw [he]
    exact hold
  | listened _ _ _ he =>
    rw [he] at heven ⊢
    exact heven (even_listen _ _)
  | closed _ _ _ he =>
    rw [he] at heven ⊢
    exact heven even_closeAcceptor
  | destroyed _ _ _ he =>
    rw [he] at heven ⊢
    refine heven ?_
    rcases destroyAcceptor_cases (s := s) (a := a) with ⟨-, h⟩ | ⟨-, h⟩
    · rw [h]
      exact even_closeAcceptor
    · rw [h]
      exact ⟨rfl, rfl⟩
  | accepted ha hc hpc hl hacc =>
    subst ha
    cases accept_round hc hpc hl hacc with
    | drained _ _ hlog =>
      rw [hlog]
      exact hold
    | failed he _ _ => exact (he hp).elim
    | @passed fd _ _ h =>
      rcases h with ⟨-, hlog⟩ | ⟨hpc', -⟩
      · have hc : connections a s'.heap.log = fd :: connections a s.heap.log := by
          rw [hlog]
          simp [connections, Event.connection, List.filterMap_cons]
        have hho : handedOver a s'.heap.log = fd :: handedOver a s.heap.log := by
          rw [hlog]
          simp [handedOver, Event.handedOver, List.filterMap_cons]
        rw [hc, hho, hold]
      · rw [hpc'] at hrun
        exact (hrun trivial).elim
    | @dropped fd code nonblock _ hfail _ _ =>
      cases nonblock with
      | ok => simp [setNonBlock, show fd ≠ -1 from hp] at hfail
      | getflFail errno | setflFail errno => exact hp.elim
  | @hungup ev rest _ _ _ _ _ he =>
    obtain ⟨-, -, hlog⟩ := onCloseAcceptor_cases (a := a)
      (s := { s with pc := .event rest }.emit (.dispatched ev.handler .onClose))
    refine heven ?_
    rw [he]
    rcases hlog with ⟨-, hlog⟩ | ⟨-, hlog⟩
    · rw [hlog]
      refine even_of_adds (P := fun e => e.connection a = none ∧ e.handedOver a = none)
        ((Adds.refl.cons ⟨rfl, rfl⟩).cons ⟨rfl, ?_⟩) (fun _ h => h.1) fun _ h => h.2
      simp [Event.handedOver, ECONNRESET]
    · rw [hlog]
      exact ⟨rfl, rfl⟩

/-- A round that ends the loop, for a proper answer. -/
theorem proper_of_returns {ev : PollEvent} {rest : List PollEvent} (hp : r.proper)
    (hpc : s.pc = .acceptLoop a ev rest) (hpc' : s'.pc = .drainRead ev rest)
    (hr : AcceptRound a ev rest s r s') : r = .fail EAGAIN := by
  cases hr with
  | drained => rfl
  | failed he _ _ => exact (he hp).elim
  | passed _ h =>
    rcases h with ⟨h, -⟩ | ⟨h, -⟩
    · rw [h, hpc] at hpc'
      cases hpc'
    · rw [h] at hpc'
      cases hpc'
  | @dropped fd code nonblock _ hfail _ _ =>
    cases nonblock with
    | ok => simp [setNonBlock, show fd ≠ -1 from hp] at hfail
    | getflFail errno | setflFail errno => exact hp.elim

/-- With a callback bound, a round for an improper answer ends the loop before its time. -/
theorem proper_iff {ev : PollEvent} {rest : List PollEvent} (hc : s.callback = none)
    (hpc : s.pc = .acceptLoop a ev rest) (hl : (s.acceptors a).live = true)
    (hcb : (s.acceptors a).cb.isSome = true) (hs : s.accept r = some s') :
    (s'.pc = .drainRead ev rest → r = .fail EAGAIN) ↔ r.proper := by
  have hsome : (s.acceptors a).cb ≠ none := Option.isSome_iff_ne_none.mp hcb
  have hr := accept_round hc hpc hl hs
  refine ⟨fun h => ?_, fun hp hpc' => proper_of_returns hp hpc hpc' hr⟩
  cases hr with
  | drained => rfl
  | failed he hpc' _ =>
    rcases hpc' with hpc' | ⟨-, hno⟩
    · exact AcceptResult.fail.inj (h hpc')
    · exact (hsome hno).elim
  | passed hfd _ => exact hfd
  | dropped _ hpc' _ =>
    rcases hpc' with hpc' | ⟨-, hno⟩
    · cases h hpc'
    · exact (hsome hno).elim

end State

/-- While `::accept` and `SetNonBlock` do not fail, the callback gets every connection once and in
order, and `onRead` returns only when no connection is left. Any other answer makes it return. -/
theorem backlog_drained (a : AccId) :
    (∀ s : State κ, (proactor κ).Reachable State.acceptsProperly s →
      (¬ s.pc.dead → handedOver a s.heap.log = connections a s.heap.log) ∧
      ∀ act s' ev rest, s.acceptsProperly act → s.step act = some s' →
        s.pc = .acceptLoop a ev rest → s'.pc = .drainRead ev rest →
        act = .accept (.fail EAGAIN)) ∧
    ∀ (s s' : State κ) r ev rest, s.callback = none → s.pc = .acceptLoop a ev rest →
      (s.acceptors a).live = true → (s.acceptors a).cb.isSome = true → s.accept r = some s' →
      ((s'.pc = .drainRead ev rest → r = .fail EAGAIN) ↔ r.proper) := by
  refine ⟨fun s hr => ⟨?_, ?_⟩, fun s s' r ev rest hc hpc hl hcb hs =>
    State.proper_iff hc hpc hl hcb hs⟩
  · apply hr.invariant (I := State.HandsOver a)
    · rintro s₀ ⟨mem, rfl⟩ -
      rfl
    · intro s₀ act s₁ _ hh hp hs
      exact hh.step hp hs
  · intro act s' ev rest hp hs hpc hpc'
    obtain ⟨r, rfl⟩ := (State.step_control hs).accept_of_returns hpc hpc'
    obtain ⟨hc, hacc⟩ := State.library_some hs
    have hl : (s.acceptors a).live = true := by
      by_contra hdead
      unfold State.accept at hacc
      rw [hpc] at hacc
      simp only [State.live, hdead, if_true, Option.some.injEq] at hacc
      rw [← hacc] at hpc'
      cases hpc'
    rw [State.proper_of_returns hp hpc hpc' (State.accept_round hc hpc hl hacc)]

/-- A listening Acceptor on descriptor 5 with an event for it. -/
def listener : List (Action Unit) :=
  [.epollCreate 3 0, .createAcceptor 0 INVALID_SOCKET, .listen 0 () ⟨.ok 5, 0, .ok, 0, 0, 0⟩, .run,
    .epollWait (.events [⟨5, .acceptor 0, ⟨true, false, false, false, false⟩⟩]),
    .dispatch (.got []) (.accepted 0)]

/-- Two connections are waiting. -/
theorem backlog_drained_two : ∃ s : State Unit,
    (proactor Unit).Reachable State.acceptsProperly s ∧ ¬ s.pc.dead ∧
    connections 0 s.heap.log = [7, 6] ∧ handedOver 0 s.heap.log = connections 0 s.heap.log := by
  obtain ⟨s, hr, hf⟩ := Machine.exists_of_exec (M := proactor Unit) (p := State.acceptsProperly)
    (s := State.initial fun _ _ => 0)
    (l := listener ++ [.accept (.conn 6 .ok), .ret, .accept (.conn 7 .ok), .ret,
      .accept (.fail EAGAIN)])
    (f := fun s => (s.pc, connections 0 s.heap.log))
    (b := (.drainRead ⟨5, .acceptor 0, ⟨true, false, false, false, false⟩⟩ [], [7, 6]))
    ⟨_, rfl⟩ rfl
  obtain ⟨hpc, hcon⟩ := Prod.mk.inj hf
  have hrun : ¬ s.pc.dead := by
    rw [hpc]
    exact id
  exact ⟨s, hr, hrun, hcon, ((backlog_drained 0).1 s hr).1 hrun⟩

/-- `SetNonBlock` fails on the first connection of a burst: its descriptor is neither passed on nor
closed, and `onRead` returns although `::accept` has not reported that the backlog is empty. -/
theorem backlog_left : ∃ s : State Unit, (proactor Unit).Reachable Machine.free s ∧
    s.pc = .drainRead ⟨5, .acceptor 0, ⟨true, false, false, false, false⟩⟩ [] ∧
    s.callback = none ∧ s.heap.log.take 2 = [.accepted 0 24 (-1), .opened 0 .accept 6] ∧
    handedOver 0 s.heap.log = [] ∧ .closedFd 6 ∉ s.heap.log := by
  obtain ⟨s, hr, hf⟩ := Machine.exists_of_exec (M := proactor Unit) (p := Machine.free)
    (s := State.initial fun _ _ => 0)
    (l := listener ++ [.accept (.conn 6 (.getflFail 24)), .ret])
    (f := fun s => (s.pc, s.callback.isNone, s.heap.log.take 2, handedOver 0 s.heap.log,
      decide (.closedFd 6 ∉ s.heap.log)))
    (b := (.drainRead ⟨5, .acceptor 0, ⟨true, false, false, false, false⟩⟩ [], true,
      [.accepted 0 24 (-1), .opened 0 .accept 6], [], true)) ⟨_, rfl⟩ rfl
  simp only [Prod.mk.injEq] at hf
  obtain ⟨hpc, hc, hlog, hho, hcl⟩ := hf
  exact ⟨s, hr, hpc, Option.isNone_iff_eq_none.mp hc, hlog, hho, of_decide_eq_true hcl⟩

end EchoBenchmark.Proactor
