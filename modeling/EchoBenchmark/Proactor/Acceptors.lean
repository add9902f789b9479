import EchoBenchmark.Lib.History
import EchoBenchmark.Proactor.Interest

/-!
What one step of the machine can do to an Acceptor, its registrations and its part of the history.
-/

namespace EchoBenchmark.Proactor

open History (Adds)

variable {κ : Type}

/-- The Acceptor that an entry of the history is about. -/
def Event.acceptor : Event → Option AccId
  | .opened a _ _ | .accepted a _ _ | .registered (.acceptor a) _ | .removed (.acceptor a) => some a
  | _ => none

/-- Entries were added to a history, none of them about Acceptor `a`. -/
abbrev AddsAside (a : AccId) : List Event → List Event → Prop :=
  Adds fun e => e.acceptor ≠ some a

theorem Event.isIo.acceptor_none {e : Event} {t : TokenId} (he : e.isIo t) : e.acceptor = none := by
  cases e <;> first | rfl | exact he.elim

theorem Event.isIo.ne_acceptor {e : Event} {t : TokenId} (he : e.isIo t) (a : AccId) :
    e.acceptor ≠ some a := by
  rw [he.acceptor_none]
  exact (Option.some_ne_none a).symm

namespace Heap

variable {h h' : Heap κ} {a : AccId} {t : TokenId} {q : Request κ} {e : Event} {ok : Bool}

theorem Begun.aside (hs : Begun h q e h') : AddsAside a h.log h'.log := by
  rw [hs.log]
  exact (Adds.refl.cons (by simp [Event.acceptor])).cons (hs.io.ne_acceptor a)

theorem Opens.aside (ho : Opens h q (h', ok)) : AddsAside a h.log h'.log := by
  cases ho with
  | refused d hm => exact Adds.refl.cons (by simp [Event.acceptor])
  | finished hs hf => exact hs.aside
  | @parked e h₁ n hs hp he =>
    rcases log_park_cases h₁ q.token n q.mode q.timeoutMsec q.clock with hlog | ⟨tv, hlog⟩
    · rw [hlog]
      exact hs.aside
    · rw [hlog]
      exact hs.aside.cons (by simp [Event.acceptor])

theorem Progresses.aside (hp : Progresses h t h') : AddsAside a h.log h'.log := by
  rcases hp.log with hlog | ⟨e, he, hlog⟩
  · rw [hlog]
    exact .refl
  · rw [hlog]
    exact Adds.refl.cons (he.ne_acceptor a)

end Heap

/-- The Acceptor is as it was and in no new entry, neither of the epoll set nor of the history. -/
structure Aside (a : AccId) (s s' : State κ) : Prop where
  acceptor : s'.acceptors a = s.acceptors a
  interest : ∀ i ∈ s'.interest, i.handler = .acceptor a → i ∈ s.interest
  log : AddsAside a s.heap.log s'.heap.log

namespace Aside

variable {s s' s₀ : State κ} {a b : AccId} {h : Handler} {id : SockId} {ctl : Int}
  {acceptor : Bool} {t : TokenId} {err : Error} {bytes : Int} {via : Via} {e : Event}

theorem refl (s : State κ) : Aside a s s := ⟨rfl, fun _ hi _ => hi, .refl⟩

/-- Only the history and what Acceptors do not share changed. -/
theorem frame (hs : Aside a s₀ s) (ha : s'.acceptors a = s.acceptors a)
    (hi : s'.interest = s.interest) (hl : AddsAside a s.heap.log s'.heap.log) :
    Aside a s₀ s' where
  acceptor := ha.trans hs.acceptor
  interest i hmem := hs.interest i (by rw [← hi]; exact hmem)
  log := hs.log.trans hl

theorem emit (hs : Aside a s₀ s) (he : e.acceptor ≠ some a) : Aside a s₀ (s.emit e) :=
  hs.frame rfl rfl (Adds.refl.cons he)

theorem setAcceptor (hs : Aside a s₀ s) (hb : b ≠ a) (c : Acceptor κ) :
    Aside a s₀ (s.setAcceptor b c) :=
  hs.frame (Function.update_of_ne (Ne.symm hb) _ _) rfl .refl

theorem fault (hs : Aside a s₀ s) : Aside a s₀ (s.fault h) :=
  hs.frame rfl rfl (Adds.refl.cons (by simp [Event.acceptor]))

theorem register (hs : Aside a s₀ s) (hh : h ≠ .acceptor a) :
    Aside a s₀ (s.register h acceptor ctl).1 := by
  unfold State.register
  split
  · exact hs.frame rfl rfl .refl
  · dsimp only
    split
    · exact hs.frame rfl rfl .refl
    · refine ⟨hs.acceptor, fun i hi ha => ?_, hs.log.cons ?_⟩
      · rcases List.mem_cons.mp hi with rfl | hi
        · exact (hh ha).elim
        · exact hs.interest i hi ha
      · cases h with
        | socket id => simp [Event.acceptor]
        | acceptor b => simpa [Event.acceptor] using hh

theorem removeHandler (hs : Aside a s₀ s) (hh : h ≠ .acceptor a) :
    Aside a s₀ (s.removeHandler h) := by
  have he : (Event.removed h).acceptor ≠ some a := by
    cases h with
    | socket id => simp [Event.acceptor]
    | acceptor b => simpa [Event.acceptor] using hh
  unfold State.removeHandler
  dsimp only
  split
  · exact hs.frame rfl rfl (Adds.refl.cons he)
  · exact ⟨hs.acceptor, fun i hi => hs.interest i (List.mem_of_mem_filter hi), hs.log.cons he⟩

theorem closeSocket (hs : Aside a s₀ s) : Aside a s₀ (s.closeSocket id) := by
  have hr := hs.removeHandler (h := .socket id) (by simp)
  unfold State.closeSocket
  dsimp only
  split
  · exact hr.frame rfl rfl (Adds.refl.cons (by simp [Event.acceptor]))
  · exact hr

theorem destroySocket (hs : Aside a s₀ s) : Aside a s₀ (s.destroySocket id) := by
  have hrel : ∀ s₁ : State κ, Aside a s₀ s₁ →
      Aside a s₀ (s₁.onHeap fun h => (h.unlink id).release id) := by
    intro s₁ h₁
    refine h₁.frame rfl rfl ?_
    have hlog : (s₁.heap.unlink id).log = s₁.heap.log := Heap.log_unlink
    rw [State.heap_onHeap, ← hlog]
    exact Adds.refl.cons (by simp [Event.acceptor])
  unfold State.destroySocket
  dsimp only
  split
  · exact hrel _ hs.closeSocket
  · exact hrel _ hs

theorem closeAcceptor (hs : Aside a s₀ s) (hb : b ≠ a) : Aside a s₀ (s.closeAcceptor b) := by
  have hr := hs.removeHandler (h := .acceptor b) (by simpa using hb)
  unfold State.closeAcceptor
  dsimp only
  split
  · exact (hr.emit (by simp [Event.acceptor])).setAcceptor hb _
  · exact hr

theorem destroyAcceptor (hs : Aside a s₀ s) (hb : b ≠ a) : Aside a s₀ (s.destroyAcceptor b) := by
  unfold State.destroyAcceptor
  dsimp only
  split
  · exact (hs.closeAcceptor hb).setAcceptor hb _
  · exact hs.setAcceptor hb _

theorem listen (hs : Aside a s₀ s) (hb : b ≠ a) (cb : κ) (r : ListenResult) :
    Aside a s₀ (s.listen b cb r).1 := by
  have hsock : Aside a s₀ (s.listenSocket b r).1 := by
    obtain ⟨s₁, c, he, rfl | ⟨fd, rfl⟩⟩ := State.listenSocket_shape (s := s) (a := b) r
    · rw [he]
      exact hs.setAcceptor hb c
    · rw [he]
      exact (hs.emit (by simpa [Event.acceptor] using hb)).setAcceptor hb c
  rcases State.listen_shape (s := s) (a := b) cb r with he | ⟨c, he⟩
  · rw [he]
    exact hsock
  · rw [he]
    exact (hsock.setAcceptor hb c).register (by simpa using hb)

theorem invoke (hs : Aside a s₀ s) : Aside a s₀ (s.invoke t err bytes via) := by
  obtain ⟨-, he⟩ | ⟨cb, -, he⟩ := State.invoke_cases s t err bytes via
  · rw [he]
    exact hs.frame rfl rfl .refl
  · rw [he]
    exact hs.frame rfl rfl (Adds.refl.cons (by simp [Event.acceptor]))

theorem invokeAccept (hs : Aside a s₀ s) (hb : b ≠ a) (soc : Int) :
    Aside a s₀ (s.invokeAccept b err soc) := by
  rcases State.invokeAccept_cases s b err soc with he | ⟨inv, he⟩
  · rw [he]
    exact hs.frame rfl rfl .refl
  · rw [he]
    exact hs.frame rfl rfl (Adds.refl.cons (by simpa [Event.acceptor] using hb))

theorem onCloseSocket (hs : Aside a s₀ s) : Aside a s₀ (s.onCloseSocket id) :=
  State.onCloseSocket_rule (P := fun s' => Aside a s₀ s') (hs.frame rfl rfl .refl)
    fun _ _ => Aside.invoke (hs.frame rfl rfl .refl)

theorem closeHandle (hs : Aside a s₀ s) : Aside a s₀ s.closeHandle := by
  unfold State.closeHandle
  split
  · exact ⟨hs.acceptor, fun _ hi => (List.not_mem_nil hi).elim,
      hs.log.cons (by simp [Event.acceptor])⟩
  · exact hs

end Aside

/-- What a step does to Acceptor `a`, with the place it does it from. -/
inductive AcceptorStep (a : AccId) (s : State κ) (act : Action κ) (s' : State κ) : Prop
  | aside : Aside a s s' → AcceptorStep a s act s'
  | created {soc : Int} : act = .createAcceptor a soc → s.userActive = true →
      (s.acceptors a).live = false → s' = s.setAcceptor a ⟨true, soc, none, Error.new⟩ →
      AcceptorStep a s act s'
  | listened {cb : κ} {r : ListenResult} : act = .listen a cb r → s.userActive = true →
      (s.acceptors a).live = true → s' = (s.listen a cb r).1 → AcceptorStep a s act s'
  | closed : act = .closeAcceptor a → s.userActive = true → (s.acceptors a).live = true →
      s' = s.closeAcceptor a → AcceptorStep a s act s'
  | destroyed : act = .destroyAcceptor a → s.userActive = true → (s.acceptors a).live = true →
      s' = s.destroyAcceptor a → AcceptorStep a s act s'
  | accepted {r : AcceptResult} {ev : PollEvent} {rest : List PollEvent} : act = .accept r →
      s.callback = none → s.pc = .acceptLoop a ev rest → (s.acceptors a).live = true →
      s.accept r = some s' → AcceptorStep a s act s'
  | hungup {ev : PollEvent} {rest : List PollEvent} : s.callback = none →
      s.pc = .event (ev :: rest) → ev.events.hangup = true → ev.handler = .acceptor a →
      (s.acceptors a).live = true →
      s' = ({ s with pc := .event rest }.emit (.dispatched ev.handler .onClose)).onCloseAcceptor a →
      AcceptorStep a s act s'

namespace State

variable {s s' : State κ} {act : Action κ} {a b : AccId} {h : Handler}

theorem user_acceptorStep {f : State κ → State κ} (hs : s.user h f = some s')
    (hf : s.userActive = true → s.live h = true → AcceptorStep a s act (f s)) :
    AcceptorStep a s act s' := by
  obtain ⟨hu, ⟨-, rfl⟩ | ⟨hl, rfl⟩⟩ := user_cases hs
  · exact .aside (Aside.refl s).fault
  · exact hf hu hl

theorem opens_aside {h' : Heap κ} {q : Request κ} {ok : Bool} (ho : s.heap.Opens q (h', ok)) :
    Aside a s { s with heap := h' } :=
  (Aside.refl s).frame rfl rfl ho.aside

theorem dispatch_acceptorStep {r : ReadResult} {w : WriteResult} (hc : s.callback = none)
    (hs : s.dispatch r w = some s') : AcceptorStep a s act s' := by
  have hnote : ∀ {s₁ : State κ} {h : Handler} {m : Method}, Aside a s s₁ →
      Aside a s (s₁.emit (.dispatched h m)) := fun h₁ => h₁.emit (by simp [Event.acceptor])
  have hpc₁ : ∀ p, Aside a s { s with pc := p } := fun p => (Aside.refl s).frame rfl rfl .refl
  have hdel₁ : Aside a s { s with deleted := [] } := (Aside.refl s).frame rfl rfl .refl
  cases dispatch_cases hs with
  | closeLost _ _ he =>
    rw [he]
    exact .aside (hnote (hpc₁ _)).fault
  | closeSocket _ _ _ _ he =>
    rw [he]
    exact .aside (hnote (hpc₁ _)).onCloseSocket
  | @closeAcceptor ev rest b hpc hup hb hl he =>
    by_cases hba : b = a
    · subst hba
      exact .hungup hc hpc hup hb hl he
    · rw [he]
      exact .aside (((hnote (hpc₁ _)).setAcceptor hba _).invokeAccept hba _)
  | readLost _ _ _ he =>
    rw [he]
    exact .aside (hnote hdel₁).fault
  | readSocket _ _ _ _ _ he =>
    rw [he]
    exact .aside ((hnote hdel₁).frame rfl rfl Heap.onRead_progresses.aside)
  | readAcceptor _ _ _ _ he =>
    rw [he]
    exact .aside ((hnote hdel₁).frame rfl rfl .refl)
  | skips _ _ _ he | passes _ _ he =>
    rw [he]
    exact .aside (hpc₁ _)
  | writeLost _ _ he =>
    rw [he]
    exact .aside (hnote (Aside.refl s)).fault
  | writeSocket _ _ _ _ he =>
    rw [he]
    exact .aside ((hnote (Aside.refl s)).frame rfl rfl Heap.onWrite_progresses.aside)
  | writeAcceptor _ _ _ he =>
    rw [he]
    exact .aside ((hnote (Aside.refl s)).frame rfl rfl .refl)

/-- A round of the loop of another Acceptor. -/
theorem accept_aside {r : AcceptResult} {ev : PollEvent} {rest : List PollEvent} (hba : b ≠ a)
    (hpc : s.pc = .acceptLoop b ev rest) (hs : s.accept r = some s') : Aside a s s' := by
  have hset : ∀ (s₁ : State κ) (c : Acceptor κ) (p : Pc), Aside a s s₁ →
      Aside a s { s₁.setAcceptor b c with pc := p } :=
    fun s₁ c p h₁ => (h₁.setAcceptor hba c).frame rfl rfl .refl
  have hopen : ∀ fd, Aside a s (s.emit (.opened b .accept fd)) :=
    fun fd => (Aside.refl s).emit (by simpa [Event.acceptor] using hba)
  have hopened : ∀ {s₁ : State κ}, (s₁ = s ∨ ∃ fd, s₁ = s.emit (.opened b .accept fd)) →
      Aside a s s₁ := by
    rintro s₁ (rfl | ⟨fd, rfl⟩)
    · exact Aside.refl _
    · exact hopen fd
  cases accept_cases hs with
  | lost _ he =>
    rw [he]
    exact (Aside.refl s).fault
  | returns hpc' h₁ he =>
    cases hpc.symm.trans hpc'
    rw [he]
    exact hset _ _ _ (hopened h₁)
  | failed hpc' h₁ he =>
    cases hpc.symm.trans hpc'
    rw [he]
    exact (hset _ _ _ (hopened h₁)).invokeAccept hba _
  | passed hpc' he =>
    cases hpc.symm.trans hpc'
    rw [he]
    exact ((hopen _).setAcceptor hba _).invokeAccept hba _

theorem accept_acceptorStep {r : AcceptResult} (hc : s.callback = none)
    (hs : s.accept r = some s') : AcceptorStep a s (.accept r) s' := by
  cases hpc : s.pc with
  | acceptLoop b ev rest =>
    by_cases hba : b = a
    · subst hba
      cases hl : (s.acceptors b).live with
      | false =>
        have hfault : s' = s.fault (.acceptor b) := by
          unfold accept at hs
          rw [hpc] at hs
          simpa [live, hl] using hs.symm
        rw [hfault]
        exact .aside (Aside.refl s).fault
      | true => exact .accepted rfl hc hpc hl hs
    · exact .aside (accept_aside hba hpc hs)
  | _ =>
    unfold accept at hs
    rw [hpc] at hs
    cases hs

theorem processCompletion_aside (hs : s.processCompletion = some s') : Aside a s s' := by
  cases processCompletion_cases hs with
  | ends _ _ _ _ he =>
    rw [he]
    exact (Aside.refl s).frame rfl rfl .refl
  | faults _ _ _ he =>
    rw [he]
    exact (Aside.refl s).fault
  | completes _ _ _ he =>
    rw [he]
    exact Aside.invoke ((Aside.refl s).frame rfl rfl .refl)

theorem processTimer_aside (hs : s.processTimer = some s') : Aside a s s' := by
  cases processTimer_cases hs with
  | ends _ he =>
    rw [he]
    exact (Aside.refl s).frame rfl rfl .refl
  | faults _ _ _ he =>
    rw [he]
    exact (Aside.refl s).fault
  | expires _ _ _ _ he =>
    rw [he]
    exact Aside.invoke ((Aside.refl s).frame rfl rfl .refl)

theorem epollWait_aside {r : PollResult} (hs : s.epollWait r = some s') : Aside a s s' := by
  cases epollWait_cases hs with
  | @leaves err he =>
    have h₁ : Aside a s { s with err := err } := (Aside.refl s).frame rfl rfl .refl
    rw [he]
    exact h₁.closeHandle.frame rfl rfl .refl
  | idles he =>
    rw [he]
    exact (Aside.refl s).frame rfl rfl .refl
  | polls _ _ he =>
    rw [he]
    exact (Aside.refl s).frame rfl rfl (Adds.refl.cons (by simp [Event.acceptor]))

/-- Every step leaves the Acceptor aside or is one of the six that are about it. -/
theorem step_acceptor (a : AccId) (hs : s.step act = some s') : AcceptorStep a s act s' := by
  cases act with
  | epollCreate fd errno =>
    dsimp only [step] at hs
    have hnil : Aside a s { s with fd := fd, interest := [] } :=
      ⟨rfl, fun _ hi => (List.not_mem_nil hi).elim, .refl⟩
    split at hs
    · split at hs
      · cases hs
        exact .aside (hnil.frame rfl rfl .refl)
      · cases hs
        exact .aside hnil
    · cases hs
  | create id soc rtv wtv ctl =>
    dsimp only [step] at hs
    split at hs
    · cases hs
      exact .aside (Aside.register ((Aside.refl s).frame rfl rfl
        (Adds.refl.cons (by simp [Event.acceptor]))) (by simp))
    · cases hs
  | createUnbound id rtv wtv =>
    dsimp only [step] at hs
    split at hs
    · cases hs
      exact .aside ((Aside.refl s).frame rfl rfl (Adds.refl.cons (by simp [Event.acceptor])))
    · cases hs
  | readSome id buf size cb ms r now =>
    unfold step at hs
    exact user_acceptorStep hs fun _ _ => .aside (opens_aside Heap.readSome_opens)
  | readAll id buf size cb ms r now =>
    unfold step at hs
    exact user_acceptorStep hs fun _ _ => .aside (opens_aside Heap.readAll_opens)
  | writeAll id buf size cb ms r now =>
    unfold step at hs
    exact user_acceptorStep hs fun _ _ => .aside (opens_aside Heap.writeAll_opens)
  | close id =>
    unfold step at hs
    exact user_acceptorStep hs fun _ _ => .aside (Aside.refl s).closeSocket
  | destroy id =>
    unfold step at hs
    exact user_acceptorStep hs fun _ _ => .aside (Aside.refl s).destroySocket
  | memcpy dst src n =>
    dsimp only [step] at hs
    split at hs
    · cases hs
      exact .aside ((Aside.refl s).frame rfl rfl (Adds.refl.cons (by simp [Event.acceptor])))
    · cases hs
  | createAcceptor b soc =>
    dsimp only [step] at hs
    split at hs
    · rename_i hu
      cases hs
      by_cases hba : b = a
      · subst hba
        exact .created rfl hu.1 hu.2 rfl
      · exact .aside ((Aside.refl s).setAcceptor hba _)
    · cases hs
  | listen b cb r =>
    unfold step at hs
    refine user_acceptorStep hs fun hu hl => ?_
    by_cases hba : b = a
    · subst hba
      exact .listened rfl hu hl rfl
    · exact .aside ((Aside.refl s).listen hba cb r)
  | closeAcceptor b =>
    unfold step at hs
    refine user_acceptorStep hs fun hu hl => ?_
    by_cases hba : b = a
    · subst hba
      exact .closed rfl hu hl rfl
    · exact .aside ((Aside.refl s).closeAcceptor hba)
  | destroyAcceptor b =>
    unfold step at hs
    refine user_acceptorStep hs fun hu hl => ?_
    by_cases hba : b = a
    · subst hba
      exact .destroyed rfl hu hl rfl
    · exact .aside ((Aside.refl s).destroyAcceptor hba)
  | stop =>
    cases hs
    exact .aside ((Aside.refl s).frame rfl rfl .refl)
  | run =>
    obtain ⟨-, hs⟩ := library_some hs
    split at hs
    · cases hs
      exact .aside ((Aside.refl s).frame rfl rfl .refl)
    · cases hs
  | ret =>
    dsimp only [step] at hs
    split at hs
    · cases hs
      exact .aside ((Aside.refl s).frame rfl rfl .refl)
    · cases hs
  | epollWait r =>
    obtain ⟨-, hs⟩ := library_some hs
    split at hs
    · exact .aside (epollWait_aside hs)
    · cases hs
  | dispatch r w =>
    obtain ⟨hc, hs⟩ := library_some hs
    exact dispatch_acceptorStep hc hs
  | accept r =>
    obtain ⟨hc, hs⟩ := library_some hs
    exact accept_acceptorStep hc hs
  | processCompletion => exact .aside (processCompletion_aside (library_some hs).2)
  | startTimer now =>
    obtain ⟨-, hs⟩ := library_some hs
    unfold startTimer at hs
    split at hs
    · cases hs
      exact .aside ((Aside.refl s).frame rfl rfl .refl)
    · cases hs
  | processTimer => exact .aside (processTimer_aside (library_some hs).2)
  | environment e =>
    cases hs
    exact .aside ((Aside.refl s).emit (by simp [Event.acceptor]))

end State

/-! ### Rounds of the accept loop -/

/-- The Acceptor but for its error. -/
def Acceptor.same (c c' : Acceptor κ) : Prop := c'.live = c.live ∧ c'.soc = c.soc ∧ c'.cb = c.cb

/-- What a round of the `while` loop of `Acceptor::onRead` does, by the answer of `::accept`. -/
inductive AcceptRound (a : AccId) (ev : PollEvent) (rest : List PollEvent) (s : State κ) :
    AcceptResult → State κ → Prop
  | drained {s' : State κ} : s'.pc = .drainRead ev rest → s'.callback = none →
      s'.heap.log = s.heap.log → AcceptRound a ev rest s (.fail EAGAIN) s'
  | failed {errno : Int} {s' : State κ} : errno ≠ EAGAIN →
      s'.pc = .drainRead ev rest ∨ s'.pc = .thrown ∧ (s.acceptors a).cb = none →
      s'.heap.log = s.heap.log ∨ s'.heap.log = .accepted a errno (-1) :: s.heap.log →
      AcceptRound a ev rest s (.fail errno) s'
  | passed {fd : Int} {s' : State κ} : fd ≠ -1 →
      (s'.pc = s.pc ∧ s'.heap.log = .accepted a 0 fd :: .opened a .accept fd :: s.heap.log) ∨
        (s'.pc = .thrown ∧ (s.acceptors a).cb = none ∧
          s'.heap.log = .opened a .accept fd :: s.heap.log) →
      AcceptRound a ev rest s (.conn fd .ok) s'
  | dropped {fd c : Int} {nonblock : NonBlockResult} {s' : State κ} :
      (setNonBlock fd nonblock Error.new).1 = false →
      s'.pc = .drainRead ev rest ∨ s'.pc = .thrown ∧ (s.acceptors a).cb = none →
      s'.heap.log = .opened a .accept fd :: s.heap.log ∨
        s'.heap.log = .accepted a c (-1) :: .opened a .accept fd :: s.heap.log →
      AcceptRound a ev rest s (.conn fd nonblock) s'

namespace State

variable {s s' : State κ} {a : AccId} {err : Error} {ev : PollEvent} {rest : List PollEvent}

theorem setNonBlock_fails (fd : Int) (r : NonBlockResult) (err : Error) :
    (setNonBlock fd r err).1 = (setNonBlock fd r Error.new).1 := by
  unfold setNonBlock
  split
  · rfl
  · cases r <;> rfl

theorem setNonBlock_true {fd : Int} {r : NonBlockResult} {err err' : Error}
    (h : setNonBlock fd r err = (true, err')) : fd ≠ -1 ∧ r = .ok ∧ err' = err := by
  unfold setNonBlock at h
  split at h
  · cases h
  · rename_i hfd
    cases r with
    | ok =>
      cases h
      exact ⟨hfd, rfl, rfl⟩
    | getflFail errno | setflFail errno => cases h

theorem log_invokeAccept (s : State κ) (a : AccId) (err : Error) (soc : Int) :
    ((s.invokeAccept a err soc).pc = s.pc ∧
      (s.invokeAccept a err soc).heap.log = .accepted a err.code soc :: s.heap.log) ∨
    ((s.invokeAccept a err soc).pc = .thrown ∧ (s.acceptors a).cb = none ∧
      (s.invokeAccept a err soc).heap.log = s.heap.log) := by
  unfold invokeAccept
  cases hcb : (s.acceptors a).cb with
  | none => exact .inr ⟨rfl, rfl, rfl⟩
  | some fn => exact .inl ⟨rfl, rfl⟩

@[simp] theorem acceptors_invokeAccept (soc : Int) :
    (s.invokeAccept a err soc).acceptors = s.acceptors := by
  unfold invokeAccept
  split <;> rfl

/-- A round changes no more of the Acceptor than its error, and nothing of the epoll set. -/
theorem accept_same {r : AcceptResult} (hpc : s.pc = .acceptLoop a ev rest)
    (hs : s.accept r = some s') :
    (s.acceptors a).same (s'.acceptors a) ∧ s'.interest = s.interest := by
  cases accept_cases hs with
  | lost _ he =>
    rw [he]
    exact ⟨⟨rfl, rfl, rfl⟩, rfl⟩
  | returns hpc' h₁ he | failed hpc' h₁ he =>
    cases hpc.symm.trans hpc'
    rw [he]
    rcases h₁ with rfl | ⟨fd, rfl⟩ <;> simp [Acceptor.same, setAcceptor]
  | passed hpc' he =>
    cases hpc.symm.trans hpc'
    rw [he]
    simp [Acceptor.same, setAcceptor]

theorem accept_round {r : AcceptResult} (hc : s.callback = none)
    (hpc : s.pc = .acceptLoop a ev rest) (hl : (s.acceptors a).live = true)
    (hs : s.accept r = some s') : AcceptRound a ev rest s r s' := by
  have hlive : ¬ s.live (.acceptor a) = false := by simp [live, hl]
  unfold accept at hs
  rw [hpc] at hs
  dsimp only at hs
  rw [if_neg hlive] at hs
  cases r with
  | fail errno =>
    dsimp only at hs
    split at hs
    · rename_i he
      subst he
      cases hs
      exact .drained rfl hc rfl
    · rename_i he
      cases hs
      rcases log_invokeAccept { s.setAcceptor a _ with pc := .drainRead ev rest } a
        ((s.acceptors a).err.clear.set errno (.fail .accept errno)) (-1)
        with ⟨hp, hlog⟩ | ⟨hp, hcb, hlog⟩
      · exact .failed he (.inl hp) (.inr hlog)
      · exact .failed he (.inr ⟨hp, by simpa [setAcceptor] using hcb⟩) (.inl hlog)
  | conn fd nonblock =>
    dsimp only at hs
    split at hs
    · rename_i err he
      have hfail : (setNonBlock fd nonblock Error.new).1 = false := by
        rw [← setNonBlock_fails fd nonblock (s.acceptors a).err.clear, he]
      split at hs
      · cases hs
        exact .dropped (c := 0) hfail (.inl rfl) (.inl rfl)
      · cases hs
        rcases log_invokeAccept { (s.emit (.opened a .accept fd)).setAcceptor a _
          with pc := .drainRead ev rest } a err (-1) with ⟨hp, hlog⟩ | ⟨hp, hcb, hlog⟩
        · exact .dropped hfail (.inl hp) (.inr hlog)
        · exact .dropped (c := 0) hfail (.inr ⟨hp, by simpa [setAcceptor] using hcb⟩)
            (.inl hlog)
    · rename_i err he
      obtain ⟨hfd, rfl, -⟩ := setNonBlock_true he
      cases hs
      rcases log_invokeAccept ((s.emit (.opened a .accept fd)).setAcceptor a _) a err.clear fd with
        ⟨hp, hlog⟩ | ⟨hp, hcb, hlog⟩
      · exact .passed hfd (.inl ⟨hp, hlog⟩)
      · exact .passed hfd (.inr ⟨hp, by simpa [setAcceptor] using hcb, hlog⟩)

/-- `onClose` calls back with the error of a reset and without a descriptor. -/
theorem onCloseAcceptor_cases :
    (s.acceptors a).same ((s.onCloseAcceptor a).acceptors a) ∧
    (s.onCloseAcceptor a).interest = s.interest ∧
    (((s.onCloseAcceptor a).pc = s.pc ∧ (s.onCloseAcceptor a).heap.log =
        .accepted a ECONNRESET INVALID_SOCKET :: s.heap.log) ∨
      ((s.onCloseAcceptor a).pc = .thrown ∧ (s.onCloseAcceptor a).heap.log = s.heap.log)) := by
  unfold onCloseAcceptor
  dsimp only
  refine ⟨?_, ?_, (log_invokeAccept _ _ _ _).imp_right fun h => ⟨h.1, h.2.2⟩⟩
  · rw [acceptors_invokeAccept]
    simp [Acceptor.same, setAcceptor]
  · rw [interest_invokeAccept, interest_setAcceptor]

/-! ### What `listen` and `close` write down -/

/-- `socket` answered to the Acceptor. -/
def socketOpened (a : AccId) (e : Event) : Prop := ∃ fd, e = .opened a .createSocket fd

theorem listenSocket_adds (r : ListenResult) :
    Adds (socketOpened a) s.heap.log (s.listenSocket a r).1.heap.log ∧
    (s.listenSocket a r).1.interest = s.interest := by
  obtain ⟨s₁, c, he, rfl | ⟨fd, rfl⟩⟩ := listenSocket_shape (s := s) (a := a) r
  · rw [he]
    exact ⟨.refl, rfl⟩
  · rw [he]
    exact ⟨Adds.refl.cons ⟨fd, rfl⟩, rfl⟩

/-- Either the Acceptor is registered at the end, or nothing in the epoll set changes. -/
theorem listen_adds (cb : κ) (r : ListenResult) :
    ((s.listen a cb r).1.interest = s.interest ∧
      Adds (socketOpened a) s.heap.log (s.listen a cb r).1.heap.log) ∨
    ∃ i log, i.handler = .acceptor a ∧ (s.listen a cb r).1.interest = i :: s.interest ∧
      Adds (socketOpened a) s.heap.log log ∧
      (s.listen a cb r).1.heap.log = .registered (.acceptor a) i.fd :: log := by
  obtain ⟨hadds, hint⟩ := listenSocket_adds (s := s) (a := a) r
  rcases listen_shape (s := s) (a := a) cb r with he | ⟨c, he⟩
  · rw [he]
    exact .inl ⟨hint, hadds⟩
  · rw [he]
    unfold register
    split
    · exact .inl ⟨hint, hadds⟩
    · dsimp only
      split
      · exact .inl ⟨hint, hadds⟩
      · refine .inr ⟨⟨((s.listenSocket a r).1.setAcceptor a c).handle (.acceptor a), .acceptor a,
          interestMask true⟩, _, rfl, ?_, hadds, rfl⟩
        rw [← hint]
        rfl

/-- A descriptor of the Acceptor was closed. -/
def socketClosed (e : Event) : Prop := ∃ fd, e = .closedFd fd

theorem closeAcceptor_adds : ∃ log, log = .removed (.acceptor a) :: s.heap.log ∧
    Adds socketClosed log (s.closeAcceptor a).heap.log := by
  refine ⟨_, rfl, ?_⟩
  unfold closeAcceptor
  dsimp only
  split
  · rw [heap_setAcceptor, heap_emit, heap_removeHandler]
    exact Adds.refl.cons ⟨_, rfl⟩
  · rw [heap_removeHandler]
    exact .refl

/-- The destructor closes an Acceptor with a descriptor and leaves the history else. -/
theorem destroyAcceptor_cases :
    ((s.acceptors a).soc ≠ INVALID_SOCKET ∧
      s.destroyAcceptor a = (s.closeAcceptor a).setAcceptor a .gone) ∨
    ((s.acceptors a).soc = INVALID_SOCKET ∧ s.destroyAcceptor a = s.setAcceptor a .gone) := by
  unfold destroyAcceptor
  dsimp only
  split
  · rename_i hsoc
    exact .inl ⟨hsoc, rfl⟩
  · rename_i hinv
    exact .inr ⟨not_not.mp hinv, rfl⟩

end State

end EchoBenchmark.Proactor
