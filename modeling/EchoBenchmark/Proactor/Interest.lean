import EchoBenchmark.Proactor.Steps

/-! What one step of the machine can do to the epoll set. -/

namespace EchoBenchmark.Proactor

variable {κ : Type} {s s' s₀ : State κ} {act : Action κ} {h : Handler} {id : SockId} {a : AccId}
  {t : TokenId} {err : Error} {bytes : Int} {via : Via} {acceptor : Bool} {ctl : Int}

/-- How the epoll set follows from the one before. -/
inductive EpollStep (s s' : State κ) : Prop
  | kept : s'.fd = s.fd → s'.interest = s.interest → EpollStep s s'
  | added {i : Interest} : s'.fd = s.fd → s.fd ≠ INVALID_HANDLE → s'.interest = i :: s.interest →
      s'.handle i.handler = i.fd → i.fd ≠ INVALID_SOCKET → i.fd ∉ s.interest.map Interest.fd →
      s'.live i.handler = true → EpollStep s s'
  | removed {h : Handler} : s'.fd = s.fd →
      s'.interest = s.interest.filter (fun i => i.fd ≠ s.handle h) → EpollStep s s'
  | emptied : s'.interest = [] → EpollStep s s'

namespace State

@[simp] theorem fd_invoke : (s.invoke t err bytes via).fd = s.fd := by
  unfold invoke
  split <;> rfl

@[simp] theorem interest_invoke : (s.invoke t err bytes via).interest = s.interest := by
  unfold invoke
  split <;> rfl

@[simp] theorem fd_invokeAccept (soc : Int) : (s.invokeAccept a err soc).fd = s.fd := by
  unfold invokeAccept
  split <;> rfl

@[simp] theorem interest_invokeAccept (soc : Int) :
    (s.invokeAccept a err soc).interest = s.interest := by
  unfold invokeAccept
  split <;> rfl

theorem onCloseSocket_epoll :
    (s.onCloseSocket id).fd = s.fd ∧ (s.onCloseSocket id).interest = s.interest :=
  onCloseSocket_rule (P := fun s' => s'.fd = s.fd ∧ s'.interest = s.interest) ⟨rfl, rfl⟩
    fun _ _ => ⟨fd_invoke, interest_invoke⟩

/-- `EPOLL_CTL_DEL` of a set that is closed has nothing to remove. -/
theorem removeHandler_epoll (hnil : s.fd = INVALID_HANDLE → s.interest = []) :
    (s.removeHandler h).fd = s.fd ∧
    (s.removeHandler h).interest = s.interest.filter (fun i => i.fd ≠ s.handle h) := by
  unfold removeHandler
  dsimp only
  split
  · rename_i hno
    refine ⟨rfl, (List.filter_eq_self.mpr fun i hi => ?_).symm⟩
    rcases hno with hfd | hno
    · have hempty : s.interest = [] := hnil hfd
      have hi : i ∈ s.interest := hi
      rw [hempty] at hi
      cases hi
    · refine decide_eq_true fun he => hno ?_
      have he : i.fd = s.handle h := he
      rw [← he]
      exact List.mem_map_of_mem hi
  · exact ⟨rfl, rfl⟩

theorem closeSocket_epoll (hnil : s.fd = INVALID_HANDLE → s.interest = []) :
    (s.closeSocket id).fd = s.fd ∧
    (s.closeSocket id).interest = s.interest.filter (fun i => i.fd ≠ s.handle (.socket id)) := by
  have hrem := removeHandler_epoll (h := .socket id) hnil
  unfold closeSocket
  dsimp only
  split
  · exact hrem
  · exact hrem

theorem closeAcceptor_epoll (hnil : s.fd = INVALID_HANDLE → s.interest = []) :
    (s.closeAcceptor a).fd = s.fd ∧
    (s.closeAcceptor a).interest = s.interest.filter (fun i => i.fd ≠ s.handle (.acceptor a)) := by
  have hrem := removeHandler_epoll (h := .acceptor a) hnil
  unfold closeAcceptor
  dsimp only
  split
  · exact hrem
  · exact hrem

theorem handle_register (s : State κ) (h : Handler) (acceptor : Bool) (ctl : Int) (k : Handler) :
    (s.register h acceptor ctl).1.handle k = s.handle k := by
  unfold register
  split
  · cases k <;> rfl
  · dsimp only
    split <;> cases k <;> rfl

theorem live_register (s : State κ) (h : Handler) (acceptor : Bool) (ctl : Int) (k : Handler) :
    (s.register h acceptor ctl).1.live k = s.live k := by
  unfold register
  split
  · cases k <;> rfl
  · dsimp only
    split <;> cases k <;> rfl

/-- `_register` adds an entry for the descriptor of the handler, or none. -/
theorem register_epoll (hl : s.live h = true) (hfd : s.fd = s₀.fd)
    (hint : s.interest = s₀.interest) : EpollStep s₀ (s.register h acceptor ctl).1 := by
  have hhandle := handle_register s h acceptor ctl h
  have hlive := live_register s h acceptor ctl h
  unfold register at hhandle hlive ⊢
  split at hhandle
  · rename_i hinv
    rw [if_pos hinv]
    exact .kept hfd hint
  · rename_i hinv
    rw [if_neg hinv] at hlive ⊢
    dsimp only at hhandle hlive ⊢
    split at hhandle
    · rename_i he
      rw [if_pos he]
      exact .kept hfd hint
    · rename_i he
      have hok : s.epollAdd (s.handle h) ctl = 0 := not_not.mp he
      rw [if_neg he] at hlive ⊢
      have hopen : s.fd ≠ INVALID_HANDLE := by
        intro hc
        simp [epollAdd, hc, EBADF] at hok
      have hfree : s.handle h ∉ s.interest.map Interest.fd := by
        intro hm
        simp [epollAdd, hopen, hm, EEXIST] at hok
      refine .added (i := ⟨s.handle h, h, interestMask acceptor⟩) hfd (hfd ▸ hopen)
        (congrArg _ hint) hhandle hinv (hint ▸ hfree) (hlive.trans hl)

theorem dispatch_epoll {r : ReadResult} {w : WriteResult} (hs : s.dispatch r w = some s') :
    s'.fd = s.fd ∧ s'.interest = s.interest := by
  cases dispatch_cases hs with
  | closeSocket _ _ _ _ he =>
    rw [he]
    exact onCloseSocket_epoll
  | closeAcceptor _ _ _ _ he =>
    rw [he]
    exact ⟨fd_invokeAccept _, interest_invokeAccept _⟩
  | closeLost _ _ he | readLost _ _ _ he | readSocket _ _ _ _ _ he | readAcceptor _ _ _ _ he
  | skips _ _ _ he | writeLost _ _ he | writeSocket _ _ _ _ he | writeAcceptor _ _ _ he
  | passes _ _ he =>
    rw [he]
    exact ⟨rfl, rfl⟩

theorem accept_epoll {r : AcceptResult} (hs : s.accept r = some s') :
    s'.fd = s.fd ∧ s'.interest = s.interest := by
  have hopened : ∀ {s₁ : State κ} {a : AccId},
      (s₁ = s ∨ ∃ fd, s₁ = s.emit (.opened a .accept fd)) →
      s₁.fd = s.fd ∧ s₁.interest = s.interest := by
    rintro s₁ a (rfl | ⟨fd, rfl⟩) <;> exact ⟨rfl, rfl⟩
  cases accept_cases hs with
  | lost _ he =>
    rw [he]
    exact ⟨rfl, rfl⟩
  | returns _ h₁ he =>
    obtain ⟨hfd, hint⟩ := hopened h₁
    rw [he]
    exact ⟨hfd, hint⟩
  | failed _ h₁ he =>
    obtain ⟨hfd, hint⟩ := hopened h₁
    rw [he]
    exact ⟨(fd_invokeAccept _).trans hfd, (interest_invokeAccept _).trans hint⟩
  | passed _ he =>
    rw [he]
    exact ⟨fd_invokeAccept _, interest_invokeAccept _⟩

theorem processCompletion_epoll (hs : s.processCompletion = some s') :
    s'.fd = s.fd ∧ s'.interest = s.interest := by
  cases processCompletion_cases hs with
  | ends _ _ _ _ he | faults _ _ _ he =>
    rw [he]
    exact ⟨rfl, rfl⟩
  | completes _ _ _ he =>
    rw [he]
    exact ⟨fd_invoke, interest_invoke⟩

theorem processTimer_epoll (hs : s.processTimer = some s') :
    s'.fd = s.fd ∧ s'.interest = s.interest := by
  cases processTimer_cases hs with
  | ends _ he | faults _ _ _ he =>
    rw [he]
    exact ⟨rfl, rfl⟩
  | expires _ _ _ _ he =>
    rw [he]
    exact ⟨fd_invoke, interest_invoke⟩

theorem epollWait_epoll {r : PollResult}
    (hs : s.epollWait r = some s') : EpollStep s s' := by
  cases epollWait_cases hs with
  | leaves he =>
    rw [he]
    unfold closeHandle
    split
    · exact .emptied rfl
    · exact .kept rfl rfl
  | idles he | polls _ _ he =>
    rw [he]
    exact .kept rfl rfl

theorem user_epoll {f : State κ → State κ} (hs : s.user h f = some s')
    (hf : s.live h = true → EpollStep s (f s)) : EpollStep s s' := by
  obtain ⟨-, ⟨-, rfl⟩ | ⟨hl, rfl⟩⟩ := user_cases hs
  · exact .kept rfl rfl
  · exact hf hl

theorem listenSocket_epoll (r : ListenResult) : (s.listenSocket a r).1.fd = s.fd ∧
    (s.listenSocket a r).1.interest = s.interest := by
  obtain ⟨s₁, c, he, rfl | ⟨fd, rfl⟩⟩ := listenSocket_shape (s := s) (a := a) r
  · rw [he]
    exact ⟨rfl, rfl⟩
  · rw [he]
    exact ⟨rfl, rfl⟩

theorem live_listenSocket (r : ListenResult) :
    ((s.listenSocket a r).1.acceptors a).live = (s.acceptors a).live := by
  unfold listenSocket
  dsimp only
  cases r.socket with
  | error errno => simp [setAcceptor]
  | ok fd =>
    dsimp only
    split
    · simp [setAcceptor]
    · split
      · simp [setAcceptor]
      · split
        · simp [setAcceptor]
        · split <;> simp [setAcceptor]

theorem listen_epoll (hl : s.live (.acceptor a) = true) (cb : κ) (r : ListenResult) :
    EpollStep s (s.listen a cb r).1 := by
  obtain ⟨hfd, hint⟩ := listenSocket_epoll (s := s) (a := a) r
  have hlive := live_listenSocket (s := s) (a := a) r
  unfold listen
  split
  · rename_i s₁ he
    rw [he] at hfd hint
    exact .kept hfd hint
  · rename_i s₁ he
    rw [he] at hfd hint hlive
    refine register_epoll ?_ hfd hint
    simpa [live, setAcceptor] using hlive.trans hl

/-- Every step keeps the epoll set, adds or removes one descriptor, or empties it. -/
theorem step_epoll (hnil : s.fd = INVALID_HANDLE → s.interest = []) (hs : s.step act = some s') :
    EpollStep s s' := by
  have hkept : s'.fd = s.fd ∧ s'.interest = s.interest → EpollStep s s' := fun h => .kept h.1 h.2
  cases act with
  | epollCreate fd errno =>
    dsimp only [step] at hs
    split at hs
    · split at hs <;> (cases hs; exact .emptied rfl)
    · cases hs
  | create id soc rtv wtv ctl =>
    dsimp only [step] at hs
    split at hs
    · cases hs
      refine register_epoll ?_ rfl rfl
      simp [live, newSocket, Heap.live, Heap.create, Heap.emit]
    · cases hs
  | createUnbound id rtv wtv =>
    dsimp only [step] at hs
    split at hs
    · cases hs
      exact .kept rfl rfl
    · cases hs
  | readSome id buf size cb ms r now | readAll id buf size cb ms r now
  | writeAll id buf size cb ms r now =>
    unfold step at hs
    exact user_epoll hs fun _ => .kept rfl rfl
  | close id =>
    unfold step at hs
    exact user_epoll hs fun _ => .removed (closeSocket_epoll hnil).1 (closeSocket_epoll hnil).2
  | destroy id =>
    unfold step at hs
    refine user_epoll hs fun _ => ?_
    unfold destroySocket
    dsimp only
    split
    · exact .removed (closeSocket_epoll hnil).1 (closeSocket_epoll hnil).2
    · exact .kept rfl rfl
  | memcpy dst src n =>
    dsimp only [step] at hs
    split at hs
    · cases hs
      exact .kept rfl rfl
    · cases hs
  | createAcceptor b soc =>
    dsimp only [step] at hs
    split at hs
    · cases hs
      exact .kept rfl rfl
    · cases hs
  | listen b cb r =>
    unfold step at hs
    exact user_epoll hs fun hl => listen_epoll hl cb r
  | closeAcceptor b =>
    unfold step at hs
    exact user_epoll hs fun _ =>
      .removed (closeAcceptor_epoll hnil).1 (closeAcceptor_epoll hnil).2
  | destroyAcceptor b =>
    unfold step at hs
    refine user_epoll hs fun _ => ?_
    unfold destroyAcceptor
    dsimp only
    split
    · exact .removed (closeAcceptor_epoll hnil).1 (closeAcceptor_epoll hnil).2
    · exact .kept rfl rfl
  | stop =>
    cases hs
    exact .kept rfl rfl
  | run =>
    obtain ⟨-, hs⟩ := library_some hs
    split at hs
    · cases hs
      exact .kept rfl rfl
    · cases hs
  | ret =>
    dsimp only [step] at hs
    split at hs
    · cases hs
      exact .kept rfl rfl
    · cases hs
  | epollWait r =>
    obtain ⟨-, hs⟩ := library_some hs
    split at hs
    · exact epollWait_epoll hs
    · cases hs
  | dispatch r w => exact hkept (dispatch_epoll (library_some hs).2)
  | accept r => exact hkept (accept_epoll (library_some hs).2)
  | processCompletion => exact hkept (processCompletion_epoll (library_some hs).2)
  | startTimer now =>
    obtain ⟨-, hs⟩ := library_some hs
    unfold startTimer at hs
    split at hs
    · cases hs
      exact .kept rfl rfl
    · cases hs
  | processTimer => exact hkept (processTimer_epoll (library_some hs).2)
  | environment e =>
    cases hs
    exact .kept rfl rfl

/-- A proactor without an epoll descriptor watches nothing. -/
theorem interest_nil_of_reachable {p : State κ → Action κ → Prop}
    (hr : (proactor κ).Reachable p s) : s.fd = INVALID_HANDLE → s.interest = [] := by
  apply hr.invariant (I := fun s => s.fd = INVALID_HANDLE → s.interest = [])
  · rintro s₀ ⟨mem, rfl⟩ -
    rfl
  · intro s₀ act s₁ _ hnil _ hs hfd
    cases step_epoll hnil hs with
    | kept hfd' hint =>
      rw [hint]
      exact hnil (hfd'.symm.trans hfd)
    | added hfd' hne _ _ _ _ _ => exact (hne (hfd'.symm.trans hfd)).elim
    | removed hfd' hint =>
      rw [hint, hnil (hfd'.symm.trans hfd)]
      rfl
    | emptied hint => exact hint

end State
end EchoBenchmark.Proactor
