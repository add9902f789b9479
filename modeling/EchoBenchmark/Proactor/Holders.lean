import EchoBenchmark.Proactor.Acceptors
import EchoBenchmark.Proactor.Bookkeeping
import EchoBenchmark.Proactor.Control
import EchoBenchmark.Proactor.Interest

/-!
Who holds pointers to handlers. The epoll set, the batch and the event in hand point at objects
that are there, as long as the user closes a Socket before its destruction, destroys none whose
event is still to come, and starts nothing on a Socket whose event is still to come.
-/

namespace EchoBenchmark.Proactor

variable {κ : Type} {s s' : State κ} {act : Action κ} {c id : SockId} {a : AccId} {h : Handler}
  {t : TokenId}

/-! ### What a step leaves of an object -/

/-- Socket `c` is still there, or still not, with the descriptor it had. -/
def Heap.Keeps (c : SockId) (h h' : Heap κ) : Prop := h'.live c = h.live c ∧ h'.soc c = h.soc c

namespace Heap.Keeps

variable {h h₁ h' : Heap κ} {q : Request κ} {ok : Bool} {e : Event}

theorem refl (h : Heap κ) : Keeps c h h := ⟨rfl, rfl⟩

theorem trans (hk : Keeps c h h₁) (hk' : Keeps c h₁ h') : Keeps c h h' :=
  ⟨hk'.1.trans hk.1, hk'.2.trans hk.2⟩

theorem setErr (hk : Keeps c h h') (code : Int) (d : Detail) : Keeps c h (h'.setErr t code d) :=
  ⟨(live_modify _ _).trans hk.1, (soc_modify _ _).trans hk.2⟩

theorem opens (ho : Opens h q (h', ok)) : Keeps c h h' := ⟨ho.live c, ho.soc c⟩

theorem progresses (hp : Progresses h t h') : Keeps c h h' := ⟨hp.live c, hp.soc c⟩

end Heap.Keeps

namespace Heap

variable {h h' : Heap κ} {q : Request κ} {ok : Bool} {u : TokenId}

theorem Opens.mem_queue (ho : Opens h q (h', ok)) (hu : u ∈ h'.queue) :
    u ∈ h.queue ∨ u = q.token := by
  cases ho with
  | refused => exact .inl hu
  | finished hs _ =>
    rw [queue_finish, hs.queue, List.mem_append, List.mem_singleton] at hu
    exact hu
  | parked hs _ _ =>
    rw [queue_park, hs.queue] at hu
    exact .inl hu

theorem Progresses.mem_queue (hp : Progresses h t h') (hu : u ∈ h'.queue) :
    u ∈ h.queue ∨ u = t := by
  cases hp with
  | idle => exact .inl hu
  | waits _ hs _ =>
    rw [hs.queue] at hu
    exact .inl hu
  | finishes _ hs _ =>
    rw [queue_finish, hs.queue, List.mem_append, List.mem_singleton] at hu
    exact hu

end Heap

open Heap (Keeps Noted)

namespace State

section Keeps

variable {h₀ : Heap κ} {err : Error} {bytes : Int} {via : Via}

theorem keeps_invoke (hk : Keeps c h₀ s.heap) : Keeps c h₀ (s.invoke t err bytes via).heap := by
  unfold invoke
  split <;> exact hk

theorem keeps_invokeAccept (hk : Keeps c h₀ s.heap) (soc : Int) :
    Keeps c h₀ (s.invokeAccept a err soc).heap := by
  unfold invokeAccept
  split <;> exact hk

theorem keeps_onCloseSocket (hk : Keeps c h₀ s.heap) : Keeps c h₀ (s.onCloseSocket id).heap := by
  have hreset : Keeps c h₀ (s.resetErrs id).heap := (hk.setErr _ _).setErr _ _
  exact onCloseSocket_rule (P := fun s' => Keeps c h₀ s'.heap) hreset
    fun _ _ => keeps_invoke hreset

theorem keeps_register {acceptor : Bool} {ctl : Int} (hk : Keeps c h₀ s.heap) :
    Keeps c h₀ (s.register h acceptor ctl).1.heap := by
  have hlive := live_register s h acceptor ctl (.socket c)
  have hsoc := handle_register s h acceptor ctl (.socket c)
  exact hk.trans ⟨hlive, hsoc⟩

theorem keeps_listen (cb : κ) (r : ListenResult) : Keeps c s.heap (s.listen a cb r).1.heap := by
  have hsock : Keeps c s.heap (s.listenSocket a r).1.heap := by
    obtain ⟨s₁, k, he, rfl | ⟨fd, rfl⟩⟩ := listenSocket_shape (s := s) (a := a) r
    · rw [he]
      exact .refl _
    · rw [he]
      exact .refl _
  unfold listen
  split
  · rename_i s₁ he
    rw [he] at hsock
    exact hsock
  · rename_i s₁ he
    rw [he] at hsock
    exact keeps_register hsock

theorem keeps_closeAcceptor : Keeps c s.heap (s.closeAcceptor a).heap := by
  unfold closeAcceptor removeHandler
  dsimp only
  split <;> split <;> exact .refl _

theorem keeps_destroyAcceptor : Keeps c s.heap (s.destroyAcceptor a).heap := by
  unfold destroyAcceptor
  dsimp only
  split
  · exact keeps_closeAcceptor
  · exact .refl _

theorem keeps_closeSocket (hne : c ≠ id) : Keeps c s.heap (s.closeSocket id).heap := by
  refine ⟨closeSocket_noted.live c, ?_⟩
  unfold closeSocket
  dsimp only
  split
  · rw [soc_setSoc, if_neg hne, heap_emit, heap_removeHandler]
    rfl
  · rw [heap_removeHandler]
    rfl

theorem keeps_destroySocket (hne : c ≠ id) : Keeps c s.heap (s.destroySocket id).heap := by
  have hrel : ∀ {h₁ : Heap κ}, Keeps c s.heap h₁ → Keeps c s.heap ((h₁.unlink id).release id) := by
    intro h₁ hk
    refine hk.trans ⟨?_, ?_⟩
    · rw [Heap.live_release, if_neg hne, Heap.live_unlink]
    · rw [Heap.soc_release hne, Heap.soc_unlink]
  unfold destroySocket
  dsimp only
  split
  · exact hrel (keeps_closeSocket hne)
  · exact hrel (.refl _)

theorem keeps_dispatch {r : ReadResult} {w : WriteResult} (hs : s.dispatch r w = some s') :
    Keeps c s.heap s'.heap := by
  cases dispatch_cases hs with
  | closeSocket _ _ _ _ he =>
    rw [he]
    exact keeps_onCloseSocket (.refl _)
  | closeAcceptor _ _ _ _ he =>
    rw [he]
    exact keeps_invokeAccept (.refl _) _
  | readSocket _ _ _ _ _ he =>
    rw [he]
    exact Keeps.progresses (h := s.heap.emit _) Heap.onRead_progresses
  | writeSocket _ _ _ _ he =>
    rw [he]
    exact Keeps.progresses (h := s.heap.emit _) Heap.onWrite_progresses
  | closeLost _ _ he | readLost _ _ _ he | readAcceptor _ _ _ _ he | skips _ _ _ he
  | writeLost _ _ he | writeAcceptor _ _ _ he | passes _ _ he =>
    rw [he]
    exact .refl _

theorem keeps_accept {r : AcceptResult} (hs : s.accept r = some s') : Keeps c s.heap s'.heap := by
  have hopened : ∀ {s₁ : State κ} {a : AccId},
      (s₁ = s ∨ ∃ fd, s₁ = s.emit (.opened a .accept fd)) → Keeps c s.heap s₁.heap := by
    rintro s₁ a (rfl | ⟨fd, rfl⟩) <;> exact .refl _
  cases accept_cases hs with
  | lost _ he =>
    rw [he]
    exact .refl _
  | returns _ h₁ he =>
    have hk := hopened h₁
    rw [he]
    exact hk
  | failed _ h₁ he =>
    have hk := hopened h₁
    rw [he]
    exact keeps_invokeAccept (by exact hk) _
  | passed _ he =>
    rw [he]
    exact keeps_invokeAccept (.refl _) _

theorem keeps_processCompletion (hs : s.processCompletion = some s') : Keeps c s.heap s'.heap := by
  cases processCompletion_cases hs with
  | ends _ _ _ _ he | faults _ _ _ he =>
    rw [he]
    exact .refl _
  | @completes t _ _ _ _ he =>
    rw [he]
    have hk : Keeps c s.heap (s.heap.complete t) := ⟨Heap.live_modify _ _, Heap.soc_modify _ _⟩
    exact keeps_invoke hk

theorem keeps_processTimer (hs : s.processTimer = some s') : Keeps c s.heap s'.heap := by
  cases processTimer_cases hs with
  | ends _ he | faults _ _ _ he =>
    rw [he]
    exact .refl _
  | @expires t rest _ _ _ _ _ he =>
    rw [he]
    have hk : Keeps c s.heap (s.heap.expire t rest) :=
      Keeps.setErr ⟨Heap.live_modify _ _, Heap.soc_modify _ _⟩ _ _
    exact keeps_invoke hk

theorem keeps_epollWait {r : PollResult} (hs : s.epollWait r = some s') :
    Keeps c s.heap s'.heap := by
  cases epollWait_cases hs with
  | leaves he =>
    rw [he]
    unfold closeHandle
    split <;> exact .refl _
  | idles he | polls _ _ he =>
    rw [he]
    exact .refl _

end Keeps

theorem user_keeps {f : State κ → State κ} (hs : s.user h f = some s')
    (hf : Keeps c s.heap (f s).heap) : Keeps c s.heap s'.heap := by
  obtain ⟨-, ⟨-, rfl⟩ | ⟨-, rfl⟩⟩ := user_cases hs
  · exact .refl _
  · exact hf

/-- A Socket stays what it is but for its own creation, closing and destruction. -/
theorem keeps_of_step (hl : s.heap.live c = true) (hclose : act ≠ .close c)
    (hdestroy : act ≠ .destroy c) (hs : s.step act = some s') : Keeps c s.heap s'.heap := by
  cases act with
  | epollCreate fd errno =>
    dsimp only [step] at hs
    split at hs
    · split at hs <;> (cases hs; exact .refl _)
    · cases hs
  | create id soc rtv wtv ctl =>
    dsimp only [step] at hs
    split at hs
    · rename_i hu
      cases hs
      have hne : c ≠ id := by
        rintro rfl
        rw [hl] at hu
        cases hu.2
      exact keeps_register ⟨Heap.live_create hne _ _ _, Heap.soc_create hne _ _ _⟩
    · cases hs
  | createUnbound id rtv wtv =>
    dsimp only [step] at hs
    split at hs
    · rename_i hu
      cases hs
      have hne : c ≠ id := by
        rintro rfl
        rw [hl] at hu
        cases hu.2
      exact ⟨Heap.live_create hne _ _ _, Heap.soc_create hne _ _ _⟩
    · cases hs
  | readSome id buf size cb ms r now =>
    unfold step at hs
    exact user_keeps hs (.opens Heap.readSome_opens)
  | readAll id buf size cb ms r now =>
    unfold step at hs
    exact user_keeps hs (.opens Heap.readAll_opens)
  | writeAll id buf size cb ms r now =>
    unfold step at hs
    exact user_keeps hs (.opens Heap.writeAll_opens)
  | close id =>
    unfold step at hs
    refine user_keeps hs (keeps_closeSocket ?_)
    rintro rfl
    exact hclose rfl
  | destroy id =>
    unfold step at hs
    refine user_keeps hs (keeps_destroySocket ?_)
    rintro rfl
    exact hdestroy rfl
  | memcpy dst src n =>
    dsimp only [step] at hs
    split at hs
    · cases hs
      exact .refl _
    · cases hs
  | createAcceptor b soc =>
    dsimp only [step] at hs
    split at hs
    · cases hs
      exact .refl _
    · cases hs
  | listen b cb r =>
    unfold step at hs
    exact user_keeps hs (keeps_listen cb r)
  | closeAcceptor b =>
    unfold step at hs
    exact user_keeps hs keeps_closeAcceptor
  | destroyAcceptor b =>
    unfold step at hs
    exact user_keeps hs keeps_destroyAcceptor
  | stop =>
    cases hs
    exact .refl _
  | run =>
    obtain ⟨-, hs⟩ := library_some hs
    split at hs
    · cases hs
      exact .refl _
    · cases hs
  | ret =>
    dsimp only [step] at hs
    split at hs
    · cases hs
      exact .refl _
    · cases hs
  | epollWait r =>
    obtain ⟨-, hs⟩ := library_some hs
    split at hs
    · exact keeps_epollWait hs
    · cases hs
  | dispatch r w => exact keeps_dispatch (library_some hs).2
  | accept r => exact keeps_accept (library_some hs).2
  | processCompletion => exact keeps_processCompletion (library_some hs).2
  | startTimer now =>
    obtain ⟨-, hs⟩ := library_some hs
    unfold startTimer at hs
    split at hs
    · cases hs
      exact .refl _
    · cases hs
  | processTimer => exact keeps_processTimer (library_some hs).2
  | environment e =>
    cases hs
    exact .refl _

theorem acceptor_live_register {acceptor : Bool} {ctl : Int} :
    ((s.register h acceptor ctl).1.acceptors a).live = (s.acceptors a).live :=
  live_register _ _ _ _ (.acceptor a)

theorem acceptor_live_listen (cb : κ) (r : ListenResult) :
    ((s.listen a cb r).1.acceptors a).live = (s.acceptors a).live := by
  have hsock := live_listenSocket (s := s) (a := a) r
  unfold listen
  split
  · rename_i s₁ he
    rw [he] at hsock
    exact hsock
  · rename_i s₁ he
    rw [he] at hsock
    rw [acceptor_live_register]
    simpa [setAcceptor] using hsock

theorem acceptor_live_closeAcceptor :
    ((s.closeAcceptor a).acceptors a).live = (s.acceptors a).live := by
  unfold closeAcceptor removeHandler
  dsimp only
  split <;> split <;> simp [setAcceptor]

/-- An Acceptor goes by its own destruction only. -/
theorem acceptor_live_of_step (hl : (s.acceptors a).live = true) (hd : act ≠ .destroyAcceptor a)
    (hs : s.step act = some s') : (s'.acceptors a).live = true := by
  cases step_acceptor a hs with
  | aside ha =>
    rw [ha.acceptor]
    exact hl
  | created _ _ hno _ =>
    rw [hl] at hno
    cases hno
  | @listened cb r _ _ _ he =>
    rw [he]
    exact (acceptor_live_listen cb r).trans hl
  | closed _ _ _ he =>
    rw [he]
    exact acceptor_live_closeAcceptor.trans hl
  | destroyed ha _ _ _ => exact (hd ha).elim
  | accepted _ _ hpc _ hr => exact (accept_same hpc hr).1.1.trans hl
  | hungup _ _ _ _ _ he =>
    rw [he]
    exact onCloseAcceptor_cases.1.1.trans hl

/-! ### Where entries of the epoll set and of the queue come from -/

theorem interest_removeHandler : (s.removeHandler h).interest ⊆ s.interest := by
  unfold removeHandler
  dsimp only
  split
  · exact List.Subset.refl _
  · exact List.filter_subset_self _

theorem interest_closeSocket : (s.closeSocket id).interest ⊆ s.interest := by
  unfold closeSocket
  dsimp only
  split
  · exact interest_removeHandler
  · exact interest_removeHandler

theorem interest_closeAcceptor : (s.closeAcceptor a).interest ⊆ s.interest := by
  unfold closeAcceptor
  dsimp only
  split
  · exact interest_removeHandler
  · exact interest_removeHandler

theorem mem_interest_register {acceptor : Bool} {ctl : Int} {i : Interest}
    (hi : i ∈ (s.register h acceptor ctl).1.interest) : i ∈ s.interest ∨ i.handler = h := by
  unfold register at hi
  split at hi
  · exact .inl hi
  · dsimp only at hi
    split at hi
    · exact .inl hi
    · rcases List.mem_cons.mp hi with rfl | hi
      · exact .inr rfl
      · exact .inl hi

theorem user_interest {f : State κ → State κ} (hs : s.user h f = some s')
    (hf : (f s).interest ⊆ s.interest) : s'.interest ⊆ s.interest := by
  obtain ⟨-, ⟨-, rfl⟩ | ⟨-, rfl⟩⟩ := user_cases hs
  · exact List.Subset.refl _
  · exact hf

theorem interest_epollWait {r : PollResult} (hs : s.epollWait r = some s') :
    s'.interest ⊆ s.interest := by
  cases epollWait_cases hs with
  | leaves he =>
    rw [he]
    unfold closeHandle
    split
    · exact List.nil_subset _
    · exact List.Subset.refl _
  | idles he | polls _ _ he =>
    rw [he]
    exact List.Subset.refl _

/-- The epoll set gets a new entry for a Socket when the Socket is created. -/
theorem entry_of_step {i : Interest} (hs : s.step act = some s') (hi : i ∈ s'.interest)
    (hh : i.handler = .socket c) : i ∈ s.interest ∨ s.heap.live c = false := by
  have hsub : s'.interest ⊆ s.interest → i ∈ s.interest ∨ s.heap.live c = false :=
    fun h => .inl (h hi)
  have hsame : ∀ {s₁ : State κ}, s'.fd = s₁.fd ∧ s'.interest = s.interest →
      i ∈ s.interest ∨ s.heap.live c = false := fun h => .inl (h.2 ▸ hi)
  cases act with
  | epollCreate fd errno =>
    dsimp only [step] at hs
    split at hs
    · split at hs <;> (cases hs; cases hi)
    · cases hs
  | create id soc rtv wtv ctl =>
    dsimp only [step] at hs
    split at hs
    · rename_i hu
      cases hs
      rcases mem_interest_register hi with hi | he
      · exact .inl hi
      · rw [hh] at he
        cases he
        exact .inr hu.2
    · cases hs
  | createUnbound id rtv wtv =>
    dsimp only [step] at hs
    split at hs
    · cases hs
      exact .inl hi
    · cases hs
  | readSome id buf size cb ms r now | readAll id buf size cb ms r now
  | writeAll id buf size cb ms r now =>
    unfold step at hs
    exact hsub (user_interest hs (List.Subset.refl _))
  | close id =>
    unfold step at hs
    exact hsub (user_interest hs interest_closeSocket)
  | destroy id =>
    unfold step at hs
    refine hsub (user_interest hs ?_)
    unfold destroySocket
    dsimp only
    split
    · exact interest_closeSocket
    · exact List.Subset.refl _
  | memcpy dst src n =>
    dsimp only [step] at hs
    split at hs
    · cases hs
      exact .inl hi
    · cases hs
  | createAcceptor b soc =>
    dsimp only [step] at hs
    split at hs
    · cases hs
      exact .inl hi
    · cases hs
  | listen b cb r =>
    unfold step at hs
    obtain ⟨-, ⟨-, rfl⟩ | ⟨-, rfl⟩⟩ := user_cases hs
    · exact .inl hi
    · rcases listen_adds (s := s) (a := b) cb r with ⟨he, -⟩ | ⟨j, log, hj, he, -, -⟩
      · exact .inl (he ▸ hi)
      · rw [he] at hi
        rcases List.mem_cons.mp hi with rfl | hi
        · rw [hh] at hj
          cases hj
        · exact .inl hi
  | closeAcceptor b =>
    unfold step at hs
    exact hsub (user_interest hs interest_closeAcceptor)
  | destroyAcceptor b =>
    unfold step at hs
    refine hsub (user_interest hs ?_)
    unfold destroyAcceptor
    dsimp only
    split
    · exact interest_closeAcceptor
    · exact List.Subset.refl _
  | stop =>
    cases hs
    exact .inl hi
  | run =>
    obtain ⟨-, hs⟩ := library_some hs
    split at hs
    · cases hs
      exact .inl hi
    · cases hs
  | ret =>
    dsimp only [step] at hs
    split at hs
    · cases hs
      exact .inl hi
    · cases hs
  | epollWait r =>
    obtain ⟨-, hs⟩ := library_some hs
    split at hs
    · exact hsub (interest_epollWait hs)
    · cases hs
  | dispatch r w => exact hsame (dispatch_epoll (library_some hs).2)
  | accept r => exact hsame (accept_epoll (library_some hs).2)
  | processCompletion => exact hsame (processCompletion_epoll (library_some hs).2)
  | startTimer now =>
    obtain ⟨-, hs⟩ := library_some hs
    unfold startTimer at hs
    split at hs
    · cases hs
      exact .inl hi
    · cases hs
  | processTimer => exact hsame (processTimer_epoll (library_some hs).2)
  | environment e =>
    cases hs
    exact .inl hi

/-- A token enters the queue by a call of the user or by an event of its Socket. -/
theorem queue_of_step (hs : s.step act = some s') (ht : t ∈ s'.heap.queue) :
    t ∈ s.heap.queue ∨ (∃ q, act.request = some q ∧ q.token = t ∧ s.heap.live t.sock = true ∧
      s'.pc = s.pc) ∨ Turn s s' t := by
  cases step_effect hs with
  | noted hn _ => exact .inl (hn.queue ▸ ht)
  | created _ hn _ => exact .inl (hn.queue ▸ ht)
  | @opened q hq hl ho hpc =>
    rcases ho.mem_queue ht with ht | rfl
    · exact .inl ht
    · exact .inr (.inl ⟨q, hq, rfl, hl, hpc⟩)
  | @progressed u h₁ _ hn hp hturn =>
    rcases hp.mem_queue ht with ht | ht
    · exact .inl (hn.queue ▸ ht)
    · exact .inr (.inr (ht ▸ hturn))
  | @destroyed id h₁ _ hn he _ =>
    rw [he] at ht
    refine .inl (hn.queue ▸ ?_)
    change t ∈ (h₁.unlink id).queue at ht
    rw [Heap.queue_unlink] at ht
    exact List.mem_of_mem_erase (List.mem_of_mem_erase ht)
  | completed _ _ _ _ he =>
    rw [he, queue_invoke] at ht
    exact .inl (List.mem_of_mem_erase ht)
  | fired _ _ _ _ _ he =>
    rw [he, queue_invoke] at ht
    exact .inl ht
  | hungup _ _ _ _ _ _ he =>
    rw [he, queue_onCloseSocket] at ht
    exact .inl ht

/-- The epoll set points at open descriptors of Sockets that are there. -/
def Watched (s : State κ) : Prop := ∀ i ∈ s.interest, ∀ c, i.handler = .socket c →
  s.heap.live c = true ∧ s.heap.soc c = i.fd ∧ i.fd ≠ INVALID_SOCKET

theorem watched_step (hnil : s.fd = INVALID_HANDLE → s.interest = []) (hw : s.Watched)
    (hs : s.step act = some s') : s'.Watched := by
  intro i hi c hc
  have hold : i ∈ s.interest →
      s'.heap.live c = true ∧ s'.heap.soc c = i.fd ∧ i.fd ≠ INVALID_SOCKET := by
    intro hmem
    obtain ⟨hl, hsoc, hfd⟩ := hw i hmem c hc
    -- the descriptor of a Socket that is closed is taken out of the set
    have hgone : s'.interest = s.interest.filter (fun i => i.fd ≠ s.handle (.socket c)) →
        False := by
      intro he
      rw [he] at hi
      exact of_decide_eq_true (List.mem_filter.mp hi).2 hsoc.symm
    by_cases hclose : act = .close c
    · subst hclose
      unfold step at hs
      rw [user_live (h := .socket c) hl hs] at hgone
      exact (hgone (closeSocket_epoll hnil).2).elim
    · by_cases hdestroy : act = .destroy c
      · subst hdestroy
        unfold step at hs
        rw [user_live (h := .socket c) hl hs] at hgone
        refine (hgone ?_).elim
        unfold destroySocket
        dsimp only
        rw [if_pos (by rw [hsoc]; exact hfd)]
        exact (closeSocket_epoll hnil).2
      · obtain ⟨hl', hsoc'⟩ := keeps_of_step hl hclose hdestroy hs
        exact ⟨hl'.trans hl, hsoc'.trans hsoc, hfd⟩
  cases step_epoll hnil hs with
  | kept _ hint => exact hold (hint ▸ hi)
  | removed _ hint =>
    rw [hint] at hi
    exact hold (List.mem_filter.mp hi).1
  | emptied hint =>
    rw [hint] at hi
    cases hi
  | @added j _ _ hint hh hfd _ hl =>
    rw [hint] at hi
    rcases List.mem_cons.mp hi with rfl | hi
    · rw [hc] at hh hl
      exact ⟨hl, hh, hfd⟩
    · exact hold hi

theorem watched_of_reachable {p : State κ → Action κ → Prop} (hr : (proactor κ).Reachable p s) :
    s.Watched := by
  apply hr.invariant (I := Watched)
  · rintro s₀ ⟨mem, rfl⟩
    exact fun _ hi => (List.not_mem_nil hi).elim
  · intro s₀ act s₁ hr₀ hw _ hs
    exact watched_step (interest_nil_of_reachable hr₀) hw hs

end State

/-! ### A careful user -/

/-- The event in hand and those that `run` has not looked at. -/
def Pc.ahead : Pc → List PollEvent
  | .event rest | .drainWrite rest => rest
  | .acceptLoop _ ev rest | .drainRead ev rest | .output ev rest => ev :: rest
  | .outside | .poll | .timer _ | .thrown | .undefined => []

/-- No `_processCompletion` is due for the event in hand, or `run` has failed. -/
def Pc.rests : Pc → Prop
  | .outside | .poll | .event _ | .output .. | .timer _ => True
  | .acceptLoop .. | .drainRead .. | .drainWrite _ | .thrown | .undefined => False

namespace State

/-- A Socket is closed before it is destroyed, and not destroyed while an event of it is still to
come. A call that starts an operation may end it at once, so it is made for a Socket with no event
to come, and where nothing is drained, for one that is not in the epoll set. -/
def careful (s : State κ) : Action κ → Prop
  | .destroy id => Handler.socket id ∈ s.deleted ∧ ∀ ev ∈ s.pc.waiting, ev.handler ≠ .socket id
  | .destroyAcceptor _ => False
  | act => ∀ q, act.request = some q → (∀ ev ∈ s.pc.waiting, ev.handler ≠ .socket q.token.sock) ∧
      (s.pc.rests → ∀ i ∈ s.interest, i.handler ≠ .socket q.token.sock)

/-- What the epoll set, the batch and the queue point at. -/
structure Held (s : State κ) : Prop where
  entries : ∀ i ∈ s.interest, s.live i.handler = true
  waiting : ∀ ev ∈ s.pc.waiting, s.live ev.handler = true
  apart : s.pc.ahead.Pairwise fun ev ev' => ∀ c, ev.handler = .socket c → ev'.handler ≠ .socket c
  accepting : ∀ a ev rest, s.pc = .acceptLoop a ev rest →
    ev.handler = .acceptor a ∧ s.live ev.handler = true
  inHand : ∀ ev rest, s.pc = .drainRead ev rest →
    s.live ev.handler = true ∨ ev.handler ∈ s.deleted
  output : ∀ ev rest, s.pc = .output ev rest → s.live ev.handler = true
  queued : ∀ t ∈ s.heap.queue, ∀ ev ∈ s.pc.waiting, ev.handler ≠ .socket t.sock
  parked : s.pc.rests → ∀ t ∈ s.heap.queue, ∀ i ∈ s.interest, i.handler ≠ .socket t.sock

theorem careful.of_request {q : Request κ} (hp : s.careful act) (hq : act.request = some q) :
    (∀ ev ∈ s.pc.waiting, ev.handler ≠ .socket q.token.sock) ∧
    (s.pc.rests → ∀ i ∈ s.interest, i.handler ≠ .socket q.token.sock) := by
  cases act with
  | destroy | destroyAcceptor => cases hq
  | _ => exact hp q hq

theorem live_of_step (hp : s.careful act) (hd : ∀ id, act = .destroy id → h ≠ .socket id)
    (hl : s.live h = true) (hs : s.step act = some s') : s'.live h = true := by
  cases h with
  | socket c =>
    by_cases hclose : act = .close c
    · subst hclose
      unfold step at hs
      rw [user_live (h := .socket c) hl hs]
      exact (closeSocket_noted.live c).trans hl
    · exact (keeps_of_step hl hclose (fun he => hd c he rfl) hs).1.trans hl
  | acceptor a =>
    refine acceptor_live_of_step hl ?_ hs
    rintro rfl
    exact hp

/-- A careful user destroys nothing that the batch points at. -/
theorem live_of_waiting {ev : PollEvent} (hp : s.careful act) (hev : ev ∈ s.pc.waiting)
    (hl : s.live ev.handler = true) (hs : s.step act = some s') : s'.live ev.handler = true := by
  refine live_of_step hp ?_ hl hs
  rintro id rfl
  exact hp.2 ev hev

end State

/-- The batch is looked at in its order. -/
theorem Control.ahead (hc : Control s act s') : s'.pc.ahead <:+ s.pc.ahead ∨
    ∃ evs, act = .epollWait (.events evs) ∧ s.pc = .poll ∧ s.reports evs ∧ s'.pc = .event evs := by
  have hdead : s'.pc.dead → s'.pc.ahead <:+ s.pc.ahead := by
    intro hd
    cases hpc' : s'.pc with
    | thrown | undefined => exact List.nil_suffix
    | _ =>
      rw [hpc'] at hd
      exact hd.elim
  cases hc with
  | polls ha hpc hr hpc' _ _ _ => exact .inr ⟨_, ha, hpc, hr, hpc'⟩
  | stays hpc _ _ | removes _ _ hpc _ _ _ =>
    rw [hpc]
    exact .inl (List.suffix_refl _)
  | dies hd _ _ => exact .inl (hdead hd)
  | enters hpc hpc' _ _ | leaves hpc hpc' _ _ | idles hpc hpc' _ _ | times hpc hpc' _ _
  | loops hpc hpc' _ _ | skips hpc _ _ hpc' _ _ | passes hpc _ hpc' _ _ | accepts _ hpc hpc' _
  | drops hpc _ _ hpc' _ _ | continues hpc _ _ hpc' _ _ | ends hpc _ hpc' _ _ =>
    rw [hpc, hpc']
    exact .inl (by simp [Pc.ahead])
  | closes hpc _ hpc' _ =>
    rcases hpc' with h | ⟨h, -⟩
    · rw [hpc, h]
      exact .inl (List.suffix_cons _ _)
    · exact .inl (hdead h)
  | reads hpc _ _ hpc' _ _ _ _ =>
    rcases hpc' with h | ⟨a, -, h⟩ | h
    · rw [hpc, h]
      exact .inl (List.suffix_refl _)
    · rw [hpc, h]
      exact .inl (List.suffix_refl _)
    · exact .inl (hdead h)
  | writes hpc _ hpc' _ _ _ =>
    rcases hpc' with h | h
    · rw [hpc, h]
      exact .inl (List.suffix_cons _ _)
    · exact .inl (hdead h)

/-- Where nothing is drained, nothing was drained before, or the queue was found empty. -/
theorem Control.rests (hc : Control s act s') (hr : s'.pc.rests) :
    s.pc.rests ∨ s.heap.queue = [] := by
  have hdead : ¬ s'.pc.dead := by
    intro hd
    cases hpc' : s'.pc with
    | thrown | undefined =>
      rw [hpc'] at hr
      exact hr
    | _ =>
      rw [hpc'] at hd
      exact hd
  cases hc with
  | stays hpc _ _ | removes _ _ hpc _ _ _ => exact .inl (hpc ▸ hr)
  | dies hd _ _ => exact (hdead hd).elim
  | enters hpc _ _ _ | leaves hpc _ _ _ | idles hpc _ _ _ | times hpc _ _ _ | loops hpc _ _ _
  | skips hpc _ _ _ _ _ | passes hpc _ _ _ _ | polls _ hpc _ _ _ _ _ | closes hpc _ _ _
  | reads hpc _ _ _ _ _ _ _ | writes hpc _ _ _ _ _ =>
    rw [hpc]
    exact .inl trivial
  | accepts _ _ hpc' _ =>
    rw [hpc'] at hr
    exact hr.elim
  | drops _ hq _ _ _ _ | continues _ hq _ _ _ _ | ends _ hq _ _ _ => exact .inr hq

theorem State.poll_of_epollWait {r : PollResult} (hs : s.step (.epollWait r) = some s') :
    s.pc = .poll := by
  obtain ⟨-, hs⟩ := library_some hs
  split at hs
  · assumption
  · cases hs

namespace State.Held

theorem entries_step (hh : Held s) (hnil : s.fd = INVALID_HANDLE → s.interest = [])
    (hw : s'.Watched) (hp : s.careful act) (hs : s.step act = some s') :
    ∀ i ∈ s'.interest, s'.live i.handler = true := by
  intro i hi
  cases hc : i.handler with
  | socket c => exact (hw i hi c hc).1
  | acceptor a =>
    have hold : i ∈ s.interest → s'.live (.acceptor a) = true := by
      intro hmem
      have hl := hh.entries i hmem
      rw [hc] at hl
      exact live_of_step hp (fun _ _ => nofun) hl hs
    cases step_epoll hnil hs with
    | kept _ hint => exact hold (hint ▸ hi)
    | removed _ hint =>
      rw [hint] at hi
      exact hold (List.mem_filter.mp hi).1
    | emptied hint =>
      rw [hint] at hi
      cases hi
    | added _ _ hint _ _ _ hl =>
      rw [hint] at hi
      rcases List.mem_cons.mp hi with rfl | hi
      · rw [← hc]
        exact hl
      · exact hold hi

theorem waiting_step (hh : Held s) (hp : s.careful act) (hs : s.step act = some s') :
    ∀ ev ∈ s'.pc.waiting, s'.live ev.handler = true := by
  intro ev hev
  rcases (step_control hs).waiting with hsuf | ⟨evs, rfl, hrep, hpc'⟩
  · have hmem := hsuf.subset hev
    exact live_of_waiting hp hmem (hh.waiting ev hmem) hs
  · rw [hpc'] at hev
    obtain ⟨i, hi, -, hih, -⟩ := hrep.2.2.2.2 ev hev
    refine live_of_step hp (fun _ => nofun) ?_ hs
    rw [← hih]
    exact hh.entries i hi

/-- Two events of a batch are for different descriptors, hence for different Sockets. -/
theorem apart_of_reports {evs : List PollEvent} (hw : s.Watched) (hr : s.reports evs) :
    evs.Pairwise fun ev ev' => ∀ c, ev.handler = .socket c → ev'.handler ≠ .socket c := by
  obtain ⟨-, -, -, hnodup, hreg⟩ := hr
  rw [List.Nodup, List.pairwise_map] at hnodup
  refine hnodup.imp_of_mem fun {ev ev'} hev hev' hne c hc hc' => hne ?_
  obtain ⟨i, hi, hfd, hih, -⟩ := hreg ev hev
  obtain ⟨j, hj, hfd', hjh, -⟩ := hreg ev' hev'
  rw [← hfd, ← hfd', ← (hw i hi c (hih.trans hc)).2.1, ← (hw j hj c (hjh.trans hc')).2.1]

theorem apart_step (hh : Held s) (hw : s.Watched) (hs : s.step act = some s') :
    s'.pc.ahead.Pairwise fun ev ev' => ∀ c, ev.handler = .socket c → ev'.handler ≠ .socket c := by
  rcases (step_control hs).ahead with hsuf | ⟨evs, -, -, hrep, hpc'⟩
  · exact hh.apart.sublist hsuf.sublist
  · rw [hpc']
    exact apart_of_reports hw hrep

theorem accepting_step (hh : Held s) (hp : s.careful act) (hs : s.step act = some s')
    {ev : PollEvent} {rest : List PollEvent} (hpc' : s'.pc = .acceptLoop a ev rest) :
    ev.handler = .acceptor a ∧ s'.live ev.handler = true := by
  have hold : ev.handler = .acceptor a ∧ s.live ev.handler = true := by
    rcases (step_control hs).acceptLoop hpc' with hpc | ⟨hpc, -, hev⟩
    · exact hh.accepting a ev rest hpc
    · exact ⟨hev, hh.waiting ev (by rw [hpc]; exact List.mem_cons_self)⟩
  refine ⟨hold.1, live_of_step hp (fun id _ => ?_) hold.2 hs⟩
  rw [hold.1]
  nofun

/-- `_deleted` only grows until the next `onRead`. -/
theorem inHand_step (hh : Held s) (hp : s.careful act) (hs : s.step act = some s')
    {ev : PollEvent} {rest : List PollEvent} (hpc' : s'.pc = .drainRead ev rest) :
    s'.live ev.handler = true ∨ ev.handler ∈ s'.deleted := by
  have hsame : s.pc = .drainRead ev rest → s.deleted ⊆ s'.deleted →
      s'.live ev.handler = true ∨ ev.handler ∈ s'.deleted := by
    intro hpc hsub
    rcases hh.inHand ev rest hpc with hl | hd
    · by_cases hdes : ∃ id, act = .destroy id ∧ ev.handler = .socket id
      · obtain ⟨id, rfl, hid⟩ := hdes
        rw [hid]
        exact .inr (hsub hp.1)
      · exact .inl (live_of_step hp (fun id ha he => hdes ⟨id, ha, he⟩) hl hs)
    · exact .inr (hsub hd)
  cases step_control hs with
  | stays hpc _ hq =>
    exact hsame (hpc ▸ hpc') (by rw [hq.2]; exact List.Subset.refl _)
  | removes _ _ hpc _ _ hd =>
    exact hsame (hpc ▸ hpc') (by rw [hd]; exact List.subset_append_left _ _)
  | @reads ev' rest' hpc _ _ hto _ _ _ _ =>
    have he : ev' = ev := by
      rcases hto with h | ⟨a, -, h⟩ | h
      · rw [hpc'] at h
        exact (Pc.drainRead.inj h).1.symm
      · rw [hpc'] at h
        cases h
      · rw [hpc'] at h
        exact h.elim
    have hmem : ev ∈ s.pc.waiting := by
      rw [hpc, he]
      exact List.mem_cons_self
    exact .inl (live_of_waiting hp hmem (hh.waiting ev hmem) hs)
  | accepts ha hpc hto _ =>
    rw [hpc'] at hto
    cases hto
    obtain ⟨hev, hl⟩ := hh.accepting _ _ _ hpc
    refine .inl (live_of_step hp (fun id he => ?_) hl hs)
    rw [hev]
    nofun
  | dies hd _ _ =>
    rw [hpc'] at hd
    exact hd.elim
  | closes _ _ hto _ =>
    rcases hto with h | ⟨h, -⟩
    · rw [hpc'] at h
      cases h
    · rw [hpc'] at h
      exact h.elim
  | writes _ _ hto _ _ _ =>
    rcases hto with h | h
    · rw [hpc'] at h
      cases h
    · rw [hpc'] at h
      exact h.elim
  | enters _ h _ _ | leaves _ h _ _ | idles _ h _ _ | times _ h _ _ | loops _ h _ _
  | skips _ _ _ h _ _ | passes _ _ h _ _ | polls _ _ _ h _ _ _ | drops _ _ _ h _ _
  | continues _ _ _ h _ _ | ends _ _ h _ _ =>
    rw [hpc'] at h
    cases h

theorem output_step (hh : Held s)
    (hnone : ∀ ev rest, s.pc = .output ev rest → s.callback = none) (hp : s.careful act)
    (hs : s.step act = some s') {ev : PollEvent} {rest : List PollEvent}
    (hpc' : s'.pc = .output ev rest) : s'.live ev.handler = true := by
  -- no user code runs at the test for EPOLLOUT
  have hidle : s.pc = .output ev rest → s.userActive = false := by
    intro hpc
    simp [userActive, hnone ev rest hpc, hpc]
  cases step_control hs with
  | stays hpc _ _ =>
    have hpc : s.pc = .output ev rest := hpc ▸ hpc'
    refine live_of_step hp ?_ (hh.output ev rest hpc) hs
    rintro id rfl
    unfold step at hs
    rw [(user_cases hs).1] at hidle
    exact absurd (hidle hpc) (by decide)
  | removes hu _ hpc _ _ _ =>
    rw [hidle (hpc ▸ hpc')] at hu
    cases hu
  | skips hpc _ _ hto _ _ =>
    rw [hpc'] at hto
    cases hto
    have hmem : ev ∈ s.pc.waiting := by
      rw [hpc]
      exact List.mem_cons_self
    exact live_of_waiting hp hmem (hh.waiting ev hmem) hs
  | continues hpc _ hno hto _ _ =>
    rw [hpc'] at hto
    cases hto
    refine live_of_step hp ?_ ((hh.inHand _ _ hpc).resolve_right hno) hs
    rintro id rfl hid
    rw [hid] at hno
    exact hno hp.1
  | dies hd _ _ =>
    rw [hpc'] at hd
    exact hd.elim
  | closes _ _ hto _ =>
    rcases hto with h | ⟨h, -⟩
    · rw [hpc'] at h
      cases h
    · rw [hpc'] at h
      exact h.elim
  | reads _ _ _ hto _ _ _ _ =>
    rcases hto with h | ⟨a, -, h⟩ | h
    · rw [hpc'] at h
      cases h
    · rw [hpc'] at h
      cases h
    · rw [hpc'] at h
      exact h.elim
  | writes _ _ hto _ _ _ =>
    rcases hto with h | h
    · rw [hpc'] at h
      cases h
    · rw [hpc'] at h
      exact h.elim
  | enters _ h _ _ | leaves _ h _ _ | idles _ h _ _ | times _ h _ _ | loops _ h _ _
  | passes _ _ h _ _ | polls _ _ _ h _ _ _ | drops _ _ _ h _ _ | accepts _ _ h _
  | ends _ _ h _ _ =>
    rw [hpc'] at h
    cases h

/-- The token of an event leaves the batch with it. -/
theorem queued_of_turn (hh : Held s) (hturn : Turn s s' t) :
    ∀ ev ∈ s'.pc.waiting, ev.handler ≠ .socket t.sock := by
  have hapart := hh.apart
  cases hturn with
  | read hpc _ _ hev hpc' | write hpc _ hev hpc' =>
    rw [hpc] at hapart
    rw [hpc']
    exact fun ev' hmem => (List.pairwise_cons.mp hapart).1 ev' hmem _ hev

theorem queued_step (hh : Held s) (hp : s.careful act) (hs : s.step act = some s') :
    ∀ t ∈ s'.heap.queue, ∀ ev ∈ s'.pc.waiting, ev.handler ≠ .socket t.sock := by
  intro t ht ev hev
  rcases queue_of_step hs ht with hq | ⟨q, hreq, rfl, -, hpc⟩ | hturn
  · rcases (step_control hs).waiting with hsuf | ⟨evs, rfl, hrep, hpc'⟩
    · exact hh.queued t hq ev (hsuf.subset hev)
    · rw [hpc'] at hev
      obtain ⟨i, hi, -, hih, -⟩ := hrep.2.2.2.2 ev hev
      rw [← hih]
      exact hh.parked (by rw [poll_of_epollWait hs]; trivial) t hq i hi
  · rw [hpc] at hev
    exact (hp.of_request hreq).1 ev hev
  · exact queued_of_turn hh hturn ev hev

theorem parked_step (hh : Held s) (hb : s.heap.Books) (hp : s.careful act)
    (hs : s.step act = some s') (hr : s'.pc.rests) :
    ∀ t ∈ s'.heap.queue, ∀ i ∈ s'.interest, i.handler ≠ .socket t.sock := by
  intro t ht i hi hhandler
  rcases queue_of_step hs ht with hq | ⟨q, hreq, rfl, hl, hpc⟩ | hturn
  · rcases entry_of_step hs hi hhandler with hold | hnew
    · rcases (step_control hs).rests hr with hrs | hnil
      · exact hh.parked hrs t hq i hold hhandler
      · rw [hnil] at hq
        cases hq
    · -- a new Socket has no token in the queue
      refine Mode.ne_none_of_finished ((hb.queued t).mp hq) (hb.gone t hnew)
  · rcases entry_of_step hs hi hhandler with hold | hnew
    · exact (hp.of_request hreq).2 (hpc ▸ hr) i hold hhandler
    · rw [hl] at hnew
      cases hnew
  · have hd := hturn.draining
    cases hpc' : s'.pc with
    | drainRead | drainWrite =>
      rw [hpc'] at hr
      exact hr
    | _ =>
      rw [hpc'] at hd
      exact hd

theorem step (hr : (proactor κ).Reachable careful s) (hh : Held s) (hp : s.careful act)
    (hs : s.step act = some s') : Held s' where
  entries := hh.entries_step (interest_nil_of_reachable hr) (watched_of_reachable (hr.step hp hs))
    hp hs
  waiting := hh.waiting_step hp hs
  apart := hh.apart_step (watched_of_reachable hr) hs
  accepting _ _ _ hpc := hh.accepting_step hp hs hpc
  inHand _ _ hpc := hh.inHand_step hp hs hpc
  output _ _ hpc := hh.output_step
    (fun _ _ h => callback_none_of_reachable hr (.inl ⟨_, _, h⟩)) hp hs hpc
  queued := hh.queued_step hp hs
  parked := hh.parked_step (consistent_of_reachable hr).books hp hs

end State.Held

/-- Under a careful user `run` finds every object that it has a pointer to. -/
theorem held_of_reachable (hr : (proactor κ).Reachable State.careful s) : s.Held := by
  apply hr.invariant (I := State.Held)
  · rintro s₀ ⟨mem, rfl⟩
    have hnil : ∀ {α : Type} {P : α → Prop}, ∀ x ∈ ([] : List α), P x :=
      fun _ hx => (List.not_mem_nil hx).elim
    exact ⟨hnil, hnil, .nil, nofun, nofun, nofun, hnil, fun _ => hnil⟩
  · intro s₀ act s₁ hr₀ hh hp hs
    exact hh.step hr₀ hp hs

end EchoBenchmark.Proactor
