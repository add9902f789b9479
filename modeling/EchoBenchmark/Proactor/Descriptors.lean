import EchoBenchmark.Proactor.Holders
import EchoBenchmark.Proactor.Listen

/-!
Where descriptors come from and where they go: what the history says of them, which objects have
them, and what the steps that open, hand over or close one do.
-/

namespace EchoBenchmark.Proactor

open History (Adds)
open Heap (Keeps)

variable {κ : Type} {s s' s₀ : State κ} {a : AccId} {h : Handler} {id : SockId} {t : TokenId}
  {e : Event} {log log' : List Event} {err : Error} {bytes : Int} {via : Via}

/-! ### What the history says of descriptors -/

/-- A descriptor was answered by `socket` or by `accept`, given to a callback, or closed. -/
inductive Passage
  | opened (fd : Int)
  | accepted (fd : Int)
  | passed (fd : Int)
  | closed (fd : Int)
  deriving DecidableEq

def Event.passage : Event → Option Passage
  | .opened _ call fd => some (if call = .accept then .accepted fd else .opened fd)
  | .accepted _ _ soc => if soc = INVALID_SOCKET then none else some (.passed soc)
  | .closedFd fd => some (.closed fd)
  | _ => none

def passages (log : List Event) : List Passage := log.filterMap Event.passage

/-- The descriptors that are open. -/
def openFds : List Passage → List Int
  | [] => []
  | .opened fd :: l | .accepted fd :: l => fd :: openFds l
  | .passed _ :: l => openFds l
  | .closed fd :: l => (openFds l).filter (· ≠ fd)

/-- The open descriptors from `accept` that no callback was given. -/
def lostFds : List Passage → List Int
  | [] => []
  | .accepted fd :: l => fd :: lostFds l
  | .opened _ :: l => lostFds l
  | .passed fd :: l | .closed fd :: l => (lostFds l).filter (· ≠ fd)

/-- Entries were added that say nothing of descriptors. -/
abbrev AddsNoPassage : List Event → List Event → Prop := Adds fun e => e.passage = none

theorem AddsNoPassage.passages_eq (hs : AddsNoPassage log log') : passages log' = passages log :=
  hs.filterMap_eq fun _ => id

theorem AddsNoPassage.cons (hs : AddsNoPassage log log') (he : e.passage = none) :
    AddsNoPassage log (e :: log') :=
  Adds.cons hs he

theorem Event.isIo.silent (he : e.isIo t) : e.passage = none := by
  cases e <;> first | rfl | exact he.elim

namespace Heap

variable {g g' : Heap κ} {q : Request κ} {ok : Bool}

theorem Begun.silent (hs : Begun g q e g') : AddsNoPassage g.log g'.log := by
  rw [hs.log]
  exact AddsNoPassage.cons (AddsNoPassage.cons .refl rfl) hs.io.silent

theorem Opens.silent (ho : Opens g q (g', ok)) : AddsNoPassage g.log g'.log := by
  cases ho with
  | refused d hm => exact AddsNoPassage.cons .refl rfl
  | finished hs hf => exact hs.silent
  | @parked e h₁ n hs hp he =>
    rcases log_park_cases h₁ q.token n q.mode q.timeoutMsec q.clock with hlog | ⟨tv, hlog⟩
    · rw [hlog]
      exact hs.silent
    · rw [hlog]
      exact AddsNoPassage.cons hs.silent rfl

theorem Progresses.silent (hp : Progresses g t g') : AddsNoPassage g.log g'.log := by
  rcases hp.log with hlog | ⟨e, he, hlog⟩
  · rw [hlog]
    exact .refl
  · rw [hlog]
    exact AddsNoPassage.cons .refl he.silent

end Heap

namespace State

/-! ### Who has a descriptor -/

/-- The descriptor in a handle, if there is one. -/
def given (handle : Int) : Option Int := if handle = INVALID_SOCKET then none else some handle

/-- The descriptor of an object that is there. -/
def owned (s : State κ) (h : Handler) : Option Int :=
  if s.live h = true then given (s.handle h) else none

/-- The descriptor that the running callback was given. -/
def handed (s : State κ) : Option Int :=
  match s.callback with
  | some (.accept _ _ _ soc) => given soc
  | _ => none

theorem owned_of_handle {h : Handler} (hlive : s'.live h = s.live h)
    (hhandle : s'.handle h = s.handle h) : s'.owned h = s.owned h := by
  rw [owned, owned, hlive, hhandle]

/-- No descriptor was opened, handed over or closed, and all are where they were. -/
structure Still (s s' : State κ) : Prop where
  passages : passages s'.heap.log = passages s.heap.log
  fd : s'.fd = s.fd
  owned : ∀ h, s'.owned h = s.owned h

/-- An Acceptor keeps its descriptor. -/
def keepsDoors (s s' : State κ) : Prop :=
  ∀ a, (s'.acceptors a).live = (s.acceptors a).live ∧ (s'.acceptors a).soc = (s.acceptors a).soc

theorem keepsDoors_setAcceptor {c : Acceptor κ} (hl : c.live = (s.acceptors a).live)
    (hsoc : c.soc = (s.acceptors a).soc) : keepsDoors s (s.setAcceptor a c) := by
  intro b
  by_cases hb : b = a
  · subst hb
    simp [setAcceptor, hl, hsoc]
  · simp [setAcceptor, hb]

namespace Still

theorem refl (s : State κ) : Still s s := ⟨rfl, rfl, fun _ => rfl⟩

theorem trans {s₁ : State κ} (hs : Still s s₁) (hs' : Still s₁ s') : Still s s' :=
  ⟨hs'.passages.trans hs.passages, hs'.fd.trans hs.fd, fun h => (hs'.owned h).trans (hs.owned h)⟩

theorem frame (hlog : AddsNoPassage s.heap.log s'.heap.log) (hfd : s'.fd = s.fd)
    (hsock : ∀ c, Keeps c s.heap s'.heap) (hdoors : keepsDoors s s') : Still s s' where
  passages := hlog.passages_eq
  fd := hfd
  owned h := by
    cases h with
    | socket c => exact owned_of_handle (hsock c).1 (hsock c).2
    | acceptor a => exact owned_of_handle (hdoors a).1 (hdoors a).2

/-- Only the history changed, and what has to do with no descriptor. -/
theorem noted (hlog : AddsNoPassage s.heap.log s'.heap.log) (hfd : s'.fd = s.fd)
    (hsock : s'.heap.sockets = s.heap.sockets) (hacc : s'.acceptors = s.acceptors) : Still s s' :=
  frame hlog hfd (fun c => ⟨Heap.live_of_sockets hsock c, Heap.soc_of_sockets hsock c⟩)
    fun a => by rw [hacc]; exact ⟨rfl, rfl⟩

theorem emit (hs : Still s₀ s) (he : e.passage = none) : Still s₀ (s.emit e) :=
  hs.trans (noted (AddsNoPassage.cons .refl he) rfl rfl rfl)

theorem fault (hs : Still s₀ s) (h : Handler) : Still s₀ (s.fault h) :=
  hs.trans (noted (AddsNoPassage.cons .refl rfl) rfl rfl rfl)

theorem invoke (hs : Still s₀ s) : Still s₀ (s.invoke t err bytes via) := by
  obtain ⟨-, he⟩ | ⟨cb, -, he⟩ := invoke_cases s t err bytes via
  · rw [he]
    exact hs.trans (noted .refl rfl rfl rfl)
  · rw [he]
    exact hs.trans (noted (AddsNoPassage.cons .refl rfl) rfl rfl rfl)

theorem register (hs : Still s₀ s) {acceptor : Bool} {ctl : Int} :
    Still s₀ (s.register h acceptor ctl).1 := by
  unfold State.register
  split
  · exact hs.trans (noted .refl rfl rfl rfl)
  · dsimp only
    split
    · exact hs.trans (noted .refl rfl rfl rfl)
    · exact hs.trans (noted (AddsNoPassage.cons .refl rfl) rfl rfl rfl)

theorem resetErrs (hs : Still s₀ s) : Still s₀ (s.resetErrs id) :=
  hs.trans (frame .refl rfl (fun _ => ((Keeps.refl _).setErr _ _).setErr _ _) fun _ => ⟨rfl, rfl⟩)

theorem onCloseSocket (hs : Still s₀ s) : Still s₀ (s.onCloseSocket id) :=
  onCloseSocket_rule (P := Still s₀) hs.resetErrs fun _ _ => hs.resetErrs.invoke

/-- An accept callback that is given no descriptor. -/
theorem invokeAccept (hs : Still s₀ s) : Still s₀ (s.invokeAccept a err INVALID_SOCKET) := by
  rcases invokeAccept_cases s a err INVALID_SOCKET with he | ⟨inv, he⟩
  · rw [he]
    exact hs.trans (noted .refl rfl rfl rfl)
  · rw [he]
    exact hs.trans (noted (AddsNoPassage.cons .refl rfl) rfl rfl rfl)

theorem setAcceptor (hs : Still s₀ s) {c : Acceptor κ} (hl : c.live = (s.acceptors a).live)
    (hsoc : c.soc = (s.acceptors a).soc) : Still s₀ (s.setAcceptor a c) :=
  hs.trans (frame .refl rfl (fun _ => .refl _) (keepsDoors_setAcceptor hl hsoc))

end Still

/-! ### The steps of `run` -/

theorem Still.onCloseAcceptor (hs : Still s₀ s) : Still s₀ (s.onCloseAcceptor a) := by
  unfold State.onCloseAcceptor
  apply Still.invokeAccept
  apply Still.setAcceptor hs
  · rfl
  · rfl

theorem handed_invoke (hc : s.callback = none) : (s.invoke t err bytes via).handed = none := by
  obtain ⟨-, he⟩ | ⟨cb, -, he⟩ := invoke_cases s t err bytes via
  · rw [he, handed, hc]
  · rw [he]
    rfl

theorem handed_of_callback (hc : s.callback = none) : s.handed = none := by
  rw [handed, hc]

theorem handed_onCloseSocket (hc : s.callback = none) : (s.onCloseSocket id).handed = none :=
  onCloseSocket_rule (P := fun s => s.handed = none) (handed_of_callback hc)
    fun _ _ => handed_invoke hc

theorem handed_invokeAccept (hc : s.callback = none) :
    (s.invokeAccept a err INVALID_SOCKET).handed = none := by
  unfold invokeAccept
  split
  · rw [handed, hc]
  · rfl

theorem still_dispatch {r : ReadResult} {w : WriteResult} (hc : s.callback = none)
    (hs : s.dispatch r w = some s') : Still s s' ∧ s'.handed = none := by
  -- the counter and the list of removed handlers have to do with no descriptor
  have hgo : ∀ p l, Still s { s with pc := p, deleted := l } := fun _ _ =>
    .noted .refl rfl rfl rfl
  have hturn : ∀ {e : Event} {g : Heap κ} {t : TokenId} (p : Pc) (l : List Handler),
      e.passage = none → (s.heap.emit e).Progresses t g →
      Still s { s with heap := g, pc := p, deleted := l } := by
    intro e g t p l he hp
    refine .frame (Adds.trans (AddsNoPassage.cons .refl he) hp.silent) rfl (fun c => ?_)
      fun _ => ⟨rfl, rfl⟩
    exact ⟨hp.live c, hp.soc c⟩
  cases dispatch_cases hs with
  | closeSocket _ _ _ _ he =>
    rw [he]
    exact ⟨((hgo _ _).emit rfl).onCloseSocket, handed_onCloseSocket hc⟩
  | closeAcceptor _ _ _ _ he =>
    rw [he]
    exact ⟨((hgo _ _).emit rfl).onCloseAcceptor, handed_invokeAccept hc⟩
  | readSocket _ _ _ _ _ he =>
    rw [he]
    exact ⟨hturn _ _ rfl Heap.onRead_progresses, handed_of_callback hc⟩
  | writeSocket _ _ _ _ he =>
    rw [he]
    exact ⟨hturn _ _ rfl Heap.onWrite_progresses, handed_of_callback hc⟩
  | closeLost _ _ he | readLost _ _ _ he | writeLost _ _ he =>
    rw [he]
    exact ⟨((hgo _ _).emit rfl).fault _, rfl⟩
  | readAcceptor _ _ _ _ he | writeAcceptor _ _ _ he =>
    rw [he]
    exact ⟨((hgo _ _).emit rfl).trans (.noted .refl rfl rfl rfl), handed_of_callback hc⟩
  | skips _ _ _ he | passes _ _ he =>
    rw [he]
    exact ⟨hgo _ _, handed_of_callback hc⟩

theorem still_processCompletion (hc : s.callback = none) (hs : s.processCompletion = some s') :
    Still s s' ∧ s'.handed = none := by
  cases processCompletion_cases hs with
  | ends _ _ _ _ he =>
    rw [he]
    exact ⟨.noted .refl rfl rfl rfl, handed_of_callback hc⟩
  | faults _ _ _ he =>
    rw [he]
    exact ⟨(Still.refl s).fault _, rfl⟩
  | completes _ _ _ he =>
    rw [he]
    refine ⟨Still.invoke (.frame .refl rfl (fun c => ?_) fun _ => ⟨rfl, rfl⟩), handed_invoke hc⟩
    exact ⟨Heap.live_complete, Heap.soc_complete⟩

theorem still_processTimer (hc : s.callback = none) (hs : s.processTimer = some s') :
    Still s s' ∧ s'.handed = none := by
  cases processTimer_cases hs with
  | ends _ he =>
    rw [he]
    exact ⟨.noted .refl rfl rfl rfl, handed_of_callback hc⟩
  | faults _ _ _ he =>
    rw [he]
    exact ⟨(Still.refl s).fault _, rfl⟩
  | expires _ _ _ _ he =>
    rw [he]
    refine ⟨Still.invoke (.frame .refl rfl (fun c => ?_) fun _ => ⟨rfl, rfl⟩), handed_invoke hc⟩
    exact ⟨Heap.live_expire _, Heap.soc_expire _⟩

/-- What a round of the accept loop does, by the answer of `::accept`. -/
inductive AcceptDeal (a : AccId) (fn : κ) (s : State κ) : AcceptResult → State κ → Prop
  | still {errno : Int} {s' : State κ} : Still s s' → s'.handed = none →
      AcceptDeal a fn s (.fail errno) s'
  | passes {fd : Int} {err : Error} {s' : State κ} : fd ≠ INVALID_SOCKET →
      passages s'.heap.log = .passed fd :: .accepted fd :: passages s.heap.log → s'.fd = s.fd →
      (∀ h, s'.owned h = s.owned h) → s'.callback = some (.accept a fn err fd) →
      AcceptDeal a fn s (.conn fd .ok) s'
  | drops {fd : Int} {nonblock : NonBlockResult} {s' : State κ} :
      (setNonBlock fd nonblock Error.new).1 = false →
      passages s'.heap.log = .accepted fd :: passages s.heap.log → s'.fd = s.fd →
      (∀ h, s'.owned h = s.owned h) → s'.handed = none → AcceptDeal a fn s (.conn fd nonblock) s'

/-- An accept callback that is given a descriptor. -/
theorem passes_invokeAccept {fd : Int} {fn : κ} (hcb : (s.acceptors a).cb = some fn)
    (hfd : fd ≠ INVALID_SOCKET) :
    passages (s.invokeAccept a err fd).heap.log = .passed fd :: passages s.heap.log ∧
      (s.invokeAccept a err fd).fd = s.fd ∧
      (∀ h, (s.invokeAccept a err fd).owned h = s.owned h) ∧
      (s.invokeAccept a err fd).callback = some (.accept a fn err fd) := by
  have he : s.invokeAccept a err fd =
      { s.emit (.accepted a err.code fd) with callback := some (.accept a fn err fd) } := by
    unfold invokeAccept
    rw [hcb]
  have hpassed : (Event.accepted a err.code fd).passage = some (.passed fd) := if_neg hfd
  rw [he]
  refine ⟨List.filterMap_cons_some hpassed, rfl, fun h => ?_, rfl⟩
  cases h <;> rfl

theorem accept_deals {r : AcceptResult} {ev : PollEvent} {rest : List PollEvent} {fn : κ}
    (hc : s.callback = none) (hpc : s.pc = .acceptLoop a ev rest)
    (hl : (s.acceptors a).live = true) (hcb : (s.acceptors a).cb = some fn)
    (hs : s.accept r = some s') : AcceptDeal a fn s r s' := by
  have hlive : ¬ s.live (.acceptor a) = false := by simp [live, hl]
  -- the error of the Acceptor and the counter change no descriptor
  have hset : ∀ (s₁ : State κ) (err : Error) (p : Pc), s₁.acceptors a = s.acceptors a →
      Still s₁ { s₁.setAcceptor a { s.acceptors a with err := err } with pc := p } := by
    intro s₁ err p ha
    have hsame : Still s₁ (s₁.setAcceptor a { s.acceptors a with err := err }) := by
      apply (Still.refl s₁).setAcceptor
      · rw [ha]
      · rw [ha]
    exact hsame.trans (.noted .refl rfl rfl rfl)
  unfold accept at hs
  rw [hpc] at hs
  dsimp only at hs
  rw [if_neg hlive] at hs
  cases r with
  | fail errno =>
    dsimp only at hs
    split at hs
    · cases hs
      exact .still (hset s _ _ rfl) (handed_of_callback hc)
    · cases hs
      exact .still (hset s _ _ rfl).invokeAccept (handed_invokeAccept hc)
  | conn fd nonblock =>
    dsimp only at hs
    split at hs
    · rename_i err he
      have hfail : (setNonBlock fd nonblock Error.new).1 = false := by
        rw [← setNonBlock_fails fd nonblock (s.acceptors a).err.clear, he]
      have hsame := hset (s.emit (.opened a .accept fd)) err (.drainRead ev rest) rfl
      split at hs
      · cases hs
        exact .drops hfail hsame.passages hsame.fd hsame.owned (handed_of_callback hc)
      · cases hs
        refine .drops hfail ?_ ?_ ?_ (handed_invokeAccept hc)
        · exact hsame.invokeAccept.passages
        · exact hsame.invokeAccept.fd
        · exact hsame.invokeAccept.owned
    · rename_i err he
      obtain ⟨hfd, rfl, -⟩ := setNonBlock_true he
      cases hs
      have hsame : Still (s.emit (.opened a .accept fd))
          ((s.emit (.opened a .accept fd)).setAcceptor a
            { s.acceptors a with err := err.clear }) :=
        (Still.refl _).setAcceptor rfl rfl
      have hcb' : (((s.emit (.opened a .accept fd)).setAcceptor a
          { s.acceptors a with err := err.clear }).acceptors a).cb = some fn := by
        simpa [setAcceptor] using hcb
      obtain ⟨hlog, hfd', howned, hcall⟩ := passes_invokeAccept hcb' hfd
      exact .passes hfd hlog hfd' (fun h => (howned h).trans (hsame.owned h)) hcall

/-- `run` goes on, or it leaves and closes its epoll descriptor. -/
theorem epollWait_deals {r : PollResult} (hc : s.callback = none) (hs : s.epollWait r = some s') :
    s'.handed = none ∧ (Still s s' ∨ ∃ fd, given s.fd = some fd ∧
      passages s'.heap.log = .closed fd :: passages s.heap.log ∧ given s'.fd = none ∧
      ∀ h, s'.owned h = s.owned h) := by
  cases epollWait_cases hs with
  | leaves he =>
    rw [he]
    unfold closeHandle
    split
    · rename_i hopen
      refine ⟨handed_of_callback hc, .inr ⟨s.fd, if_neg hopen, rfl, rfl, fun h => ?_⟩⟩
      cases h <;> rfl
    · exact ⟨handed_of_callback hc, .inl (.noted .refl rfl rfl rfl)⟩
  | idles he =>
    rw [he]
    exact ⟨handed_of_callback hc, .inl (.noted .refl rfl rfl rfl)⟩
  | polls _ _ he =>
    rw [he]
    refine ⟨handed_of_callback hc, .inl ?_⟩
    exact ((Still.refl s).emit rfl).trans (.noted .refl rfl rfl rfl)

/-! ### The calls of a program -/

theorem still_opens {g : Heap κ} {q : Request κ} {ok : Bool} (ho : s.heap.Opens q (g, ok)) :
    Still s { s with heap := g } :=
  .frame ho.silent rfl (fun _ => .opens ho) fun _ => ⟨rfl, rfl⟩

theorem Still.removeHandler (hs : Still s₀ s) : Still s₀ (s.removeHandler h) := by
  unfold State.removeHandler
  dsimp only
  split
  · exact (hs.emit rfl).trans (.noted .refl rfl rfl rfl)
  · exact (hs.emit rfl).trans (.noted .refl rfl rfl rfl)

/-- Object `h` has got the descriptor in `handle`, if there is one; before it had none. -/
structure Makes (s s' : State κ) (h : Handler) (handle : Int) : Prop where
  new : s.owned h = none
  passages : passages s'.heap.log = passages s.heap.log
  fd : s'.fd = s.fd
  has : s'.owned h = given handle
  other : ∀ k, k ≠ h → s'.owned k = s.owned k

/-- Object `h` had descriptor `fd` and has closed it. -/
structure Closes (s s' : State κ) (h : Handler) (fd : Int) : Prop where
  had : s.owned h = some fd
  passages : passages s'.heap.log = .closed fd :: passages s.heap.log
  fd : s'.fd = s.fd
  gone : s'.owned h = none
  other : ∀ k, k ≠ h → s'.owned k = s.owned k

theorem makes_construct (soc : Int) (rtv wtv : Timeval) (ctl : Int)
    (hnew : s.heap.live id = false) :
    Makes s (s.construct id soc rtv wtv ctl) (.socket id) soc := by
  have hreg : Still (s.newSocket id soc rtv wtv) (s.construct id soc rtv wtv ctl) :=
    (Still.refl _).register
  refine ⟨?_, hreg.passages, hreg.fd, ?_, fun k hk => ?_⟩
  · have hl : s.live (.socket id) ≠ true := by simp [live, hnew]
    exact if_neg hl
  · have hl : (s.newSocket id soc rtv wtv).live (.socket id) = true := by
      simp [newSocket, live, Heap.live, Heap.create, Heap.emit]
    have hsoc : (s.newSocket id soc rtv wtv).handle (.socket id) = soc := by
      simp [newSocket, handle, Heap.soc, Heap.create, Heap.emit]
    rw [hreg.owned, owned, if_pos hl, hsoc]
  · rw [hreg.owned]
    cases k with
    | socket c =>
      have hne : c ≠ id := by
        rintro rfl
        exact hk rfl
      exact owned_of_handle (Heap.live_create hne _ _ _) (Heap.soc_create hne _ _ _)
    | acceptor a => rfl

theorem closeSocket_deals (hl : s.heap.live id = true) : Still s (s.closeSocket id) ∨
    ∃ fd, Closes s (s.closeSocket id) (.socket id) fd := by
  have hrem : Still s (s.removeHandler (.socket id)) := (Still.refl s).removeHandler
  unfold closeSocket
  dsimp only
  split
  · rename_i hsoc
    have hlive : s.live (.socket id) = true := hl
    refine .inr ⟨s.heap.soc id, (if_pos hlive).trans (if_neg hsoc), ?_, hrem.fd, ?_, fun k hk => ?_⟩
    · exact congrArg (Passage.closed (s.heap.soc id) :: ·) hrem.passages
    · rw [owned]
      split
      · have hinv : (((s.removeHandler (.socket id)).emit (.closedFd (s.heap.soc id))).setSoc id
            INVALID_SOCKET).handle (.socket id) = INVALID_SOCKET :=
          (soc_setSoc _ _).trans (if_pos rfl)
        rw [hinv]
        rfl
      · rfl
    · refine Eq.trans ?_ (hrem.owned k)
      cases k with
      | socket c =>
        have hne : c ≠ id := by
          rintro rfl
          exact hk rfl
        exact owned_of_handle (live_setSoc _ _) ((soc_setSoc _ _).trans (if_neg hne))
      | acceptor a => rfl
  · exact .inl hrem

/-- The destruction of a Socket without a descriptor. -/
theorem still_destroySocket (hsoc : s.heap.soc id = INVALID_SOCKET) :
    Still s (s.destroySocket id) := by
  unfold destroySocket
  dsimp only
  rw [if_neg (not_not_intro hsoc)]
  refine ⟨?_, rfl, fun h => ?_⟩
  · have hlog : ((s.heap.unlink id).release id).log = .destroyed id :: s.heap.log :=
      congrArg (Event.destroyed id :: ·) Heap.log_unlink
    exact (congrArg Proactor.passages hlog).trans rfl
  · cases h with
    | acceptor a => rfl
    | socket c =>
      by_cases hc : c = id
      · subst hc
        have hdead : (s.onHeap fun h => (h.unlink c).release c).live (.socket c) ≠ true := by
          have hl : ((s.heap.unlink c).release c).live c = false := by
            rw [Heap.live_release, if_pos rfl]
          simp [live, hl]
        have hnone : s.owned (.socket c) = none := by
          rw [owned]
          split
          · exact if_pos hsoc
          · rfl
        rw [hnone]
        exact if_neg hdead
      · apply owned_of_handle
        · exact (Heap.live_release c).trans ((if_neg hc).trans (Heap.live_unlink c))
        · exact (Heap.soc_release hc).trans (Heap.soc_unlink c)

/-- A new Acceptor that was given no descriptor. -/
theorem still_createAcceptor (hnew : (s.acceptors a).live = false) :
    Still s (s.setAcceptor a ⟨true, INVALID_SOCKET, none, Error.new⟩) := by
  refine ⟨rfl, rfl, fun h => ?_⟩
  cases h with
  | socket c => rfl
  | acceptor b =>
    by_cases hb : b = a
    · subst hb
      have hdead : s.live (.acceptor b) ≠ true := by simp [live, hnew]
      have hnone : s.owned (.acceptor b) = none := if_neg hdead
      rw [hnone, owned]
      simp [handle, setAcceptor, given]
    · apply owned_of_handle
      · simp [live, setAcceptor, hb]
      · simp [handle, setAcceptor, hb]

/-- What `listen` does for an Acceptor without a descriptor. -/
theorem listen_deals (cb : κ) (r : ListenResult) (hl : (s.acceptors a).live = true)
    (hsoc : (s.acceptors a).soc = INVALID_SOCKET) : Still s (s.listen a cb r).1 ∨
      ∃ fd, r.socket = .ok fd ∧ s.owned (.acceptor a) = none ∧
        passages (s.listen a cb r).1.heap.log = .opened fd :: passages s.heap.log ∧
        (s.listen a cb r).1.fd = s.fd ∧ (s.listen a cb r).1.owned (.acceptor a) = given fd ∧
        ∀ k, k ≠ .acceptor a → (s.listen a cb r).1.owned k = s.owned k := by
  have hrest : Still (s.listenSocket a r).1 (s.listen a cb r).1 := by
    unfold listen
    split
    · rename_i s₁ he
      rw [he]
      exact .refl _
    · rename_i s₁ he
      rw [he]
      apply Still.register
      apply Still.setAcceptor (.refl s₁)
      · rfl
      · rfl
  cases hr : r.socket with
  | error errno =>
    refine .inl (Still.trans ?_ hrest)
    have he : (s.listenSocket a r).1 = s.setAcceptor a { s.acceptors a with
        soc := -1, err := (s.acceptors a).err.set errno (.fail .createSocket errno) } := by
      unfold listenSocket
      rw [hr]
    rw [he]
    exact (Still.refl s).setAcceptor rfl hsoc.symm
  | ok fd =>
    obtain ⟨c, he, hfd, hlive⟩ := listenSocket_ok (s := s) (a := a) hr
    refine .inr ⟨fd, rfl, ?_, ?_, ?_, ?_, fun k hk => ?_⟩
    · rw [owned]
      split
      · exact if_pos hsoc
      · rfl
    · rw [hrest.passages, he]
      rfl
    · rw [hrest.fd, he]
      rfl
    · rw [hrest.owned, he]
      have hl' : (((s.emit (.opened a .createSocket fd)).setAcceptor a c).live
          (.acceptor a)) = true := by
        simp [live, setAcceptor, hlive, hl]
      have hsoc' : (((s.emit (.opened a .createSocket fd)).setAcceptor a c).handle
          (.acceptor a)) = fd := by
        simp [handle, setAcceptor, hfd]
      rw [owned, if_pos hl', hsoc']
    · rw [hrest.owned, he]
      cases k with
      | socket c => rfl
      | acceptor b =>
        have hb : b ≠ a := by
          rintro rfl
          exact hk rfl
        apply owned_of_handle
        · simp [live, setAcceptor, hb]
        · simp [handle, setAcceptor, hb]

end State

end EchoBenchmark.Proactor
