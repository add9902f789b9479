import EchoBenchmark.Echo.Sound
import EchoBenchmark.Lib.Custody
import EchoBenchmark.Proactor.Descriptors

/-!
Who owns the descriptors of the echo server. As long as the kernel answers numbers that are not in
use, each open descriptor has one owner, who alone closes it, and the only ones that leak are those
that `accept` answered and `fcntl` then failed for.
-/

namespace EchoBenchmark.Echo

open EchoBenchmark.Proactor
open EchoBenchmark.Proactor.State (Still given)

variable {s s' : Server} {act : Action Fn} {c : ClientId} {fd : Int} {new : List Passage}

/-! ### The owners -/

/-- The proactor owns its epoll descriptor, a Socket or an Acceptor its own, and the accept callback
the one that it was given. -/
inductive Owner
  | epoll
  | object (h : Handler)
  | callback
  deriving DecidableEq

/-- The descriptor that the running function is about to make a client of. -/
def hand : List Stmt → Option Int
  | .newClient soc :: _ => given soc
  | _ => none

namespace Server

def holds (s : Server) : Owner → Option Int
  | .epoll => given s.core.fd
  | .object h => s.core.owned h
  | .callback => hand s.todo

/-- `epoll_create`, `socket` or `accept` answered the descriptor, and it was not closed since. -/
def isOpen (s : Server) (fd : Int) : Prop :=
  s.holds .epoll = some fd ∨ fd ∈ openFds (passages s.core.heap.log)

instance (s : Server) (fd : Int) : Decidable (s.isOpen fd) := inferInstanceAs (Decidable (_ ∨ _))

/-- Who has the open descriptors. Lost are those from `accept` that no callback was given. -/
def books (s : Server) : Custody.Books Owner Int where
  there := s.isOpen
  lost fd := fd ∈ lostFds (passages s.core.heap.log)
  holds := s.holds

/-- The kernel answers a descriptor that is not open. -/
def fresh (s : Server) : Action Fn → Prop
  | .epollCreate fd _ => fd ≠ INVALID_HANDLE → ¬ s.isOpen fd
  | .listen _ _ ⟨.ok fd, _, _, _, _, _⟩ => fd ≠ INVALID_SOCKET ∧ ¬ s.isOpen fd
  | .accept (.conn fd _) => fd ≠ INVALID_SOCKET ∧ ¬ s.isOpen fd
  | _ => True

instance (s : Server) (act : Action Fn) : Decidable (s.fresh act) :=
  match act with
  | .epollCreate fd _ => inferInstanceAs (Decidable (fd ≠ INVALID_HANDLE → ¬ s.isOpen fd))
  | .listen _ _ ⟨.ok fd, _, _, _, _, _⟩ =>
    inferInstanceAs (Decidable (fd ≠ INVALID_SOCKET ∧ ¬ s.isOpen fd))
  | .accept (.conn fd _) => inferInstanceAs (Decidable (fd ≠ INVALID_SOCKET ∧ ¬ s.isOpen fd))
  | .listen _ _ ⟨.error _, _, _, _, _, _⟩ | .accept (.fail _) => isTrue trivial
  | .create .. | .createUnbound .. | .readSome .. | .readAll .. | .writeAll .. | .close _
  | .destroy _ | .memcpy .. | .createAcceptor .. | .closeAcceptor _ | .destroyAcceptor _ | .stop
  | .run | .ret | .epollWait _ | .dispatch .. | .processCompletion | .startTimer _
  | .processTimer | .environment _ => isTrue trivial

end Server

/-! ### What a step does with descriptors -/

/-- What a step does with descriptors, by the entries it adds to the history. -/
inductive Dealt (s : Server) (act : Action Fn) (s' : Server) : List Passage → Prop
  | keeps : (∀ o, s'.holds o = s.holds o) → Dealt s act s' []
  | creates {fd : Int} : ¬ s.isOpen fd → s.holds .epoll = none → s'.holds .epoll = some fd →
      (∀ o, o ≠ .epoll → s'.holds o = s.holds o) → Dealt s act s' []
  | listens {h : Handler} {fd : Int} : ¬ s.isOpen fd → s.holds (.object h) = none →
      s'.holds (.object h) = some fd → (∀ o, o ≠ .object h → s'.holds o = s.holds o) →
      Dealt s act s' [.opened fd]
  | passes {fd : Int} : ¬ s.isOpen fd → s.holds .callback = none → s'.holds .callback = some fd →
      (∀ o, o ≠ .callback → s'.holds o = s.holds o) → Dealt s act s' [.passed fd, .accepted fd]
  | drops {fd : Int} {nonblock : NonBlockResult} : ¬ s.isOpen fd →
      act = .accept (.conn fd nonblock) → nonblock ≠ .ok → (∀ o, s'.holds o = s.holds o) →
      Dealt s act s' [.accepted fd]
  | hands {h : Handler} {fd : Int} : s.holds .callback = some fd → s.holds (.object h) = none →
      s'.holds .callback = none → s'.holds (.object h) = some fd →
      (∀ o, o ≠ .callback → o ≠ .object h → s'.holds o = s.holds o) → Dealt s act s' []
  | closes {o : Owner} {fd : Int} : s.holds o = some fd → s'.holds o = none →
      (∀ k, k ≠ o → s'.holds k = s.holds k) → Dealt s act s' [.closed fd]

/-- The entries of the step in the history, and what it did. -/
def Deals (s : Server) (act : Action Fn) (s' : Server) : Prop :=
  ∃ new, passages s'.core.heap.log = new ++ passages s.core.heap.log ∧ Dealt s act s' new

theorem isOpen_of_same {fd : Int} (hlog : openFds (passages s'.core.heap.log) =
    openFds (passages s.core.heap.log)) (hepoll : s'.holds .epoll = s.holds .epoll) :
    s'.isOpen fd ↔ s.isOpen fd := by
  rw [Server.isOpen, Server.isOpen, hlog, hepoll]

/-- The descriptor was added to the open ones. -/
theorem isOpen_of_opened {q : Int} (hlog : openFds (passages s'.core.heap.log) =
    fd :: openFds (passages s.core.heap.log)) (hepoll : s'.holds .epoll = s.holds .epoll) :
    s'.isOpen q ↔ q = fd ∨ s.isOpen q := by
  rw [Server.isOpen, Server.isOpen, hlog, hepoll, List.mem_cons]
  exact or_left_comm

/-- The descriptor was closed by the one who had it. -/
theorem isOpen_of_closed {o : Owner} {q : Int} (hk : Custody.Kept s.books)
    (hlog : openFds (passages s'.core.heap.log) =
      (openFds (passages s.core.heap.log)).filter (· ≠ fd))
    (hhad : s.holds o = some fd) (hgone : s'.holds o = none)
    (hother : ∀ k, k ≠ o → s'.holds k = s.holds k) : s'.isOpen q ↔ q ≠ fd ∧ s.isOpen q := by
  rw [Server.isOpen, Server.isOpen, hlog]
  simp only [List.mem_filter, decide_eq_true_eq]
  by_cases ho : o = .epoll
  · subst ho
    rw [hgone, hhad]
    constructor
    · rintro (hq | ⟨hq, hne⟩)
      · cases hq
      · exact ⟨hne, .inr hq⟩
    · rintro ⟨hne, hq | hq⟩
      · exact (hne (Option.some.inj hq).symm).elim
      · exact .inr ⟨hq, hne⟩
  · rw [hother .epoll (Ne.symm ho)]
    constructor
    · rintro (hq | ⟨hq, hne⟩)
      · refine ⟨?_, .inl hq⟩
        rintro rfl
        exact ho (hk.sole o .epoll _ hhad hq)
      · exact ⟨hne, .inr hq⟩
    · rintro ⟨hne, hq | hq⟩
      · exact .inl hq
      · exact .inr ⟨hq, hne⟩

theorem Dealt.deal (hk : Custody.Kept s.books)
    (hlog : passages s'.core.heap.log = new ++ passages s.core.heap.log)
    (hd : Dealt s act s' new) : Custody.Deal s.books s'.books := by
  have hunlost : ∀ {fd}, ¬ s.isOpen fd → fd ∉ lostFds (passages s.core.heap.log) :=
    fun hnew hlost => hnew (hk.there_of_lost hlost)
  cases hd with
  | keeps hsame =>
    refine .keeps (fun q => isOpen_of_same (by rw [hlog]; rfl) (hsame _)) (fun q => ?_) hsame
    dsimp only [Server.books]
    rw [hlog]
    rfl
  | @creates fd hnew hnone hhas hother =>
    refine .acquires (i := .epoll) (r := fd) hnew hnone (fun q => ?_) (fun q => ?_) hhas hother
    · change s'.isOpen q ↔ q = fd ∨ s.isOpen q
      rw [Server.isOpen, Server.isOpen, hlog, hhas, hnone, List.nil_append]
      constructor
      · rintro (hq | hq)
        · exact .inl (Option.some.inj hq).symm
        · exact .inr (.inr hq)
      · rintro (rfl | hq | hq)
        · exact .inl rfl
        · cases hq
        · exact .inr hq
    · dsimp only [Server.books]
      rw [hlog]
      rfl
  | @listens h fd hnew hnone hhas hother =>
    refine .acquires (i := .object h) (r := fd) hnew hnone (fun q => ?_) (fun q => ?_) hhas hother
    · exact isOpen_of_opened (by rw [hlog]; rfl) (hother .epoll (by simp))
    · dsimp only [Server.books]
      rw [hlog]
      rfl
  | @passes fd hnew hnone hhas hother =>
    refine .acquires (i := .callback) (r := fd) hnew hnone (fun q => ?_) (fun q => ?_) hhas hother
    · exact isOpen_of_opened (by rw [hlog]; rfl) (hother .epoll (by simp))
    · dsimp only [Server.books]
      rw [hlog]
      -- what the callback was given is not lost
      simp only [List.cons_append, List.nil_append, lostFds, List.mem_filter, List.mem_cons,
        decide_eq_true_eq]
      constructor
      · rintro ⟨rfl | hq, hne⟩
        · exact (hne rfl).elim
        · exact hq
      · intro hq
        refine ⟨.inr hq, ?_⟩
        rintro rfl
        exact hunlost hnew hq
  | @drops fd nonblock hnew _ _ hsame =>
    refine .loses (r := fd) hnew (fun q => ?_) (fun q => ?_) hsame
    · exact isOpen_of_opened (by rw [hlog]; rfl) (hsame .epoll)
    · dsimp only [Server.books]
      rw [hlog]
      simp only [List.cons_append, List.nil_append, lostFds, List.mem_cons]
  | @hands h fd hhad hnone hgone hhas hother =>
    refine .hands (i := .callback) (j := .object h) hhad hnone (fun q => ?_) (fun q => ?_) hgone
      hhas hother
    · exact isOpen_of_same (by rw [hlog]; rfl) (hother .epoll (by simp) (by simp))
    · dsimp only [Server.books]
      rw [hlog]
      rfl
  | @closes o fd hhad hgone hother =>
    refine .releases (i := o) (r := fd) hhad (fun q => ?_) (fun q => ?_) hgone hother
    · exact isOpen_of_closed hk (by rw [hlog]; rfl) hhad hgone hother
    · dsimp only [Server.books]
      rw [hlog]
      simp only [List.cons_append, List.nil_append, lostFds, List.mem_filter, decide_eq_true_eq]
      exact and_comm

theorem deals_of_still (hs : Still s.core s'.core) (hhand : hand s'.todo = hand s.todo) :
    Deals s act s' := by
  refine ⟨[], hs.passages, .keeps fun o => ?_⟩
  cases o with
  | epoll => exact congrArg given hs.fd
  | object h => exact hs.owned h
  | callback => exact hhand

theorem holds_of_other {s s' : Server} {h : Handler} (hfd : s'.core.fd = s.core.fd)
    (hother : ∀ k, k ≠ h → s'.core.owned k = s.core.owned k) (o : Owner) (hc : o ≠ .callback)
    (ho : o ≠ .object h) : s'.holds o = s.holds o := by
  cases o with
  | epoll => exact congrArg given hfd
  | object k =>
    apply hother
    rintro rfl
    exact ho rfl
  | callback => exact (hc rfl).elim

/-! ### The calls of the program -/

/-- What is not open yet when `main` opens it. -/
structure Unopened (s : Server) : Prop where
  create : s.todo = main → s.core.fd = INVALID_HANDLE
  listen : s.todo = [.startAccept, .run] →
    (s.core.acceptors serverAcceptor).soc = INVALID_SOCKET

theorem create_deals {fd errno : Int} (hf : s.fresh (.epollCreate fd errno))
    (hnone : s.core.fd = INVALID_HANDLE) (hactive : s.core.userActive = true)
    (hs : s.core.step (.epollCreate fd errno) = some s'.core)
    (hhand : hand s'.todo = hand s.todo) : Deals s (.epollCreate fd errno) s' := by
  have hnone : s.holds .epoll = none := if_pos hnone
  simp only [State.step, hactive, if_true] at hs
  split at hs
  · rename_i hfd
    have he := (Option.some.inj hs).symm
    refine ⟨[], by rw [he]; rfl, .keeps fun o => ?_⟩
    cases o with
    | epoll =>
      rw [hnone]
      exact if_pos (by rw [he]; exact hfd)
    | object h =>
      change s'.core.owned h = s.core.owned h
      rw [he]
      cases h <;> rfl
    | callback => exact hhand
  · rename_i hfd
    have he := (Option.some.inj hs).symm
    refine ⟨[], by rw [he]; rfl, .creates (hf hfd) hnone ?_ fun o ho => ?_⟩
    · change given s'.core.fd = some fd
      rw [he]
      exact if_neg hfd
    · cases o with
      | epoll => exact (ho rfl).elim
      | object h =>
        change s'.core.owned h = s.core.owned h
        rw [he]
        cases h <;> rfl
      | callback => exact hhand

theorem startAccept_deals {r : ListenResult} (hf : s.fresh (.listen serverAcceptor .onAccept r))
    (hl : (s.core.acceptors serverAcceptor).live = true)
    (hsoc : (s.core.acceptors serverAcceptor).soc = INVALID_SOCKET)
    (hs : s.core.step (.listen serverAcceptor .onAccept r) = some s'.core)
    (hhand : hand s'.todo = hand s.todo) : Deals s (.listen serverAcceptor .onAccept r) s' := by
  unfold State.step at hs
  have he := State.user_live (h := .acceptor serverAcceptor) hl hs
  rcases State.listen_deals Fn.onAccept r hl hsoc with
    hstill | ⟨fd, hr, hnone, hlog, hfd, hhas, hother⟩
  · rw [← he] at hstill
    exact deals_of_still hstill hhand
  · rw [← he] at hlog hfd hhas hother
    obtain ⟨socket, setsockopt, nonblock, bind, listen, epollCtl⟩ := r
    dsimp only at hr
    subst hr
    obtain ⟨hvalid, hnew⟩ : fd ≠ INVALID_SOCKET ∧ ¬ s.isOpen fd := hf
    refine ⟨[.opened fd], hlog, .listens (h := .acceptor serverAcceptor) hnew hnone
      (hhas.trans (if_neg hvalid)) fun o ho => ?_⟩
    by_cases hc : o = .callback
    · rw [hc]
      exact hhand
    · exact holds_of_other hfd hother o hc ho

theorem main_of_step {st : Stmt} {rest : List Stmt} (hu : Unopened s) (hf : s.fresh act)
    (htodo : s.todo = st :: rest) (hst : Starting (st :: rest) s.core)
    (hpc : s.core.pc = .outside) (hp : st.permits act) (hs : s.core.step act = some s'.core)
    (htodo' : s'.todo = Stmt.next s.core rest act) : Deals s act s' := by
  have hactive : s.core.userActive = true := by simp [State.userActive, hpc]
  unfold Starting at hst
  split at hst
  · rename_i heq
    cases heq
    obtain ⟨fd, errno, rfl⟩ := permits_create hp
    refine create_deals hf (hu.create htodo) hactive hs ?_
    rw [htodo', htodo]
    simp only [Stmt.next]
    split
    · rfl
    · rfl
  · rename_i heq
    cases heq
    obtain rfl := permits_newServer hp
    simp only [State.step, hactive, hst serverAcceptor, and_self, if_true] at hs
    refine deals_of_still ?_ (by rw [htodo', htodo]; rfl)
    rw [← Option.some.inj hs]
    exact State.still_createAcceptor (hst serverAcceptor)
  · rename_i heq
    cases heq
    obtain ⟨r, rfl⟩ := permits_startAccept hp
    refine startAccept_deals hf ((hst serverAcceptor).mpr rfl) (hu.listen htodo) hs ?_
    rw [htodo', htodo]
    simp only [Stmt.next]
    split
    · rfl
    · rfl
  · rename_i heq
    cases heq
    obtain rfl := permits_run hp
    obtain ⟨-, hs⟩ := State.library_some hs
    rw [if_pos hpc] at hs
    have he := (Option.some.inj hs).symm
    refine deals_of_still ?_ (by rw [htodo', htodo]; rfl)
    rw [he]
    exact .noted .refl rfl rfl rfl
  · exact hst.elim

theorem newClient_deals {soc : Int} (hp : (Stmt.newClient soc).permits act)
    (htodo : s.todo = [.newClient soc]) (hs : s.core.step act = some s'.core)
    (htodo' : s'.todo = Stmt.next s.core [] act) : Deals s act s' := by
  obtain ⟨c, rtv, wtv, ctl, rfl⟩ := permits_newClient hp
  have hhand : s.holds .callback = given soc := congrArg hand htodo
  have hgone : s'.holds .callback = none := congrArg hand htodo'
  dsimp only [State.step] at hs
  split at hs
  · rename_i hu
    have he := (Option.some.inj hs).symm
    have hm := State.makes_construct soc rtv wtv ctl hu.2
    rw [← he] at hm
    refine ⟨[], hm.passages, ?_⟩
    cases hsoc : given soc with
    | none =>
      refine .keeps fun o => ?_
      by_cases hc : o = .callback
      · rw [hc, hgone, hhand, hsoc]
      · by_cases ho : o = .object (.socket c)
        · rw [ho]
          exact (hm.has.trans hsoc).trans hm.new.symm
        · exact holds_of_other hm.fd hm.other o hc ho
    | some fd =>
      exact .hands (hhand.trans hsoc) hm.new hgone (hm.has.trans hsoc)
        (holds_of_other hm.fd hm.other)
  · cases hs

/-- A call on a Socket that is there and that opens and closes no descriptor. -/
theorem call_deals {st : Stmt} {rest : List Stmt} (htodo : s.todo = st :: rest)
    (htodo' : s'.todo = rest) (hnow : hand (st :: rest) = none) (hthen : hand rest = none)
    (hs : Still s.core s'.core) : Deals s act s' := by
  apply deals_of_still hs
  rw [htodo, htodo', hnow, hthen]

theorem statement_deals {st : Stmt} {rest : List Stmt} (hi : Sound s) (hu : Unopened s)
    (hf : s.fresh act) (htodo : s.todo = st :: rest) (hp : st.permits act)
    (hs : s.core.step act = some s'.core) (htodo' : s'.todo = Stmt.next s.core rest act) :
    Deals s act s' := by
  have hph := hi.phase
  rw [htodo] at hph
  cases hph with
  | starting hst hpc _ _ => exact main_of_step hu hf htodo hst hpc hp hs htodo'
  | accepting _ _ => exact newClient_deals hp htodo hs htodo'
  | @receiving _ c _ hw _ _ =>
    obtain ⟨r, now, rfl⟩ := permits_startRecv hp
    unfold State.step at hs
    have he := State.user_live (h := .socket c) hw.live hs
    refine call_deals htodo htodo' rfl rfl ?_
    rw [he]
    exact State.still_opens Heap.readSome_opens
  | copying _ _ _ _ _ _ =>
    obtain ⟨n, rfl, -⟩ := permits_memcpy hp
    dsimp only [State.step] at hs
    split at hs
    · have he := (Option.some.inj hs).symm
      refine call_deals htodo htodo' rfl rfl ?_
      rw [he]
      exact .noted (AddsNoPassage.cons .refl rfl) rfl rfl rfl
    · cases hs
  | @writing _ c _ _ hw _ _ _ _ =>
    obtain ⟨w, now, rfl⟩ := permits_writeAll hp
    unfold State.step at hs
    have he := State.user_live (h := .socket c) hw.live hs
    refine call_deals htodo htodo' rfl rfl ?_
    rw [he]
    exact State.still_opens Heap.writeAll_opens
  | @closing _ c _ hw =>
    obtain rfl := permits_close hp
    unfold State.step at hs
    have he := State.user_live (h := .socket c) hw.live hs
    rcases State.closeSocket_deals hw.live with hstill | ⟨fd, hc⟩
    · rw [← he] at hstill
      exact call_deals htodo htodo' rfl rfl hstill
    · rw [← he] at hc
      refine ⟨[.closed fd], hc.passages, .closes (o := .object (.socket c)) hc.had hc.gone ?_⟩
      intro o ho
      by_cases hcall : o = .callback
      · rw [hcall]
        change hand s'.todo = hand s.todo
        rw [htodo, htodo']
        rfl
      · exact holds_of_other hc.fd hc.other o hcall ho
  | @destroying _ c _ hw hsoc _ =>
    obtain rfl := permits_destroySocket hp
    unfold State.step at hs
    have he := State.user_live (h := .socket c) hw.live hs
    refine call_deals htodo htodo' rfl rfl ?_
    rw [he]
    exact State.still_destroySocket hsoc

/-! ### The steps of `run` -/

/-- What a callback of a read or a write runs has to do with one client. -/
theorem body_cases (inv : Invocation Fn) : (∃ a err soc, inv = .accept a .onAccept err soc) ∨
    body inv = [] ∨ (∃ c, body inv = deleteClient c) ∨
    (∃ c n, body inv = [.memcpy c n, .writeAll c n]) ∨ ∃ c, body inv = [.startRecv c] := by
  cases inv with
  | accept a fn err soc =>
    cases fn with
    | onAccept => exact .inl ⟨a, err, soc, rfl⟩
    | onRead c | onWrite c => exact .inr (.inl rfl)
  | io t cb err bytes via =>
    obtain ⟨call, fn⟩ := cb
    cases fn with
    | onAccept => exact .inr (.inl rfl)
    | onRead c =>
      simp only [body, onRead]
      split
      · exact .inr (.inr (.inl ⟨c, rfl⟩))
      · split
        · exact .inr (.inr (.inl ⟨c, rfl⟩))
        · exact .inr (.inr (.inr (.inl ⟨c, bytes, rfl⟩)))
    | onWrite c =>
      simp only [body, onWrite]
      split
      · exact .inr (.inr (.inl ⟨c, rfl⟩))
      · split
        · exact .inr (.inr (.inl ⟨c, rfl⟩))
        · exact .inr (.inr (.inr (.inr ⟨c, rfl⟩)))

theorem hand_body {inv : Invocation Fn} (h : ∀ a fn err soc, inv = .accept a fn err soc →
    given soc = none) : hand (body inv) = none := by
  rcases body_cases inv with ⟨a, err, soc, rfl⟩ | hb | ⟨c, hb⟩ | ⟨c, n, hb⟩ | ⟨c, hb⟩
  · exact h a .onAccept err soc rfl
  all_goals
    rw [hb]
    rfl

/-- A step after which no callback was given a descriptor. -/
theorem hand_entered {core core' : State Fn} (h : core'.handed = none) :
    hand (Server.entered core core') = none := by
  unfold Server.entered
  split
  · rename_i inv _ hcall
    apply hand_body
    rintro a fn err soc rfl
    rw [State.handed, hcall] at h
    exact h
  · rfl

theorem round_of_accept {r : AcceptResult} (hi : Sound s)
    (hs : s.core.step (.accept r) = some s'.core) : s.core.callback = none ∧
      ∃ a, State.AcceptDeal a .onAccept s.core r s'.core := by
  obtain ⟨hc, hs⟩ := State.library_some hs
  have hloop : ∃ a ev rest, s.core.pc = .acceptLoop a ev rest := by
    unfold State.accept at hs
    split at hs
    · rename_i a ev rest hpc
      exact ⟨a, ev, rest, hpc⟩
    · cases hs
  obtain ⟨a, ev, rest, hpc⟩ := hloop
  obtain ⟨hev, hl⟩ := (held_of_reachable hi.careful).accepting a ev rest hpc
  rw [hev] at hl
  have hcb := hi.doors (by rw [hpc]; simp) a hl
  exact ⟨hc, a, State.accept_deals hc hpc hl hcb hs⟩

theorem accept_deals {r : AcceptResult} (hi : Sound s) (hf : s.fresh (.accept r))
    (htodo : s.todo = []) (hs : s.core.step (.accept r) = some s'.core)
    (htodo' : s'.todo = Server.entered s.core s'.core) : Deals s (.accept r) s' := by
  obtain ⟨hc, a, hdeal⟩ := round_of_accept hi hs
  have hnow : hand s.todo = none := by rw [htodo]; rfl
  have hholds : ∀ {o}, o ≠ Owner.callback → s'.core.fd = s.core.fd →
      (∀ h, s'.core.owned h = s.core.owned h) → s'.holds o = s.holds o := by
    intro o ho hfd howned
    cases o with
    | epoll => exact congrArg given hfd
    | object h => exact howned h
    | callback => exact (ho rfl).elim
  cases hdeal with
  | still hstill hnone =>
    apply deals_of_still hstill
    rw [hnow, htodo']
    exact hand_entered hnone
  | @passes fd err _ hvalid hlog hfd howned hcall =>
    have hhand : s'.holds .callback = some fd := by
      change hand s'.todo = some fd
      rw [htodo', entered_some hc hcall]
      exact if_neg hvalid
    exact ⟨_, hlog, .passes hf.2 hnow hhand fun o ho => hholds ho hfd howned⟩
  | @drops fd nonblock _ hfail hlog hfd howned hnone =>
    refine ⟨_, hlog, .drops hf.2 rfl ?_ fun o => ?_⟩
    · rintro rfl
      simp [setNonBlock, show ¬ fd = -1 from hf.1] at hfail
    · by_cases ho : o = .callback
      · rw [ho]
        change hand s'.todo = hand s.todo
        rw [hnow, htodo']
        exact hand_entered hnone
      · exact hholds ho hfd howned

theorem library_deals (hi : Sound s) (hf : s.fresh act) (htodo : s.todo = [])
    (hlib : isLibrary act = true) (hs : s.core.step act = some s'.core)
    (htodo' : s'.todo = Server.entered s.core s'.core) : Deals s act s' := by
  have hquiet : Still s.core s'.core ∧ s'.core.handed = none → Deals s act s' := by
    rintro ⟨hstill, hnone⟩
    apply deals_of_still hstill
    rw [htodo, htodo', hand_entered hnone]
    rfl
  cases act with
  | ret =>
    dsimp only [State.step] at hs
    split at hs
    · have he := (Option.some.inj hs).symm
      apply hquiet
      rw [he]
      exact ⟨.noted .refl rfl rfl rfl, rfl⟩
    · cases hs
  | epollWait r =>
    obtain ⟨hc, hs⟩ := State.library_some hs
    split at hs
    · obtain ⟨hnone, hstill | ⟨fd, hfd, hlog, hfd', howned⟩⟩ := State.epollWait_deals hc hs
      · exact hquiet ⟨hstill, hnone⟩
      · refine ⟨[.closed fd], hlog, .closes (o := .epoll) hfd hfd' fun o ho => ?_⟩
        cases o with
        | epoll => exact (ho rfl).elim
        | object h => exact howned h
        | callback =>
          change hand s'.todo = hand s.todo
          rw [htodo, htodo', hand_entered hnone]
          rfl
    · cases hs
  | dispatch r w =>
    obtain ⟨hc, hs⟩ := State.library_some hs
    exact hquiet (State.still_dispatch hc hs)
  | accept r => exact accept_deals hi hf htodo hs htodo'
  | processCompletion =>
    obtain ⟨hc, hs⟩ := State.library_some hs
    exact hquiet (State.still_processCompletion hc hs)
  | startTimer now =>
    obtain ⟨hc, hs⟩ := State.library_some hs
    unfold State.startTimer at hs
    split at hs
    · have he := (Option.some.inj hs).symm
      apply hquiet
      rw [he]
      exact ⟨.noted .refl rfl rfl rfl, State.handed_of_callback hc⟩
    · cases hs
  | processTimer =>
    obtain ⟨hc, hs⟩ := State.library_some hs
    exact hquiet (State.still_processTimer hc hs)
  | _ => cases hlib

theorem signal_deals (hsig : isSignal act = true) (hs : s.core.step act = some s'.core)
    (htodo : s'.todo = s.todo) : Deals s act s' := by
  have hhand : hand s'.todo = hand s.todo := by rw [htodo]
  cases act with
  | stop =>
    have he := (Option.some.inj hs).symm
    refine deals_of_still ?_ hhand
    rw [he]
    exact .noted .refl rfl rfl rfl
  | environment e =>
    have he := (Option.some.inj hs).symm
    refine deals_of_still ?_ hhand
    rw [he]
    exact (Still.refl s.core).emit rfl
  | _ => cases hsig

theorem deals_of_step (hi : Sound s) (hu : Unopened s) (hf : s.fresh act)
    (hs : s.step act = some s') : Deals s act s' := by
  obtain ⟨hsig, hcore, htodo⟩ | ⟨st, rest, htodo, hp, hcore, htodo'⟩ |
    ⟨htodo, hlib, hcore, htodo'⟩ := Server.step_cases hs
  · exact signal_deals hsig hcore htodo
  · exact statement_deals hi hu hf htodo hp hcore htodo'
  · exact library_deals hi hf htodo hlib hcore htodo'

/-! ### Whole runs -/

namespace Unopened

theorem later (hmain : s.todo ≠ main) (hrest : s.todo ≠ [.startAccept, .run]) : Unopened s :=
  ⟨fun h => (hmain h).elim, fun h => (hrest h).elim⟩

/-- What is left to do once `main` has called `run`, or in a callback. -/
theorem of_no_run (h : .run ∉ s.todo) : Unopened s := by
  apply later
  · intro hmain
    simp [hmain, main] at h
  · intro hrest
    simp [hrest] at h

theorem of_statement {st : Stmt} {rest : List Stmt} (hi : Sound s) (htodo : s.todo = st :: rest)
    (hp : st.permits act) (hs : s.core.step act = some s'.core)
    (htodo' : s'.todo = Stmt.next s.core rest act) : Unopened s' := by
  have hph := hi.phase
  rw [htodo] at hph
  cases hph with
  | starting hst hpc _ _ =>
    unfold Starting at hst
    split at hst
    · rename_i heq
      cases heq
      obtain ⟨fd, errno, rfl⟩ := permits_create hp
      simp only [Stmt.next] at htodo'
      split at htodo' <;> exact later (by rw [htodo']; simp [main]) (by rw [htodo']; simp)
    · rename_i heq
      cases heq
      obtain rfl := permits_newServer hp
      simp only [State.step, State.userActive, hpc, Bool.or_true, hst serverAcceptor, and_self,
        if_true] at hs
      refine ⟨fun h => ?_, fun _ => ?_⟩
      · rw [htodo'] at h
        cases h
      · rw [← Option.some.inj hs]
        simp [State.setAcceptor]
    · rename_i heq
      cases heq
      obtain ⟨r, rfl⟩ := permits_startAccept hp
      simp only [Stmt.next] at htodo'
      split at htodo' <;> exact later (by rw [htodo']; simp [main]) (by rw [htodo']; simp)
    · rename_i heq
      cases heq
      obtain rfl := permits_run hp
      exact of_no_run (by rw [htodo']; simp [Stmt.next])
    · exact hst.elim
  | accepting _ _ =>
    obtain ⟨c, rtv, wtv, ctl, rfl⟩ := permits_newClient hp
    exact of_no_run (by rw [htodo']; simp [Stmt.next])
  | receiving _ _ _ _ =>
    obtain ⟨r, now, rfl⟩ := permits_startRecv hp
    exact of_no_run (by rw [htodo']; simp [Stmt.next])
  | copying _ _ _ _ _ _ =>
    obtain ⟨n, rfl, -⟩ := permits_memcpy hp
    exact of_no_run (by rw [htodo']; simp [Stmt.next])
  | writing _ _ _ _ _ _ =>
    obtain ⟨w, now, rfl⟩ := permits_writeAll hp
    exact of_no_run (by rw [htodo']; simp [Stmt.next])
  | closing _ _ =>
    obtain rfl := permits_close hp
    exact of_no_run (by rw [htodo']; simp [Stmt.next])
  | destroying _ _ _ _ =>
    obtain rfl := permits_destroySocket hp
    exact of_no_run (by rw [htodo']; simp [Stmt.next])

/-- A callback runs nothing of `main`. -/
theorem run_not_mem_body {inv : Invocation Fn} : .run ∉ body inv := by
  rcases body_cases inv with ⟨a, err, soc, rfl⟩ | hb | ⟨c, hb⟩ | ⟨c, n, hb⟩ | ⟨c, hb⟩
  · simp [body, onAccept]
  · simp [hb]
  · simp [hb, deleteClient]
  · simp [hb]
  · simp [hb]

theorem of_entered {core : State Fn} (htodo' : s'.todo = Server.entered core s'.core) :
    Unopened s' := by
  apply of_no_run
  rw [htodo', Server.entered]
  split
  · exact run_not_mem_body
  · exact List.not_mem_nil

theorem step (hi : Sound s) (hu : Unopened s) (hs : s.step act = some s') : Unopened s' := by
  obtain ⟨hsig, hcore, htodo⟩ | ⟨st, rest, htodo, hp, hcore, htodo'⟩ |
    ⟨-, -, -, htodo'⟩ := Server.step_cases hs
  · have hsame : s'.core.fd = s.core.fd ∧ s'.core.acceptors = s.core.acceptors := by
      cases act with
      | stop =>
        rw [← Option.some.inj hcore]
        exact ⟨rfl, rfl⟩
      | environment e =>
        rw [← Option.some.inj hcore]
        exact ⟨rfl, rfl⟩
      | _ => cases hsig
    obtain ⟨hfd, hacc⟩ := hsame
    constructor
    · intro h
      rw [hfd]
      exact hu.create (htodo.symm.trans h)
    · intro h
      rw [hacc]
      exact hu.listen (htodo.symm.trans h)
  · exact of_statement hi htodo hp hcore htodo'
  · exact of_entered htodo'

end Unopened

theorem sound_of_fresh (hr : echo.Reachable Server.fresh s) : Sound s :=
  sound_of_reachable (hr.mono fun _ _ _ => trivial)

/-- The books of the server at its start are empty. -/
theorem kept_initial (mem : Mem) : Custody.Kept (Server.initial mem).books := by
  have hnone : ∀ o, (Server.initial mem).holds o = none := by
    intro o
    cases o with
    | epoll | callback => rfl
    | object h => cases h <;> rfl
  constructor
  · intro fd
    constructor
    · rintro (h | h)
      · rw [hnone] at h
        cases h
      · cases h
    · rintro (⟨o, ho⟩ | h)
      · change (Server.initial mem).holds o = some fd at ho
        rw [hnone] at ho
        cases ho
      · cases h
  · intro o _ fd ho
    change (Server.initial mem).holds o = some fd at ho
    rw [hnone] at ho
    cases ho
  · intro o fd ho
    change (Server.initial mem).holds o = some fd at ho
    rw [hnone] at ho
    cases ho

theorem kept_of_reachable (hr : echo.Reachable Server.fresh s) :
    Custody.Kept s.books ∧ Unopened s := by
  apply hr.invariant (I := fun s => Custody.Kept s.books ∧ Unopened s)
  · rintro s₀ ⟨mem, rfl⟩
    exact ⟨kept_initial mem, fun _ => rfl, nofun⟩
  · intro s₀ act s₁ hr hkept hf hs
    obtain ⟨hk, hu⟩ := hkept
    have hi := sound_of_fresh hr
    obtain ⟨new, hlog, hd⟩ := deals_of_step hi hu hf hs
    exact ⟨hk.deal (hd.deal hk hlog), hu.step hi hs⟩

/-! ### What leaks -/

/-- `accept` answered the descriptor, and `fcntl` failed for it. -/
def leaks (fd : Int) : Action Fn → Prop
  | .accept (.conn soc nonblock) => soc = fd ∧ nonblock ≠ .ok
  | _ => False

theorem lost_of_leaks (hi : Sound s) (hs : s.step act = some s') (hl : leaks fd act) :
    s'.books.lost fd := by
  cases act with
  | accept r =>
    cases r with
    | conn soc nonblock =>
      obtain ⟨rfl, hfail⟩ := hl
      obtain ⟨-, a, hdeal⟩ := round_of_accept hi (Server.core_step hs)
      cases hdeal with
      | passes => exact (hfail rfl).elim
      | drops _ hlog _ _ _ =>
        dsimp only [Server.books]
        rw [hlog]
        exact List.mem_cons_self
    | fail errno => exact hl.elim
  | _ => exact hl.elim

theorem Dealt.lost
    (hlog : passages s'.core.heap.log = new ++ passages s.core.heap.log)
    (hd : Dealt s act s' new) (h : s'.books.lost fd) : s.books.lost fd ∨ leaks fd act := by
  dsimp only [Server.books] at h ⊢
  rw [hlog] at h
  cases hd with
  | keeps | creates | listens | hands => exact .inl h
  | passes =>
    simp only [List.cons_append, List.nil_append, lostFds, List.mem_filter, List.mem_cons,
      decide_eq_true_eq] at h
    exact .inl (h.1.resolve_left h.2)
  | drops _ ha hfail _ =>
    rcases List.mem_cons.mp h with rfl | h
    · rw [ha]
      exact .inr ⟨rfl, hfail⟩
    · exact .inl h
  | closes => exact .inl (List.mem_filter.mp h).1

/-- What is lost stays lost: nobody is left to close it. -/
theorem Dealt.stays_lost (hk : Custody.Kept s.books)
    (hlog : passages s'.core.heap.log = new ++ passages s.core.heap.log)
    (hd : Dealt s act s' new) (h : s.books.lost fd) : s'.books.lost fd := by
  cases hd.deal hk hlog with
  | keeps _ hlost _ => exact (hlost fd).mpr h
  | acquires _ _ _ hlost => exact (hlost fd).mpr h
  | hands _ _ _ hlost => exact (hlost fd).mpr h
  | releases hi _ hlost =>
    refine (hlost fd).mpr ⟨?_, h⟩
    rintro rfl
    exact hk.apart _ _ hi h
  | loses _ _ hlost => exact (hlost fd).mpr (.inr h)

/-- A descriptor is closed by the one who had it. -/
theorem Dealt.closed (hk : Custody.Kept s.books)
    (hlog : passages s'.core.heap.log = new ++ passages s.core.heap.log)
    (hd : Dealt s act s' new) (h : .closed fd ∈ new) : s.isOpen fd ∧ ¬ s'.isOpen fd ∧
      ∃ o, s.holds o = some fd ∧ s'.holds o = none := by
  have hdeal := hk.deal (hd.deal hk hlog)
  cases hd with
  | keeps | creates | hands => cases h
  | listens | drops => simp at h
  | passes => simp at h
  | @closes o fd' hhad hgone hother =>
    obtain rfl : fd = fd' := by simpa using h
    refine ⟨hk.there_of_holds hhad, fun hopen => ?_, o, hhad, hgone⟩
    rcases (hdeal.owned fd).mp hopen with ⟨k, hk'⟩ | hlost
    · by_cases hko : k = o
      · subst hko
        cases hgone.symm.trans hk'
      · exact hko (hk.sole k o fd ((hother k hko).symm.trans hk') hhad)
    · change fd ∈ lostFds (passages s'.core.heap.log) at hlost
      rw [hlog] at hlost
      simp [lostFds] at hlost

/-- In every run with a kernel that answers descriptors that are not in use, an open descriptor has
exactly one owner or was lost, only its owner closes it, so nothing is closed twice, and what is
lost are the connections for which `fcntl` failed after `accept`. -/
theorem descriptors_accounted (hr : echo.Reachable Server.fresh s) : Custody.Kept s.books ∧
    ∀ act s', s.fresh act → s.step act = some s' →
      ∃ new, passages s'.core.heap.log = new ++ passages s.core.heap.log ∧
        (∀ fd, .closed fd ∈ new → s.isOpen fd ∧ ¬ s'.isOpen fd ∧
          ∃ o, s.holds o = some fd ∧ s'.holds o = none) ∧
        ∀ fd, s'.books.lost fd ↔ s.books.lost fd ∨ leaks fd act := by
  obtain ⟨hk, hu⟩ := kept_of_reachable hr
  have hi := sound_of_fresh hr
  refine ⟨hk, fun act s' hf hs => ?_⟩
  obtain ⟨new, hlog, hd⟩ := deals_of_step hi hu hf hs
  refine ⟨new, hlog, fun fd h => hd.closed hk hlog h, fun fd => ⟨hd.lost hlog, ?_⟩⟩
  rintro (hlost | hleaks)
  · exact hd.stays_lost hk hlog hlost
  · exact lost_of_leaks hi hs hleaks

/-- Descriptor 5 is closed with its first client and then given to the second; for descriptor 6
`fcntl` fails. -/
def reuse : List (Action Fn) :=
  serving ++ acceptRound 0 5 ++
    [.epollWait (.events [⟨5, .socket 0, ⟨false, false, false, false, true⟩⟩]),
      .dispatch (.got []) (.accepted 0), .close 0, .destroy 0, .ret, .startTimer ⟨11, 0⟩,
      .processTimer, .epollWait (.events [⟨4, .acceptor 0, ⟨true, false, false, false, false⟩⟩]),
      .dispatch (.got []) (.accepted 0), .accept (.conn 5 .ok), .create 1 5 ⟨0, 0⟩ ⟨0, 0⟩ 0,
      .readSome 1 (recvBuf 1) 1024 (.onRead 1) 5000 (.fail EAGAIN) ⟨10, 0⟩, .ret,
      .accept (.conn 6 (.setflFail 1))]

theorem descriptors_accounted_reuse : ∃ s, echo.Reachable Server.fresh s ∧
    s.holds (.object (.socket 1)) = some 5 ∧ s.books.lost 6 ∧ Custody.Kept s.books := by
  obtain ⟨s, hr, hf⟩ := Machine.exists_of_exec (M := echo) (p := Server.fresh)
    (s := Server.initial fun _ _ => 0) (l := reuse)
    (f := fun s => (s.holds (.object (.socket 1)),
      decide (6 ∈ lostFds (passages s.core.heap.log))))
    (b := (some 5, true)) ⟨_, rfl⟩ (by decide +kernel)
  simp only [Prod.mk.injEq] at hf
  obtain ⟨hholds, hlost⟩ := hf
  have hlost : 6 ∈ lostFds (passages s.core.heap.log) := of_decide_eq_true hlost
  exact ⟨s, hr, hholds, hlost, (descriptors_accounted hr).1⟩

end EchoBenchmark.Echo
