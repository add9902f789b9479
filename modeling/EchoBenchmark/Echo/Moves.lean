import EchoBenchmark.Echo.Lifetime
import EchoBenchmark.Proactor.Holders
import EchoBenchmark.Proactor.Listen
import EchoBenchmark.Proactor.Memory

/-!
What one step of the echo server does: where its running function stands, and which of the
functions of the clients and of the proactor act on the heap.
-/

namespace EchoBenchmark.Echo

open EchoBenchmark.Proactor
open EchoBenchmark.Proactor.Heap (Noted)
open History (Adds)

variable {s s' : Server} {act : Action Fn} {c : ClientId} {t : TokenId} {st : Stmt}

/-! ### The actions of the calls -/

theorem permits_create (hp : Stmt.create.permits act) :
    ∃ fd errno, act = .epollCreate fd errno := by
  cases act with
  | epollCreate fd errno => exact ⟨fd, errno, rfl⟩
  | _ => exact hp.elim

theorem permits_newServer (hp : Stmt.newServer.permits act) :
    act = .createAcceptor serverAcceptor INVALID_SOCKET := by
  cases act with
  | createAcceptor a soc =>
    obtain ⟨rfl, rfl⟩ := hp
    rfl
  | _ => exact hp.elim

theorem permits_startAccept (hp : Stmt.startAccept.permits act) :
    ∃ r, act = .listen serverAcceptor .onAccept r := by
  cases act with
  | listen a cb r =>
    obtain ⟨rfl, rfl⟩ := hp
    exact ⟨r, rfl⟩
  | _ => exact hp.elim

theorem permits_run (hp : Stmt.run.permits act) : act = .run := by
  cases act with
  | run => rfl
  | _ => exact hp.elim

theorem permits_newClient {soc : Int} (hp : (Stmt.newClient soc).permits act) :
    ∃ c rtv wtv ctl, act = .create c soc rtv wtv ctl := by
  cases act with
  | create c soc' rtv wtv ctl =>
    obtain rfl := hp
    exact ⟨c, rtv, wtv, ctl, rfl⟩
  | _ => exact hp.elim

theorem permits_startRecv (hp : (Stmt.startRecv c).permits act) :
    ∃ r now, act = .readSome c (recvBuf c) BUFSIZE (.onRead c) TIMEOUT_MS r now := by
  cases act with
  | readSome id buf size cb ms r now =>
    obtain ⟨rfl, rfl, rfl, rfl, rfl⟩ := hp
    exact ⟨r, now, rfl⟩
  | _ => exact hp.elim

theorem permits_memcpy {bytes : Int} (hp : (Stmt.memcpy c bytes).permits act) :
    ∃ n : Nat, act = .memcpy (sendBuf c) (recvBuf c) n ∧ bytes = n := by
  cases act with
  | memcpy dst src n =>
    obtain ⟨rfl, rfl, hn⟩ := hp
    exact ⟨n, rfl, hn.symm⟩
  | _ => exact hp.elim

theorem permits_writeAll {bytes : Int} (hp : (Stmt.writeAll c bytes).permits act) :
    ∃ w now, act = .writeAll c (sendBuf c) bytes (.onWrite c) TIMEOUT_MS w now := by
  cases act with
  | writeAll id buf size cb ms w now =>
    obtain ⟨rfl, rfl, rfl, rfl, rfl⟩ := hp
    exact ⟨w, now, rfl⟩
  | _ => exact hp.elim

theorem permits_close (hp : (Stmt.close c).permits act) : act = .close c := by
  cases act with
  | close id =>
    obtain rfl := hp
    rfl
  | _ => exact hp.elim

theorem permits_destroySocket (hp : (Stmt.destroySocket c).permits act) : act = .destroy c := by
  cases act with
  | destroy id =>
    obtain rfl := hp
    rfl
  | _ => exact hp.elim

/-! ### Where the running function stands -/

/-- A callback of client `c` runs. -/
def runs (s : State Fn) (c : ClientId) : Prop :=
  ∃ t cb err bytes via, s.callback = some (.io t cb err bytes via) ∧ t.sock = c

/-- The accept callback runs. -/
def accepts (s : State Fn) : Prop := ∃ a fn err soc, s.callback = some (.accept a fn err soc)

/-- The client that the running callback works on: the batch has nothing more for it. -/
structure Works (s : State Fn) (c : ClientId) : Prop where
  live : s.heap.live c = true
  apart : ∀ ev ∈ s.pc.waiting, ev.handler ≠ .socket c

/-- How far `main` is, and what is then known of the Acceptor. -/
def Starting : List Stmt → State Fn → Prop
  | [.create, .newServer, .startAccept, .run], s | [.newServer, .startAccept, .run], s =>
    ∀ a, (s.acceptors a).live = false
  | [.startAccept, .run], s => ∀ a, (s.acceptors a).live = true ↔ a = serverAcceptor
  | [.run], s => ∀ a, (s.acceptors a).live = true → (s.acceptors a).cb = some .onAccept
  | _, _ => False

/-- What the running function has still to do, and what it knows. -/
inductive Phase : List Stmt → State Fn → Prop
  | starting {todo : List Stmt} {s : State Fn} : Starting todo s → s.pc = .outside →
      s.callback = none → (∀ c, s.heap.live c = false) → Phase todo s
  | idle {s : State Fn} : Phase [] s
  | accepting {s : State Fn} {soc : Int} : accepts s → (s.pc.rests → soc = INVALID_SOCKET) →
      Phase [.newClient soc] s
  | receiving {s : State Fn} {c : ClientId} : runs s c ∨ accepts s → Works s c → Idle s.heap c →
      (s.pc.rests → s.heap.soc c = INVALID_SOCKET) → Phase [.startRecv c] s
  | copying {s : State Fn} {c : ClientId} {n : Int} : runs s c → Works s c → Idle s.heap c →
      ¬ s.pc.rests → (∃ cb, (s.heap.tok ⟨c, .read⟩).cb = some cb) → 0 < n →
      Phase [.memcpy c n, .writeAll c n] s
  | writing {s : State Fn} {c : ClientId} {n : Int} : runs s c → Works s c → Idle s.heap c →
      ¬ s.pc.rests → (∃ cb, (s.heap.tok ⟨c, .read⟩).cb = some cb) → 0 < n → Phase [.writeAll c n] s
  | closing {s : State Fn} {c : ClientId} : runs s c → Works s c → Phase (deleteClient c) s
  | destroying {s : State Fn} {c : ClientId} : runs s c → Works s c →
      s.heap.soc c = INVALID_SOCKET → .socket c ∈ s.deleted → Phase [.destroySocket c] s

/-- The invariant of the echo server. -/
structure Sound (s : Server) : Prop where
  careful : (proactor Fn).Reachable State.careful s.core
  running : ¬ s.core.pc.dead
  clients : Clients s.todo s.core.heap
  phase : Phase s.todo s.core
  doors : s.core.pc ≠ .outside → ∀ a, (s.core.acceptors a).live = true →
    (s.core.acceptors a).cb = some .onAccept
  history : Chronicle s.core.heap

/-! ### The steps -/

/-- Bytes were copied between buffers. -/
def copies : Event → Prop
  | .copied .. => True
  | _ => False

/-- Notes were added to the history, and Sockets may have been closed. -/
structure Calm (h h' : Heap Fn) : Prop where
  noted : Noted h h'
  mem : h'.mem = h.mem
  lawful : Adds (Event.lawful h) h.log h'.log
  uncopied : Adds (fun e => ¬ copies e) h.log h'.log

/-- The running function goes on where it is. -/
structure Stays (s s' : State Fn) : Prop where
  pc : s'.pc = s.pc
  callback : s'.callback = s.callback
  acceptors : s'.acceptors = s.acceptors

/-- `run` goes on, and finds what it points at. -/
structure Runs (s s' : State Fn) : Prop where
  inside : s'.pc ≠ .outside → s.pc ≠ .outside
  running : ¬ s'.pc.dead
  doors : ∀ a, (s.acceptors a).same (s'.acceptors a)

/-- A callback of token `t` has just been called, with the heap otherwise as `h`. -/
structure Calls (s s' : Server) (h : Heap Fn) (t : TokenId) (err : Error) (bytes : Int)
    (via : Via) : Prop where
  live : s.core.heap.live t.sock = true
  apart : ∀ ev ∈ s'.core.pc.waiting, ev.handler ≠ .socket t.sock
  cb : ∃ cb, (s.core.heap.tok t).cb = some cb ∧ cb.fn = Fn.of t ∧
    s'.core.callback = some (.io t cb err bytes via) ∧
    s'.core.heap = h.emit (.called t cb.call err.code bytes via) ∧
    s'.todo = body (.io t cb err bytes via)

/-- What one step of the echo server does. -/
inductive Move (s : Server) (act : Action Fn) (s' : Server) : Prop
  /-- A signal or the network. -/
  | signal : isSignal act = true → s'.todo = s.todo → Calm s.core.heap s'.core.heap →
      Stays s.core s'.core → s'.core.deleted = s.core.deleted →
      (∀ c, s'.core.heap.soc c = s.core.heap.soc c) → Move s act s'
  | starts : s.core.pc = .outside → (∀ c, s.core.heap.live c = false) →
      Calm s.core.heap s'.core.heap →
      Phase s'.todo s'.core → ¬ s'.core.pc.dead → (s'.core.pc ≠ .outside →
        ∀ a, (s'.core.acceptors a).live = true → (s'.core.acceptors a).cb = some .onAccept) →
      Move s act s'
  | quiet : s.todo = [] → s'.todo = [] → Calm s.core.heap s'.core.heap → Runs s.core s'.core →
      Move s act s'
  | accepted {soc : Int} : s.todo = [] → s'.todo = [.newClient soc] →
      Calm s.core.heap s'.core.heap → Runs s.core s'.core → accepts s'.core →
      (s'.core.pc.rests → soc = INVALID_SOCKET) → Move s act s'
  | created {c : ClientId} {soc : Int} {rtv wtv : Timeval} {ctl : Int} :
      act = .create c soc rtv wtv ctl → s.todo = [.newClient soc] → s'.todo = [.startRecv c] →
      s.core.heap.live c = false →
      Calm (s.core.heap.create c soc rtv wtv) s'.core.heap → s'.core.heap.soc c = soc →
      Stays s.core s'.core → Move s act s'
  | received {c : ClientId} {r : ReadResult} {now : Timeval} :
      act = .readSome c (recvBuf c) BUFSIZE (.onRead c) TIMEOUT_MS r now →
      s.todo = [.startRecv c] → s'.todo = [] → s'.core.heap =
        (s.core.heap.readSome c (recvBuf c) BUFSIZE (.onRead c) TIMEOUT_MS r now).1 →
      Stays s.core s'.core → Move s act s'
  | copied {c : ClientId} {n : Nat} : s.todo = [.memcpy c n, .writeAll c n] →
      s'.todo = [.writeAll c n] → s'.core.heap = s.core.heap.memcpy (sendBuf c) (recvBuf c) n →
      Stays s.core s'.core → Move s act s'
  | wrote {c : ClientId} {n : Int} {w : WriteResult} {now : Timeval} :
      s.todo = [.writeAll c n] → s'.todo = [] → s'.core.heap =
        (s.core.heap.writeAll c (sendBuf c) n (.onWrite c) TIMEOUT_MS w now).1 →
      Stays s.core s'.core → Move s act s'
  | closed {c : ClientId} : s.todo = deleteClient c → s'.todo = [.destroySocket c] →
      Calm s.core.heap s'.core.heap → s'.core.heap.soc c = INVALID_SOCKET →
      .socket c ∈ s'.core.deleted → Stays s.core s'.core → Move s act s'
  | destroyed {c : ClientId} : s.todo = [.destroySocket c] → s'.todo = [] →
      s'.core.heap = (s.core.heap.unlink c).release c → Stays s.core s'.core → Move s act s'
  | read {c : ClientId} {r : ReadResult} {w : WriteResult} : act = .dispatch r w →
      s.todo = [] → s'.todo = [] → s.core.heap.live c = true →
      s'.core.heap = (s.core.heap.emit (.dispatched (.socket c) .onRead)).onRead c r →
      Runs s.core s'.core → Move s act s'
  | written {c : ClientId} {r : ReadResult} {w : WriteResult} : act = .dispatch r w →
      s.todo = [] → s'.todo = [] → s.core.heap.live c = true →
      s'.core.heap = (s.core.heap.emit (.dispatched (.socket c) .onWrite)).onWrite c w →
      Runs s.core s'.core → Move s act s'
  | completed {t : TokenId} {rest : List TokenId} : act = .processCompletion → s.todo = [] →
      s.core.heap.queue = t :: rest → s.core.pc.draining → s'.core.pc = s.core.pc →
      Calls s s' (s.core.heap.complete t) t (s.core.heap.tok t).err (s.core.heap.tok t).ioSize
        .completion → Runs s.core s'.core → Move s act s'
  | expired {t : TokenId} {timers : List TokenId} : s.todo = [] →
      s.core.heap.timerList = t :: timers →
      Calls s s' (s.core.heap.expire t timers) t ⟨ETIMEDOUT, .timeout⟩ 0 .timer →
      Runs s.core s'.core → Move s act s'
  | hungup {c : ClientId} : s.todo = [] →
      Calls s s' (((s.core.heap.emit (.dispatched (.socket c) .onClose)).setErr ⟨c, .read⟩
        ECONNRESET .closed).setErr ⟨c, .write⟩ ECONNRESET .closed) ⟨c, .read⟩
        ⟨ECONNRESET, .closed⟩ 0 .hangup → Runs s.core s'.core → Move s act s'

namespace Calm

variable {h h₁ h' : Heap Fn} {e : Event}

theorem refl (h : Heap Fn) : Calm h h := ⟨Noted.refl h, rfl, .refl, .refl⟩

theorem emit (hc : Calm h h') (hn : e.isNote) (hu : ∀ c, uses c e → h.live c = true)
    (hcopy : ¬ copies e) : Calm h (h'.emit e) where
  noted := hc.noted.emit hn
  mem := hc.mem
  lawful := by
    refine hc.lawful.cons ⟨fun j => ?_, hu⟩
    cases e <;> first | exact hn.elim | exact ⟨nofun, nofun⟩
  uncopied := hc.uncopied.cons hcopy

/-- The entry is about no client. -/
theorem note (hc : Calm h h') (hn : e.isNote) (hu : ∀ c, ¬ uses c e) (hcopy : ¬ copies e) :
    Calm h (h'.emit e) :=
  hc.emit hn (fun c h => (hu c h).elim) hcopy

end Calm

theorem calm_register {s : State Fn} {h : Handler} {acceptor : Bool} {ctl : Int} {h₀ : Heap Fn}
    (hc : Calm h₀ s.heap) : Calm h₀ (s.register h acceptor ctl).1.heap := by
  unfold State.register
  split
  · exact hc
  · dsimp only
    split
    · exact hc
    · exact hc.note trivial (fun _ => id) id

theorem calm_closeSocket {s : State Fn} : Calm s.heap (s.closeSocket c).heap := by
  have hadds : Adds (fun e => Event.lawful s.heap e ∧ ¬ copies e) s.heap.log
      (s.closeSocket c).heap.log := by
    have hrem : Adds (fun e => Event.lawful s.heap e ∧ ¬ copies e) s.heap.log
        (s.removeHandler (.socket c)).heap.log := by
      rw [State.heap_removeHandler]
      exact Adds.refl.cons ⟨⟨fun _ => ⟨nofun, nofun⟩, fun _ => False.elim⟩, id⟩
    unfold State.closeSocket
    dsimp only
    split
    · exact hrem.cons ⟨⟨fun _ => ⟨nofun, nofun⟩, fun _ => False.elim⟩, id⟩
    · exact hrem
  exact ⟨State.closeSocket_noted, State.mem_closeSocket, hadds.mono fun _ => And.left,
    hadds.mono fun _ => And.right⟩

theorem calm_listen {s : State Fn} {a : AccId} {cb : Fn} {r : ListenResult} :
    Calm s.heap (s.listen a cb r).1.heap := by
  have hadds : Adds (fun e => Event.lawful s.heap e ∧ ¬ copies e) s.heap.log
      (s.listen a cb r).1.heap.log := by
    have hopened : ∀ e, State.socketOpened a e → Event.lawful s.heap e ∧ ¬ copies e := by
      rintro e ⟨fd, rfl⟩
      exact ⟨⟨fun _ => ⟨nofun, nofun⟩, fun _ => False.elim⟩, id⟩
    rcases State.listen_adds (s := s) (a := a) cb r with ⟨-, ha⟩ | ⟨i, log, hi, -, ha, hlog⟩
    · exact ha.mono hopened
    · rw [hlog]
      exact (ha.mono hopened).cons ⟨⟨fun _ => ⟨nofun, nofun⟩, fun _ => False.elim⟩, id⟩
  exact ⟨State.listen_noted cb r, State.mem_listen cb r, hadds.mono fun _ => And.left,
    hadds.mono fun _ => And.right⟩

/-! ### The steps of `main` -/

theorem cb_listen {s : State Fn} {a : AccId} {cb : Fn} {r : ListenResult}
    (h : (s.listen a cb r).2 = true) : ((s.listen a cb r).1.acceptors a).cb = some cb := by
  unfold State.listen at h ⊢
  split at h
  · cases h
  · simp [State.setAcceptor]

theorem starts_of_step {rest : List Stmt} (hst : Starting (st :: rest) s.core)
    (hpc : s.core.pc = .outside) (hcall : s.core.callback = none)
    (hnew : ∀ c, s.core.heap.live c = false) (hp : st.permits act)
    (hs : s.core.step act = some s'.core) (htodo : s'.todo = Stmt.next s.core rest act) :
    Move s act s' := by
  have hactive : s.core.userActive = true := by simp [State.userActive, hpc]
  -- the calls before `run` leave it inactive, and no Socket is created
  have hgo : Calm s.core.heap s'.core.heap → s'.core.pc = .outside → s'.core.callback = none →
      s'.todo = [] ∨ Starting s'.todo s'.core → Move s act s' := by
    intro hcalm hpc' hcall' hto
    refine .starts hpc hnew hcalm ?_ (by rw [hpc']; exact id) (fun h => (h hpc').elim)
    rcases hto with h | h
    · rw [h]
      exact .idle
    · exact .starting h hpc' hcall' fun c => (hcalm.noted.live c).trans (hnew c)
  obtain ⟨core, todo⟩ := s'
  dsimp only at hs htodo hgo
  subst htodo
  unfold Starting at hst
  split at hst
  · rename_i heq
    cases heq
    obtain ⟨fd, errno, rfl⟩ := permits_create hp
    simp only [State.step, hactive, if_true] at hs
    simp only [Stmt.next] at hgo ⊢
    split at hs
    · rename_i hfd
      cases hs
      exact hgo (.refl _) hpc hcall (.inl (if_pos hfd))
    · rename_i hfd
      cases hs
      refine hgo (.refl _) hpc hcall (.inr ?_)
      rw [if_neg (show ¬ fd = INVALID_HANDLE from hfd)]
      exact hst
  · rename_i heq
    cases heq
    obtain rfl := permits_newServer hp
    simp only [State.step, hactive, hst serverAcceptor, and_self, if_true] at hs
    cases hs
    refine hgo (.refl _) hpc hcall (.inr fun a => ?_)
    by_cases ha : a = serverAcceptor
    · simp [State.setAcceptor, ha]
    · simp [State.setAcceptor, ha, hst a]
  · rename_i heq
    cases heq
    obtain ⟨r, rfl⟩ := permits_startAccept hp
    unfold State.step at hs
    have hl : s.core.live (.acceptor serverAcceptor) = true := (hst serverAcceptor).mpr rfl
    obtain rfl := State.user_live hl hs
    obtain ⟨hpc', hcall', -⟩ := State.listen_frame (s := s.core) (a := serverAcceptor) .onAccept r
    refine hgo calm_listen (hpc'.trans hpc) (hcall'.trans hcall) ?_
    simp only [Stmt.next]
    split
    · rename_i hok
      refine .inr fun a ha => ?_
      by_cases hae : a = serverAcceptor
      · rw [hae]
        exact cb_listen hok
      · have haside := (Aside.refl (a := a) s.core).listen (Ne.symm hae) .onAccept r
        rw [haside.acceptor] at ha
        exact (hae ((hst a).mp ha)).elim
    · exact .inl rfl
  · rename_i heq
    cases heq
    obtain rfl := permits_run hp
    obtain ⟨-, hs⟩ := State.library_some hs
    rw [if_pos hpc] at hs
    cases hs
    exact .starts hpc hnew (.refl _) .idle id fun _ => hst
  · exact hst.elim

/-! ### The other calls -/

theorem userActive_of_callback {s : State Fn} (hc : s.callback.isSome) : s.userActive = true := by
  simp [State.userActive, hc]

theorem newClient_of_step {soc : Int} (hp : (Stmt.newClient soc).permits act)
    (htodo : s.todo = [.newClient soc]) (hs : s.core.step act = some s'.core)
    (htodo' : s'.todo = Stmt.next s.core [] act) : Move s act s' := by
  obtain ⟨c, rtv, wtv, ctl, rfl⟩ := permits_newClient hp
  obtain ⟨core, todo⟩ := s'
  dsimp only at hs htodo'
  subst htodo'
  dsimp only [State.step] at hs
  split at hs
  · rename_i hu
    cases hs
    refine .created rfl htodo rfl hu.2 (calm_register (.refl _)) ?_ ⟨?_, ?_, ?_⟩
    · have hh := State.handle_register (s.core.newSocket c soc rtv wtv) (.socket c) false ctl
        (.socket c)
      refine hh.trans ?_
      simp [State.newSocket, State.handle, Heap.soc, Heap.create, Heap.emit]
    · exact State.pc_register
    · exact State.callback_register
    · exact State.acceptors_register
  · cases hs

theorem startRecv_of_step (hp : (Stmt.startRecv c).permits act) (hw : Works s.core c)
    (htodo : s.todo = [.startRecv c]) (hs : s.core.step act = some s'.core)
    (htodo' : s'.todo = Stmt.next s.core [] act) : Move s act s' := by
  obtain ⟨r, now, rfl⟩ := permits_startRecv hp
  unfold State.step at hs
  have he := State.user_live (h := .socket c) hw.live hs
  exact .received rfl htodo htodo' (by rw [he]; rfl) (by rw [he]; exact ⟨rfl, rfl, rfl⟩)

theorem memcpy_of_step {n : Int} {rest : List Stmt} (hp : (Stmt.memcpy c n).permits act)
    (htodo : s.todo = [.memcpy c n, .writeAll c n]) (hrest : rest = [.writeAll c n])
    (hs : s.core.step act = some s'.core) (htodo' : s'.todo = Stmt.next s.core rest act) :
    Move s act s' := by
  obtain ⟨k, rfl, rfl⟩ := permits_memcpy hp
  subst hrest
  obtain ⟨core, todo⟩ := s'
  dsimp only at hs htodo'
  dsimp only [State.step] at hs
  split at hs
  · cases hs
    exact .copied htodo htodo' rfl ⟨rfl, rfl, rfl⟩
  · cases hs

theorem writeAll_of_step {n : Int} (hp : (Stmt.writeAll c n).permits act) (hw : Works s.core c)
    (htodo : s.todo = [.writeAll c n]) (hs : s.core.step act = some s'.core)
    (htodo' : s'.todo = Stmt.next s.core [] act) : Move s act s' := by
  obtain ⟨w, now, rfl⟩ := permits_writeAll hp
  unfold State.step at hs
  have he := State.user_live (h := .socket c) hw.live hs
  exact .wrote htodo htodo' (by rw [he]; rfl) (by rw [he]; exact ⟨rfl, rfl, rfl⟩)

theorem close_of_step {rest : List Stmt} (hp : (Stmt.close c).permits act) (hw : Works s.core c)
    (htodo : s.todo = deleteClient c) (hrest : rest = [.destroySocket c])
    (hs : s.core.step act = some s'.core) (htodo' : s'.todo = Stmt.next s.core rest act) :
    Move s act s' := by
  obtain rfl := permits_close hp
  subst hrest
  unfold State.step at hs
  have he := State.user_live (h := .socket c) hw.live hs
  refine .closed htodo htodo' ?_ ?_ ?_ ?_
  · rw [he]
    exact calm_closeSocket
  · rw [he]
    exact State.soc_closeSocket
  · rw [he, State.deleted_closeSocket]
    exact List.mem_append_right _ List.mem_cons_self
  · rw [he]
    exact ⟨State.pc_closeSocket, State.callback_closeSocket, State.acceptors_closeSocket⟩

theorem destroySocket_of_step (hp : (Stmt.destroySocket c).permits act) (hw : Works s.core c)
    (hsoc : s.core.heap.soc c = INVALID_SOCKET) (htodo : s.todo = [.destroySocket c])
    (hs : s.core.step act = some s'.core) (htodo' : s'.todo = Stmt.next s.core [] act) :
    Move s act s' := by
  obtain rfl := permits_destroySocket hp
  unfold State.step at hs
  have he := State.user_live (h := .socket c) hw.live hs
  have hd : s.core.destroySocket c = s.core.onHeap fun h => (h.unlink c).release c := by
    unfold State.destroySocket
    simp [hsoc]
  rw [hd] at he
  exact .destroyed htodo htodo' (by rw [he]; rfl) (by rw [he]; exact ⟨rfl, rfl, rfl⟩)

/-- The calls of the running function are those that its phase says. -/
theorem statement_of_step (hi : Sound s) {rest : List Stmt} (htodo : s.todo = st :: rest)
    (hp : st.permits act) (hs : s.core.step act = some s'.core)
    (htodo' : s'.todo = Stmt.next s.core rest act) : Move s act s' := by
  have hph := hi.phase
  rw [htodo] at hph
  cases hph with
  | starting hst hpc hc hnew => exact starts_of_step hst hpc hc hnew hp hs htodo'
  | accepting => exact newClient_of_step hp htodo hs htodo'
  | receiving _ hw => exact startRecv_of_step hp hw htodo hs htodo'
  | copying => exact memcpy_of_step hp htodo rfl hs htodo'
  | writing _ hw => exact writeAll_of_step hp hw htodo hs htodo'
  | closing _ hw => exact close_of_step hp hw htodo rfl hs htodo'
  | destroying _ hw hsoc => exact destroySocket_of_step hp hw hsoc htodo hs htodo'

theorem signal_of_step (hsig : isSignal act = true) (hs : s.core.step act = some s'.core)
    (htodo : s'.todo = s.todo) : Move s act s' := by
  obtain ⟨core, todo⟩ := s'
  dsimp only at hs htodo
  cases act with
  | stop =>
    cases hs
    exact .signal rfl htodo (.refl _) ⟨rfl, rfl, rfl⟩ rfl fun _ => rfl
  | environment e =>
    cases hs
    exact .signal rfl htodo ((Calm.refl _).note trivial (fun _ => id) id) ⟨rfl, rfl, rfl⟩ rfl
      fun _ => rfl
  | _ => cases hsig

/-! ### The steps of the library -/

theorem same_refl (a : Acceptor Fn) : a.same a := ⟨rfl, rfl, rfl⟩

theorem entered_none {core core' : State Fn} (h : core'.callback = none) :
    Server.entered core core' = [] := by
  unfold Server.entered
  rw [h]
  split <;> simp_all

theorem entered_some {core core' : State Fn} {inv : Invocation Fn} (hc : core.callback = none)
    (h : core'.callback = some inv) : Server.entered core core' = body inv := by
  unfold Server.entered
  rw [hc, h]

theorem runs_of_acceptors {core core' : State Fn} (ha : core'.acceptors = core.acceptors)
    (hin : core'.pc ≠ .outside → core.pc ≠ .outside) (hd : ¬ core'.pc.dead) :
    Runs core core' := by
  refine ⟨hin, hd, fun a => ?_⟩
  rw [ha]
  exact same_refl _

/-- A step that calls nothing back. -/
theorem quiet_of_step (htodo : s.todo = []) (htodo' : s'.todo = Server.entered s.core s'.core)
    (hc : s'.core.callback = none) (hcalm : Calm s.core.heap s'.core.heap)
    (hr : Runs s.core s'.core) : Move s act s' :=
  .quiet htodo (htodo'.trans (entered_none hc)) hcalm hr

theorem invokeAccept_some {core : State Fn} {a : AccId} {err : Error} {soc : Int} {fn : Fn}
    (hcb : (core.acceptors a).cb = some fn) : core.invokeAccept a err soc =
      { core.emit (.accepted a err.code soc) with callback := some (.accept a fn err soc) } := by
  unfold State.invokeAccept
  rw [hcb]

/-- The accept callback is called. -/
theorem accepted_of_step {core : State Fn} {a : AccId} {err : Error} {soc : Int}
    (htodo : s.todo = []) (htodo' : s'.todo = Server.entered s.core s'.core)
    (hc : s.core.callback = none) (he : s'.core = core.invokeAccept a err soc)
    (hcb : (core.acceptors a).cb = some .onAccept) (hcalm : Calm s.core.heap core.heap)
    (hr : Runs s.core core) (hsoc : core.pc.rests → soc = INVALID_SOCKET) : Move s act s' := by
  rw [invokeAccept_some hcb] at he
  have hcall : s'.core.callback = some (.accept a .onAccept err soc) := by rw [he]
  refine .accepted htodo (htodo'.trans (entered_some hc hcall)) ?_ ?_
    ⟨a, .onAccept, err, soc, hcall⟩ ?_
  · rw [he]
    exact hcalm.note trivial (fun _ => id) id
  · rw [he]
    exact ⟨hr.inside, hr.running, hr.doors⟩
  · rw [he]
    exact hsoc

theorem invoke_some {core : State Fn} {err : Error} {bytes : Int} {via : Via} {cb : Callback Fn}
    (hcb : (core.heap.tok t).cb = some cb) : core.invoke t err bytes via =
      { core.emit (.called t cb.call err.code bytes via) with
        callback := some (.io t cb err bytes via) } := by
  unfold State.invoke
  rw [hcb]

/-- A callback of a client is called. -/
theorem calls_of_step {core : State Fn} {err : Error} {bytes : Int} {via : Via} {cb : Callback Fn}
    (hi : Sound s) (htodo' : s'.todo = Server.entered s.core s'.core)
    (hc : s.core.callback = none) (he : s'.core = core.invoke t err bytes via)
    (hcb : (s.core.heap.tok t).cb = some cb) (hsame : (core.heap.tok t).cb = (s.core.heap.tok t).cb)
    (hl : s.core.heap.live t.sock = true)
    (hapart : ∀ ev ∈ core.pc.waiting, ev.handler ≠ .socket t.sock) :
    Calls s s' core.heap t err bytes via := by
  rw [invoke_some (hsame.trans hcb)] at he
  refine ⟨hl, by rw [he]; exact hapart, cb, hcb, hi.clients.bound t cb hcb, by rw [he],
    by rw [he]; rfl, ?_⟩
  rw [htodo', entered_some hc (by rw [he])]

theorem runs_invoke {core core' : State Fn} {err : Error} {bytes : Int} {via : Via}
    {cb : Callback Fn} (hr : Runs core core') (hcb : (core'.heap.tok t).cb = some cb) :
    Runs core (core'.invoke t err bytes via) := by
  rw [invoke_some hcb]
  exact ⟨hr.inside, hr.running, hr.doors⟩

section Dispatch

variable {ev : PollEvent} {rest : List PollEvent} {r : ReadResult} {w : WriteResult}

theorem dispatchClose_of_step (hi : Sound s) (htodo : s.todo = [])
    (htodo' : s'.todo = Server.entered s.core s'.core) (hc : s.core.callback = none)
    (hpc : s.core.pc = .event (ev :: rest))
    (he : s'.core = { s.core with pc := .event rest }.dispatchClose ev.handler) :
    Move s act s' := by
  have hh := held_of_reachable hi.careful
  have hmem : ev ∈ s.core.pc.waiting := by
    rw [hpc]
    exact List.mem_cons_self
  have hl := hh.waiting ev hmem
  have hin : s.core.pc ≠ .outside := by
    rw [hpc]
    nofun
  cases hev : ev.handler with
  | socket c =>
    rw [hev] at he hl
    rw [State.dispatchClose_socket (by exact hl)] at he
    -- a client whose event waits has nothing in the queue
    have hnq : ⟨c, .read⟩ ∉ s.core.heap.queue := fun hq => hh.queued _ hq ev hmem hev
    have hm : (s.core.heap.tok ⟨c, .read⟩).mode ≠ .done := fun hd =>
      hnq (((consistent_of_reachable hi.careful).books.queued _).mpr (.inl hd))
    obtain ⟨cb, hcb⟩ := hi.clients.reads c hl (by rw [htodo]; exact serves_nil)
    obtain ⟨-, hclose⟩ | ⟨hd, -⟩ | ⟨hd, -⟩ := State.onCloseSocket_cases
      ({ s.core with pc := .event rest }.emit (.dispatched (.socket c) .onClose)) c
    · rw [hclose] at he
      have hsame : (({ s.core with pc := .event rest }.emit
          (.dispatched (.socket c) .onClose)).resetErrs c).heap.tok ⟨c, .read⟩ =
          { s.core.heap.tok ⟨c, .read⟩ with err := ⟨ECONNRESET, .closed⟩ } := by
        rw [State.tok_resetErrs, if_pos rfl]
        rfl
      refine .hungup (c := c) htodo (calls_of_step hi htodo' hc he hcb ?_ hl ?_) ?_
      · rw [hsame]
      · have hapart := hh.apart
        rw [hpc] at hapart
        exact fun ev' hmem' => (List.pairwise_cons.mp hapart).1 ev' hmem' c hev
      · rw [he]
        refine runs_invoke ⟨fun _ => hin, id, fun _ => same_refl _⟩ (Eq.trans ?_ hcb)
        rw [hsame]
    · exact (hm hd).elim
    · exact (hm hd).elim
  | acceptor a =>
    rw [hev] at he hl
    rw [State.dispatchClose_acceptor (by exact hl)] at he
    refine accepted_of_step htodo htodo' hc he ?_ ?_ ?_ fun _ => rfl
    · simpa [State.setAcceptor] using hi.doors hin a hl
    · exact (Calm.refl _).note trivial (fun _ => id) id
    · refine ⟨fun _ => hin, id, fun b => ?_⟩
      by_cases hb : b = a
      · subst hb
        simp [State.setAcceptor, Acceptor.same]
      · simp [State.setAcceptor, hb, Acceptor.same]

theorem dispatchRead_of_step (hi : Sound s) (htodo : s.todo = [])
    (htodo' : s'.todo = Server.entered s.core s'.core) (hc : s.core.callback = none)
    (hpc : s.core.pc = .event (ev :: rest))
    (he : s'.core = { s.core with deleted := [] }.dispatchRead ev rest r) :
    Move s (.dispatch r w) s' := by
  have hh := held_of_reachable hi.careful
  have hmem : ev ∈ s.core.pc.waiting := by
    rw [hpc]
    exact List.mem_cons_self
  have hl := hh.waiting ev hmem
  have hin : s.core.pc ≠ .outside := by
    rw [hpc]
    nofun
  cases hev : ev.handler with
  | socket c =>
    rw [hev] at hl
    rw [State.dispatchRead_socket hev (by exact hl)] at he
    refine .read rfl htodo (htodo'.trans (entered_none (by rw [he]; exact hc))) hl
      (by rw [he]; rfl) ?_
    rw [he]
    exact ⟨fun _ => hin, id, fun _ => same_refl _⟩
  | acceptor a =>
    rw [hev] at hl
    rw [State.dispatchRead_acceptor hev (by exact hl)] at he
    refine quiet_of_step htodo htodo' (by rw [he]; exact hc) ?_ ?_
    · rw [he]
      exact (Calm.refl _).note trivial (fun _ => id) id
    · rw [he]
      exact ⟨fun _ => hin, id, fun _ => same_refl _⟩

theorem dispatchWrite_of_step (hi : Sound s) (htodo : s.todo = [])
    (htodo' : s'.todo = Server.entered s.core s'.core) (hc : s.core.callback = none)
    (hpc : s.core.pc = .output ev rest)
    (he : s'.core = s.core.dispatchWrite ev.handler rest w) : Move s (.dispatch r w) s' := by
  have hl := (held_of_reachable hi.careful).output ev rest hpc
  have hin : s.core.pc ≠ .outside := by
    rw [hpc]
    nofun
  cases hev : ev.handler with
  | socket c =>
    rw [hev] at hl he
    rw [State.dispatchWrite_socket (by exact hl)] at he
    refine .written rfl htodo (htodo'.trans (entered_none (by rw [he]; exact hc))) hl
      (by rw [he]; rfl) ?_
    rw [he]
    exact ⟨fun _ => hin, id, fun _ => same_refl _⟩
  | acceptor a =>
    rw [hev] at hl he
    rw [State.dispatchWrite_acceptor (by exact hl)] at he
    refine quiet_of_step htodo htodo' (by rw [he]; exact hc) ?_ ?_
    · rw [he]
      exact (Calm.refl _).note trivial (fun _ => id) id
    · rw [he]
      exact ⟨fun _ => hin, id, fun _ => same_refl _⟩

theorem dispatch_of_step (hi : Sound s) (htodo : s.todo = [])
    (hs : s.core.step (.dispatch r w) = some s'.core)
    (htodo' : s'.todo = Server.entered s.core s'.core) : Move s (.dispatch r w) s' := by
  obtain ⟨hc, hs⟩ := State.library_some hs
  -- the counter moves on
  have hgo : ∀ p, s.core.pc ≠ .outside → ¬ p.dead → s'.core = { s.core with pc := p } →
      Move s (.dispatch r w) s' := by
    intro p hin hd he
    refine quiet_of_step htodo htodo' (by rw [he]; exact hc) ?_ ?_
    · rw [he]
      exact .refl _
    · rw [he]
      exact ⟨fun _ => hin, hd, fun _ => same_refl _⟩
  unfold State.dispatch at hs
  split at hs
  · rename_i ev rest hpc
    split at hs
    · exact dispatchClose_of_step hi htodo htodo' hc hpc (Option.some.inj hs).symm
    · split at hs
      · exact dispatchRead_of_step hi htodo htodo' hc hpc (Option.some.inj hs).symm
      · exact hgo _ (by rw [hpc]; nofun) id (Option.some.inj hs).symm
  · rename_i ev rest hpc
    split at hs
    · exact dispatchWrite_of_step hi htodo htodo' hc hpc (Option.some.inj hs).symm
    · exact hgo _ (by rw [hpc]; nofun) id (Option.some.inj hs).symm
  · cases hs

end Dispatch

theorem same_setAcceptor {core : State Fn} {a : AccId} {err : Error} (b : AccId) :
    (core.acceptors b).same
      ((core.setAcceptor a { core.acceptors a with err := err }).acceptors b) := by
  by_cases hb : b = a
  · subst hb
    simp [State.setAcceptor, Acceptor.same]
  · simp [State.setAcceptor, hb, Acceptor.same]

theorem accept_of_step {r : AcceptResult} (hi : Sound s) (htodo : s.todo = [])
    (hs : s.core.step (.accept r) = some s'.core)
    (htodo' : s'.todo = Server.entered s.core s'.core) : Move s act s' := by
  obtain ⟨hc, hs⟩ := State.library_some hs
  unfold State.accept at hs
  split at hs
  · rename_i a ev rest hpc
    have hin : s.core.pc ≠ .outside := by
      rw [hpc]
      nofun
    obtain ⟨hev, hl⟩ := (held_of_reachable hi.careful).accepting a ev rest hpc
    rw [hev] at hl
    have hcb : ∀ err,
        ((s.core.setAcceptor a { s.core.acceptors a with err := err }).acceptors a).cb =
        some .onAccept := by
      intro err
      simpa [State.setAcceptor] using hi.doors hin a hl
    have hrests : ∀ {soc : Int} {p : Pc}, (p = .drainRead ev rest ∨ p = .acceptLoop a ev rest) →
        p.rests → soc = INVALID_SOCKET := by
      rintro soc p (rfl | rfl) hr
      · exact hr.elim
      · exact hr.elim
    have hdead : ∀ {p : Pc}, (p = .drainRead ev rest ∨ p = .acceptLoop a ev rest) → ¬ p.dead := by
      rintro p (rfl | rfl)
      · exact id
      · exact id
    have hopen : ∀ fd, Calm s.core.heap (s.core.heap.emit (.opened a .accept fd)) :=
      fun fd => (Calm.refl _).note trivial (fun _ => id) id
    rw [if_neg (by simp [hl])] at hs
    dsimp only at hs
    split at hs
    · split at hs
      · have he := (Option.some.inj hs).symm
        refine quiet_of_step htodo htodo' (by rw [he]; exact hc) ?_ ?_
        · rw [he]
          exact .refl _
        · rw [he]
          exact ⟨fun _ => hin, hdead (.inl rfl), same_setAcceptor⟩
      · exact accepted_of_step htodo htodo' hc (Option.some.inj hs).symm (hcb _) (.refl _)
          ⟨fun _ => hin, hdead (.inl rfl), same_setAcceptor⟩ (hrests (.inl rfl))
    · split at hs
      · split at hs
        · have he := (Option.some.inj hs).symm
          refine quiet_of_step htodo htodo' (by rw [he]; exact hc) ?_ ?_
          · rw [he]
            exact hopen _
          · rw [he]
            exact ⟨fun _ => hin, hdead (.inl rfl), same_setAcceptor⟩
        · exact accepted_of_step htodo htodo' hc (Option.some.inj hs).symm (hcb _) (hopen _)
            ⟨fun _ => hin, hdead (.inl rfl), same_setAcceptor⟩ (hrests (.inl rfl))
      · exact accepted_of_step htodo htodo' hc (Option.some.inj hs).symm (hcb _) (hopen _)
          ⟨fun _ => hin, hdead (.inr hpc), same_setAcceptor⟩ (hrests (.inr hpc))
  · cases hs

theorem draining_of_processCompletion {core core' : State Fn}
    (hs : core.step .processCompletion = some core') : core.callback = none ∧ core.pc.draining := by
  obtain ⟨hc, hs⟩ := State.library_some hs
  cases State.processCompletion_cases hs with
  | ends hd | faults hd | completes hd => exact ⟨hc, hd⟩

/-- A drain that finds the queue empty ends. -/
theorem drained_of_step {core core' : State Fn} (hq : core.heap.queue = [])
    (hs : core.step .processCompletion = some core') : ∃ p : Pc, ¬ p.dead ∧ ¬ p.draining ∧
      core' = { core with pc := p } := by
  obtain ⟨-, hs⟩ := State.library_some hs
  cases State.processCompletion_cases hs with
  | @ends p _ _ _ hp he =>
    refine ⟨p, ?_, fun hd => hd.not_steady hp, he⟩
    cases p <;> first | exact hp.elim | exact id
  | faults _ hq' | completes _ hq' => cases hq.symm.trans hq'

/-- A round of the drain calls back the first token of the queue. -/
theorem calls_of_completion {rest : List TokenId} (hi : Sound s)
    (hq : s.core.heap.queue = t :: rest) (hs : s.core.step .processCompletion = some s'.core)
    (htodo' : s'.todo = Server.entered s.core s'.core) : s'.core.pc = s.core.pc ∧
      Calls s s' (s.core.heap.complete t) t (s.core.heap.tok t).err (s.core.heap.tok t).ioSize
        .completion ∧ Runs s.core s'.core := by
  have hr := hi.careful
  have hb := (consistent_of_reachable hr).books
  have hmem : t ∈ s.core.heap.queue := by
    rw [hq]
    exact List.mem_cons_self
  have hmode := Mode.ne_none_of_finished ((hb.queued t).mp hmem)
  have hl : s.core.heap.live t.sock = true := by
    by_contra hl
    exact hmode (hb.gone t (Bool.of_not_eq_true hl))
  obtain ⟨cb, hcb, -⟩ := (State.delivers_of_reachable hr).busy t hmode
  obtain ⟨hc, hs⟩ := State.library_some hs
  have he : s'.core = (s.core.onHeap (·.complete t)).invoke t (s.core.heap.tok t).err
      (s.core.heap.tok t).ioSize .completion := by
    cases State.processCompletion_cases hs with
    | ends _ hq' => cases hq.symm.trans hq'
    | faults _ hq' hdead =>
      cases hq.symm.trans hq'
      exact absurd (hl.symm.trans hdead) (by decide)
    | completes _ hq' _ he =>
      cases hq.symm.trans hq'
      exact he
  have hcb' : ((s.core.onHeap (·.complete t)).heap.tok t).cb = (s.core.heap.tok t).cb := by
    simp [Heap.tok_complete]
  refine ⟨?_, calls_of_step hi htodo' hc he hcb hcb' hl
    ((held_of_reachable hr).queued t hmem), ?_⟩
  · rw [he, invoke_some (hcb'.trans hcb)]
    rfl
  · rw [he]
    exact runs_invoke ⟨fun h => h, hi.running, fun _ => same_refl _⟩ (hcb'.trans hcb)

theorem processCompletion_of_step (hi : Sound s) (htodo : s.todo = [])
    (hs : s.core.step .processCompletion = some s'.core)
    (htodo' : s'.todo = Server.entered s.core s'.core) : Move s .processCompletion s' := by
  obtain ⟨hc, hdr⟩ := draining_of_processCompletion hs
  cases hq : s.core.heap.queue with
  | nil =>
    obtain ⟨p, hd, -, he⟩ := drained_of_step hq hs
    refine quiet_of_step htodo htodo' (by rw [he]; exact hc) ?_ ?_
    · rw [he]
      exact .refl _
    · rw [he]
      refine ⟨fun _ hpc => ?_, hd, fun _ => same_refl _⟩
      rw [hpc] at hdr
      exact hdr
  | cons t rest =>
    obtain ⟨hpc, hcalls, hr⟩ := calls_of_completion hi hq hs htodo'
    exact .completed rfl htodo hq hdr hpc hcalls hr

theorem processTimer_of_step (hi : Sound s) (htodo : s.todo = [])
    (hs : s.core.step .processTimer = some s'.core)
    (htodo' : s'.todo = Server.entered s.core s'.core) : Move s act s' := by
  have hr := hi.careful
  have hb := (consistent_of_reachable hr).books
  obtain ⟨hc, hs⟩ := State.library_some hs
  unfold State.processTimer at hs
  split at hs
  · rename_i now hpc
    have hgo : s'.core = { s.core with pc := .poll } → Move s act s' := by
      intro he
      refine quiet_of_step htodo htodo' (by rw [he]; exact hc) ?_ ?_
      · rw [he]
        exact .refl _
      · rw [he]
        exact ⟨fun _ => by rw [hpc]; nofun, id, fun _ => same_refl _⟩
    split at hs
    · exact hgo (Option.some.inj hs).symm
    · rename_i t timers htimers
      have hmode := hb.timed t (by rw [htimers]; exact List.mem_cons_self)
      have hl : s.core.heap.live t.sock = true := by
        by_contra hl
        exact hmode (hb.gone t (Bool.of_not_eq_true hl))
      rw [if_neg (by simp [hl])] at hs
      split at hs
      · obtain ⟨cb, hcb, -⟩ := (State.delivers_of_reachable hr).busy t hmode
        have hsame : ((s.core.onHeap (·.expire t timers)).heap.tok t).cb =
            (s.core.heap.tok t).cb := by
          simp [Heap.tok_expire]
        have herr : ((s.core.onHeap (·.expire t timers)).heap.tok t).err =
            ⟨ETIMEDOUT, .timeout⟩ := by
          simp [Heap.tok_expire]
        dsimp only at hs
        rw [herr] at hs
        have he := (Option.some.inj hs).symm
        refine .expired htodo htimers (calls_of_step hi htodo' hc he hcb hsame hl ?_) ?_
        · rw [State.pc_onHeap, hpc]
          exact fun _ h => (List.not_mem_nil h).elim
        · rw [he]
          exact runs_invoke ⟨fun h => h, hi.running, fun _ => same_refl _⟩ (hsame.trans hcb)
      · exact hgo (Option.some.inj hs).symm
  · cases hs

theorem epollWait_of_step {r : PollResult} (htodo : s.todo = [])
    (hs : s.core.step (.epollWait r) = some s'.core)
    (htodo' : s'.todo = Server.entered s.core s'.core) : Move s act s' := by
  have hpc := State.poll_of_epollWait hs
  obtain ⟨hc, hs⟩ := State.library_some hs
  rw [if_pos hpc] at hs
  have hin : s.core.pc ≠ .outside := by
    rw [hpc]
    nofun
  have hclose : ∀ core : State Fn, core.heap = s.core.heap → core.callback = none →
      core.acceptors = s.core.acceptors → s'.core = { core.closeHandle with pc := .outside } →
      Move s act s' := by
    intro core hheap hcall hacc he
    unfold State.closeHandle at he
    split at he
    · refine quiet_of_step htodo htodo' (by rw [he]; exact hcall) ?_ ?_
      · rw [he]
        have hcalm : Calm s.core.heap core.heap := by
          rw [hheap]
          exact .refl _
        exact hcalm.note trivial (fun _ => id) id
      · rw [he]
        exact runs_of_acceptors hacc (fun _ => hin) id
    · refine quiet_of_step htodo htodo' (by rw [he]; exact hcall) ?_ ?_
      · rw [he]
        change Calm s.core.heap core.heap
        rw [hheap]
        exact .refl _
      · rw [he]
        exact runs_of_acceptors hacc (fun _ => hin) id
  unfold State.epollWait at hs
  split at hs
  · exact hclose s.core rfl hc rfl (Option.some.inj hs).symm
  · split at hs
    · rename_i errno _
      exact hclose { s.core with err := s.core.err.set errno (.fail .epollWait errno) } rfl hc rfl
        (Option.some.inj hs).symm
    · split at hs
      · have he := (Option.some.inj hs).symm
        refine quiet_of_step htodo htodo' (by rw [he]; exact hc) ?_ ?_
        · rw [he]
          exact .refl _
        · rw [he]
          exact ⟨fun _ => hin, id, fun _ => same_refl _⟩
      · cases hs
    · split at hs
      · have he := (Option.some.inj hs).symm
        refine quiet_of_step htodo htodo' (by rw [he]; exact hc) ?_ ?_
        · rw [he]
          exact (Calm.refl _).note trivial (fun _ => id) id
        · rw [he]
          exact ⟨fun _ => hin, id, fun _ => same_refl _⟩
      · cases hs

theorem library_of_step (hi : Sound s) (htodo : s.todo = []) (hlib : isLibrary act = true)
    (hs : s.core.step act = some s'.core) (htodo' : s'.todo = Server.entered s.core s'.core) :
    Move s act s' := by
  cases act with
  | ret =>
    dsimp only [State.step] at hs
    split at hs
    · have he := (Option.some.inj hs).symm
      refine quiet_of_step htodo htodo' (by rw [he]) ?_ ?_
      · rw [he]
        exact .refl _
      · rw [he]
        exact ⟨id, hi.running, fun _ => same_refl _⟩
    · cases hs
  | epollWait r => exact epollWait_of_step htodo hs htodo'
  | dispatch r w => exact dispatch_of_step hi htodo hs htodo'
  | accept r => exact accept_of_step hi htodo hs htodo'
  | processCompletion => exact processCompletion_of_step hi htodo hs htodo'
  | startTimer now =>
    obtain ⟨hc, hs⟩ := State.library_some hs
    unfold State.startTimer at hs
    split at hs
    · rename_i hpc
      have he := (Option.some.inj hs).symm
      refine quiet_of_step htodo htodo' (by rw [he]; exact hc) ?_ ?_
      · rw [he]
        exact .refl _
      · rw [he]
        exact ⟨fun _ => by rw [hpc]; nofun, id, fun _ => same_refl _⟩
    · cases hs
  | processTimer => exact processTimer_of_step hi htodo hs htodo'
  | _ => cases hlib

/-- Every step of a sound server is one of the moves. -/
theorem moves_of_step (hi : Sound s) (hs : s.step act = some s') : Move s act s' := by
  obtain ⟨hsig, hcore, htodo⟩ | ⟨st, rest, htodo, hp, hcore, htodo'⟩ |
    ⟨htodo, hlib, hcore, htodo'⟩ := Server.step_cases hs
  · exact signal_of_step hsig hcore htodo
  · exact statement_of_step hi htodo hp hcore htodo'
  · exact library_of_step hi htodo hlib hcore htodo'

end EchoBenchmark.Echo
