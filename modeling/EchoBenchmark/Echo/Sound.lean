import EchoBenchmark.Echo.Moves

/-!
The echo server is sound in every run: what `run` points at is there, and a client has exactly one
operation whenever its own callback does not run.
-/

namespace EchoBenchmark.Echo

open EchoBenchmark.Proactor
open EchoBenchmark.Proactor.Heap (Noted)
open History (Adds)

variable {s s' : Server} {act : Action Fn} {c : ClientId} {t : TokenId} {todo : List Stmt}

/-! ### The server is a careful user -/

theorem careful_of_statement {st : Stmt} {rest : List Stmt} (hi : Sound s)
    (htodo : s.todo = st :: rest) (hp : st.permits act) : s.core.careful act := by
  have hph := hi.phase
  rw [htodo] at hph
  cases hph with
  | starting hst _ _ _ =>
    unfold Starting at hst
    split at hst
    · rename_i heq
      cases heq
      obtain ⟨fd, errno, rfl⟩ := permits_create hp
      exact nofun
    · rename_i heq
      cases heq
      obtain rfl := permits_newServer hp
      exact nofun
    · rename_i heq
      cases heq
      obtain ⟨r, rfl⟩ := permits_startAccept hp
      exact nofun
    · rename_i heq
      cases heq
      obtain rfl := permits_run hp
      exact nofun
    · exact hst.elim
  | accepting _ _ =>
    obtain ⟨c, rtv, wtv, ctl, rfl⟩ := permits_newClient hp
    exact nofun
  | receiving _ hw _ hsoc =>
    obtain ⟨r, now, rfl⟩ := permits_startRecv hp
    rintro q ⟨⟩
    refine ⟨hw.apart, fun hr i hmem hh => ?_⟩
    -- a client without a descriptor is not in the epoll set
    obtain ⟨-, hfd, hne⟩ := State.watched_of_reachable hi.careful i hmem _ hh
    exact hne (hfd.symm.trans (hsoc hr))
  | copying _ _ _ _ _ _ =>
    obtain ⟨n, rfl, -⟩ := permits_memcpy hp
    exact nofun
  | writing _ hw _ hrest _ _ =>
    obtain ⟨w, now, rfl⟩ := permits_writeAll hp
    rintro q ⟨⟩
    exact ⟨hw.apart, fun hr => (hrest hr).elim⟩
  | closing _ _ =>
    obtain rfl := permits_close hp
    exact nofun
  | destroying _ hw _ hdel =>
    obtain rfl := permits_destroySocket hp
    exact ⟨hdel, hw.apart⟩

theorem careful_of_step (hi : Sound s) (hs : s.step act = some s') : s.core.careful act := by
  obtain ⟨hsig, -, -⟩ | ⟨st, rest, htodo, hp, -, -⟩ | ⟨-, hlib, -, -⟩ := Server.step_cases hs
  · cases act with
    | stop | environment => exact nofun
    | _ => cases hsig
  · exact careful_of_statement hi htodo hp
  · cases act with
    | ret | epollWait | dispatch | accept | processCompletion | startTimer | processTimer =>
      exact nofun
    | _ => cases hlib

/-! ### What the moves keep -/

namespace Calm

variable {h h' : Heap Fn}

theorem clients (hc : Calm h h') (hcl : Clients todo h) : Clients todo h' := by
  refine hcl.frame hc.noted.live (fun t => ?_) fun t => ?_
  · rw [hc.noted.tok]
  · rw [hc.noted.tok]

theorem history (hc : Calm h h') (hh : Chronicle h) : Chronicle h' :=
  hh.adds hc.lawful hc.noted.live

theorem idle (hc : Calm h h') (hi : Idle h c) : Idle h' c := by
  intro d
  rw [hc.noted.tok]
  exact hi d

end Calm

theorem Stays.runs {core core' : State Fn} (hk : Stays core core') (hr : runs core c) :
    runs core' c := by
  unfold Echo.runs
  rw [hk.callback]
  exact hr

theorem Stays.accepts {core core' : State Fn} (hk : Stays core core') (hr : accepts core) :
    accepts core' := by
  unfold Echo.accepts
  rw [hk.callback]
  exact hr

theorem Stays.works {core core' : State Fn} (hk : Stays core core') (hw : Works core c)
    (hl : core'.heap.live c = core.heap.live c) : Works core' c := by
  refine ⟨hl.trans hw.live, ?_⟩
  rw [hk.pc]
  exact hw.apart

theorem Starting.frame {core core' : State Fn} (hst : Starting todo core)
    (ha : core'.acceptors = core.acceptors) : Starting todo core' := by
  unfold Starting at hst
  split at hst
  · exact fun a => by rw [ha]; exact hst a
  · exact fun a => by rw [ha]; exact hst a
  · exact fun a => by rw [ha]; exact hst a
  · exact fun a => by rw [ha]; exact hst a
  · exact hst.elim

theorem Phase.signal {core core' : State Fn} (hp : Phase todo core) (hk : Stays core core')
    (hd : core'.deleted = core.deleted) (hc : Calm core.heap core'.heap)
    (hsoc : ∀ c, core'.heap.soc c = core.heap.soc c) : Phase todo core' := by
  cases hp with
  | starting hst hpc hcall hnew =>
    exact .starting (hst.frame hk.acceptors) (hk.pc.trans hpc) (hk.callback.trans hcall)
      fun c => (hc.noted.live c).trans (hnew c)
  | idle => exact .idle
  | accepting ha hr => exact .accepting (hk.accepts ha) (by rw [hk.pc]; exact hr)
  | receiving ha hw hidle hr =>
    refine .receiving (ha.imp hk.runs hk.accepts) (hk.works hw (hc.noted.live _))
      (hc.idle hidle) ?_
    rw [hk.pc, hsoc]
    exact hr
  | copying ha hw hidle hr hread hn =>
    refine .copying (hk.runs ha) (hk.works hw (hc.noted.live _)) (hc.idle hidle) ?_ ?_ hn
    · rw [hk.pc]
      exact hr
    · rw [hc.noted.tok]
      exact hread
  | writing ha hw hidle hr hread hn =>
    refine .writing (hk.runs ha) (hk.works hw (hc.noted.live _)) (hc.idle hidle) ?_ ?_ hn
    · rw [hk.pc]
      exact hr
    · rw [hc.noted.tok]
      exact hread
  | closing ha hw => exact .closing (hk.runs ha) (hk.works hw (hc.noted.live _))
  | destroying ha hw hs hdel =>
    refine .destroying (hk.runs ha) (hk.works hw (hc.noted.live _)) ?_ ?_
    · rw [hsoc]
      exact hs
    · rw [hd]
      exact hdel

/-! ### The moves keep the server sound -/

/-- The doors of the server after a step of `run`. -/
theorem Runs.listening {core core' : State Fn} (hr : Runs core core')
    (hd : core.pc ≠ .outside → ∀ a, (core.acceptors a).live = true →
      (core.acceptors a).cb = some .onAccept) :
    core'.pc ≠ .outside → ∀ a, (core'.acceptors a).live = true →
      (core'.acceptors a).cb = some .onAccept := by
  intro hpc a hl
  obtain ⟨hlive, -, hcb⟩ := hr.doors a
  rw [hlive] at hl
  rw [hcb]
  exact hd (hr.inside hpc) a hl

theorem Stays.listening {core core' : State Fn} (hk : Stays core core')
    (hd : core.pc ≠ .outside → ∀ a, (core.acceptors a).live = true →
      (core.acceptors a).cb = some .onAccept) :
    core'.pc ≠ .outside → ∀ a, (core'.acceptors a).live = true →
      (core'.acceptors a).cb = some .onAccept := by
  rw [hk.pc, hk.acceptors]
  exact hd

/-- What is left to prove of a step when the running function goes on. -/
theorem Sound.stays (hi : Sound s) (hs : s.step act = some s') (hk : Stays s.core s'.core)
    (hcl : Clients s'.todo s'.core.heap) (hph : Phase s'.todo s'.core)
    (hh : Chronicle s'.core.heap) : Sound s' where
  careful := hi.careful.step (careful_of_step hi hs) (Server.core_step hs)
  running := by
    rw [hk.pc]
    exact hi.running
  clients := hcl
  phase := hph
  doors := hk.listening hi.doors
  history := hh

/-- What is left to prove of a step when `run` goes on. -/
theorem Sound.runs (hi : Sound s) (hs : s.step act = some s') (hr : Runs s.core s'.core)
    (hcl : Clients s'.todo s'.core.heap) (hph : Phase s'.todo s'.core)
    (hh : Chronicle s'.core.heap) : Sound s' where
  careful := hi.careful.step (careful_of_step hi hs) (Server.core_step hs)
  running := hr.running
  clients := hcl
  phase := hph
  doors := hr.listening hi.doors
  history := hh

theorem serves_singleton {st : Stmt} : Serves [st] c ↔ st.client = some c := by
  simp [Serves]

theorem created_sound {soc : Int} {rtv wtv : Timeval} (hi : Sound s) (hs : s.step act = some s')
    (htodo : s.todo = [.newClient soc]) (htodo' : s'.todo = [.startRecv c])
    (hnew : s.core.heap.live c = false)
    (hc : Calm (s.core.heap.create c soc rtv wtv) s'.core.heap) (hsoc : s'.core.heap.soc c = soc)
    (hk : Stays s.core s'.core) : Sound s' := by
  have hlive : ∀ j, (s.core.heap.create c soc rtv wtv).live j =
      if j = c then true else s.core.heap.live j := by
    intro j
    by_cases hj : j = c
    · subst hj
      simp [Heap.live, Heap.create, Heap.emit]
    · rw [Heap.live_create hj, if_neg hj]
  refine hi.stays hs hk (hc.clients ?_) ?_ (hc.history ?_)
  · refine hi.clients.keep (fun t cb ht => ?_) fun j hl hser => ?_
    · rw [Heap.tok_create] at ht
      split at ht
      · simp [Token.new] at ht
      · exact hi.clients.bound t cb ht
    · have hj : j ≠ c := by
        rintro rfl
        rw [htodo', serves_singleton] at hser
        exact hser rfl
      rw [hlive, if_neg hj] at hl
      have hnone : ¬ Serves s.todo j := by
        rw [htodo, serves_singleton]
        intro h
        cases h
      refine ⟨hl, hnone, fun d => ?_⟩
      rw [Heap.tok_create, if_neg (by simpa using hj)]
      exact ⟨rfl, Iff.rfl⟩
  · have hph := hi.phase
    rw [htodo] at hph
    rw [htodo']
    cases hph with
    | starting hst _ _ _ => exact hst.elim
    | accepting ha hr =>
      refine .receiving (.inr (hk.accepts ha)) ⟨?_, fun ev hev he => ?_⟩ ?_ ?_
      · rw [hc.noted.live, hlive, if_pos rfl]
      · -- the batch points at objects that are there
        rw [hk.pc] at hev
        have hl := (held_of_reachable hi.careful).waiting ev hev
        rw [he] at hl
        exact absurd (hl.symm.trans hnew) (by decide)
      · refine hc.idle fun d => ?_
        rw [Heap.tok_create, if_pos rfl]
        rfl
      · rw [hk.pc, hsoc]
        exact hr
  · exact hi.history.created rfl hlive

theorem received_sound {r : ReadResult} {now : Timeval} (hi : Sound s)
    (hs : s.step act = some s') (htodo : s.todo = [.startRecv c]) (htodo' : s'.todo = [])
    (he : s'.core.heap =
      (s.core.heap.readSome c (recvBuf c) BUFSIZE (.onRead c) TIMEOUT_MS r now).1)
    (hk : Stays s.core s'.core) : Sound s' := by
  have hph := hi.phase
  rw [htodo] at hph
  cases hph with
  | starting hst _ _ _ => exact hst.elim
  | receiving _ _ hidle _ =>
    have ho : s.core.heap.Opens _
        (s.core.heap.readSome c (recvBuf c) BUFSIZE (.onRead c) TIMEOUT_MS r now) :=
      Heap.readSome_opens
    refine hi.stays hs hk ?_ ?_ ?_
    · rw [he]
      refine hi.clients.opens ho hidle rfl (.inl rfl) fun j hj hser => ?_
      rw [htodo, serves_singleton] at hser
      exact (hj (Option.some.inj hser).symm).elim
    · rw [htodo']
      exact .idle
    · rw [he]
      exact hi.history.adds (lawful_opens ho) ho.live

theorem copied_sound {n : Nat} (hi : Sound s) (hs : s.step act = some s')
    (htodo : s.todo = [.memcpy c n, .writeAll c n]) (htodo' : s'.todo = [.writeAll c n])
    (he : s'.core.heap = s.core.heap.memcpy (sendBuf c) (recvBuf c) n)
    (hk : Stays s.core s'.core) : Sound s' := by
  have hph := hi.phase
  rw [htodo] at hph
  cases hph with
  | starting hst _ _ _ => exact hst.elim
  | copying ha hw hidle hr hread hn =>
    refine hi.stays hs hk ?_ ?_ ?_
    · rw [he, htodo']
      refine (hi.clients.serving fun j hser => ?_).frame (fun _ => rfl) (fun _ => rfl)
        fun _ => Iff.rfl
      rw [htodo] at hser
      simpa [Serves, Stmt.client] using hser
    · rw [htodo']
      refine .writing (hk.runs ha) (hk.works hw ?_) ?_ ?_ ?_ hn
      · rw [he]
        rfl
      · rw [he]
        exact hidle
      · rw [hk.pc]
        exact hr
      · rw [he]
        exact hread
    · rw [he]
      have hcopied : Event.lawful s.core.heap (.copied (sendBuf c) (recvBuf c) n) := by
        refine ⟨fun _ => ⟨?_, ?_⟩, fun _ => False.elim⟩ <;>
          (intro h; cases h)
      exact hi.history.adds (Adds.refl.cons hcopied) fun _ => rfl

theorem wrote_sound {n : Int} {w : WriteResult} {now : Timeval} (hi : Sound s)
    (hs : s.step act = some s') (htodo : s.todo = [.writeAll c n]) (htodo' : s'.todo = [])
    (he : s'.core.heap =
      (s.core.heap.writeAll c (sendBuf c) n (.onWrite c) TIMEOUT_MS w now).1)
    (hk : Stays s.core s'.core) : Sound s' := by
  have hph := hi.phase
  rw [htodo] at hph
  cases hph with
  | starting hst _ _ _ => exact hst.elim
  | writing _ _ hidle _ hread _ =>
    have ho : s.core.heap.Opens _
        (s.core.heap.writeAll c (sendBuf c) n (.onWrite c) TIMEOUT_MS w now) :=
      Heap.writeAll_opens
    refine hi.stays hs hk ?_ ?_ ?_
    · rw [he]
      refine hi.clients.opens ho hidle rfl (.inr hread) fun j hj hser => ?_
      rw [htodo, serves_singleton] at hser
      exact (hj (Option.some.inj hser).symm).elim
    · rw [htodo']
      exact .idle
    · rw [he]
      exact hi.history.adds (lawful_opens ho) ho.live

theorem serves_deleteClient : Serves (deleteClient c) c :=
  ⟨.close c, List.mem_cons_self, rfl⟩

theorem closed_sound (hi : Sound s) (hs : s.step act = some s') (htodo : s.todo = deleteClient c)
    (htodo' : s'.todo = [.destroySocket c]) (hc : Calm s.core.heap s'.core.heap)
    (hsoc : s'.core.heap.soc c = INVALID_SOCKET) (hdel : .socket c ∈ s'.core.deleted)
    (hk : Stays s.core s'.core) : Sound s' := by
  have hph := hi.phase
  rw [htodo] at hph
  cases hph with
  | starting hst _ _ _ => exact hst.elim
  | closing ha hw =>
    refine hi.stays hs hk (hc.clients ?_) ?_ (hc.history hi.history)
    · rw [htodo']
      refine hi.clients.serving fun j hser => ?_
      rw [htodo] at hser
      simpa [Serves, Stmt.client, deleteClient] using hser
    · rw [htodo']
      exact .destroying (hk.runs ha) (hk.works hw (hc.noted.live c)) hsoc hdel

theorem destroyed_sound (hi : Sound s) (hs : s.step act = some s')
    (htodo : s.todo = [.destroySocket c]) (htodo' : s'.todo = [])
    (he : s'.core.heap = (s.core.heap.unlink c).release c) (hk : Stays s.core s'.core) :
    Sound s' := by
  have hph := hi.phase
  rw [htodo] at hph
  have hlive : ∀ j, s'.core.heap.live j = if j = c then false else s.core.heap.live j := by
    intro j
    rw [he, Heap.live_release, Heap.live_unlink]
  cases hph with
  | starting hst _ _ _ => exact hst.elim
  | destroying _ hw _ _ =>
    refine hi.stays hs hk ?_ ?_ ?_
    · refine hi.clients.keep (fun t cb ht => ?_) fun j hl _ => ?_
      · rw [he, Heap.tok_release] at ht
        split at ht
        · cases ht
        · rw [Heap.tok_unlink] at ht
          exact hi.clients.bound t cb ht
      · have hj : j ≠ c := by
          rintro rfl
          rw [hlive, if_pos rfl] at hl
          cases hl
        rw [hlive, if_neg hj] at hl
        refine ⟨hl, ?_, fun d => ?_⟩
        · rw [htodo, serves_singleton]
          exact fun h => hj (Option.some.inj h).symm
        · rw [he, Heap.tok_release, if_neg (by simpa using hj), Heap.tok_unlink]
          exact ⟨rfl, Iff.rfl⟩
    · rw [htodo']
      exact .idle
    · refine hi.history.destroyed hw.live ?_ hlive
      rw [he]
      exact congrArg (Event.destroyed c :: ·) Heap.log_unlink

/-- An event of a client that has an operation, or none in its direction. -/
theorem progressed_sound {m : Method} (hi : Sound s) (hs : s.step act = some s')
    (htodo : s.todo = []) (htodo' : s'.todo = []) (hl : s.core.heap.live t.sock = true)
    (hp : (s.core.heap.emit (.dispatched (.socket t.sock) m)).Progresses t s'.core.heap)
    (hr : Runs s.core s'.core) : Sound s' := by
  refine hi.runs hs hr ?_ ?_ ?_
  · rw [htodo']
    have hnoted : Clients s.todo (s.core.heap.emit (.dispatched (.socket t.sock) m)) :=
      hi.clients.frame (fun _ => rfl) (fun _ => rfl) fun _ => Iff.rfl
    rw [htodo] at hnoted
    exact hnoted.progresses hp
  · rw [htodo']
    exact .idle
  · have hdis : Event.lawful s.core.heap (.dispatched (.socket t.sock) m) := by
      refine ⟨fun _ => ⟨nofun, nofun⟩, ?_⟩
      rintro c (rfl : t.sock = c)
      exact hl
    exact hi.history.adds ((Adds.refl.cons hdis).trans (lawful_progresses hp)) hp.live

/-! ### Callbacks -/

section Callbacks

variable {cb : Callback Fn} {err : Error} {bytes : Int} {via : Via}

theorem body_serves (hf : cb.fn = Fn.of t) :
    Serves (body (.io t cb err bytes via)) t.sock := by
  obtain ⟨i, f⟩ := cb
  obtain ⟨c, d⟩ := t
  dsimp only at hf
  subst hf
  cases d with
  | read =>
    simp only [Fn.of, body, onRead]
    split
    · exact serves_deleteClient
    · split
      · exact serves_deleteClient
      · exact ⟨_, List.mem_cons_self, rfl⟩
  | write =>
    simp only [Fn.of, body, onWrite]
    split
    · exact serves_deleteClient
    · split
      · exact serves_deleteClient
      · exact ⟨_, List.mem_cons_self, rfl⟩

/-- A callback with an error deletes its client. -/
theorem body_error (hf : cb.fn = Fn.of t) (he : err.code ≠ 0) :
    body (.io t cb err bytes via) = deleteClient t.sock := by
  obtain ⟨i, f⟩ := cb
  obtain ⟨c, d⟩ := t
  dsimp only at hf
  subst hf
  cases d with
  | read => simp [Fn.of, body, onRead, he]
  | write => simp [Fn.of, body, onWrite, he]

theorem called_sound {h : Heap Fn} (hi : Sound s) (hs : s.step act = some s')
    (htodo : s.todo = []) (hcalls : Calls s s' h t err bytes via) (hr : Runs s.core s'.core)
    (hlive : ∀ j, h.live j = s.core.heap.live j)
    (htok : ∀ u : TokenId, u.sock ≠ t.sock → h.tok u = s.core.heap.tok u)
    (hcb : ∀ u, (h.tok u).cb = (s.core.heap.tok u).cb)
    (hlog : Adds (Event.lawful s.core.heap) s.core.heap.log h.log)
    (hph : Phase s'.todo s'.core) : Sound s' := by
  obtain ⟨cb, -, hf, -, hheap, htodo'⟩ := hcalls.cb
  refine hi.runs hs hr ?_ hph ?_
  · rw [hheap]
    have hcl := hi.clients
    rw [htodo] at hcl
    refine hcl.serve (t := t) hlive htok hcb fun c hser => ⟨?_, serves_nil⟩
    rintro rfl
    rw [htodo'] at hser
    exact hser (body_serves hf)
  · rw [hheap]
    refine hi.history.adds (hlog.cons ⟨fun _ => ⟨nofun, nofun⟩, ?_⟩) hlive
    rintro c (rfl : t.sock = c)
    exact hcalls.live

theorem Calls.runs {h : Heap Fn} (hcalls : Calls s s' h t err bytes via) :
    runs s'.core t.sock := by
  obtain ⟨cb, -, -, hcall, -, -⟩ := hcalls.cb
  exact ⟨t, cb, err, bytes, via, hcall, rfl⟩

theorem Calls.works {h : Heap Fn} (hcalls : Calls s s' h t err bytes via)
    (hlive : ∀ j, h.live j = s.core.heap.live j) : Works s'.core t.sock := by
  obtain ⟨cb, -, -, -, hheap, -⟩ := hcalls.cb
  refine ⟨?_, hcalls.apart⟩
  rw [hheap]
  exact (hlive _).trans hcalls.live

/-- A callback with an error. -/
theorem Calls.closing {h : Heap Fn} (hcalls : Calls s s' h t err bytes via)
    (hlive : ∀ j, h.live j = s.core.heap.live j) (he : err.code ≠ 0) : Phase s'.todo s'.core := by
  obtain ⟨cb, -, hf, -, -, htodo'⟩ := hcalls.cb
  rw [htodo', body_error hf he]
  exact .closing hcalls.runs (hcalls.works hlive)

end Callbacks

theorem not_rests_of_draining {p : Pc} (hd : p.draining) : ¬ p.rests := by
  cases p with
  | drainRead | drainWrite => exact id
  | _ => exact hd.elim

/-- The operation that completes was the only one of its client. -/
theorem idle_complete (hi : Sound s) (htodo : s.todo = []) {rest : List TokenId}
    (hq : s.core.heap.queue = t :: rest) (hl : s.core.heap.live t.sock = true) :
    Idle (s.core.heap.complete t) t.sock := by
  have hb := (consistent_of_reachable hi.careful).books
  have hmode := Mode.ne_none_of_finished ((hb.queued t).mp (by rw [hq]; exact List.mem_cons_self))
  obtain ⟨d, hd, hother⟩ := hi.clients.busy t.sock hl (by rw [htodo]; exact serves_nil)
  have hdir : t.dir = d := by
    by_contra hne
    exact hmode (hother t.dir hne)
  intro d'
  rw [Heap.tok_complete]
  split
  · rfl
  · rename_i hne
    refine hother d' fun he => hne ?_
    rw [he, ← hdir]

theorem completed_phase {rest : List TokenId} (hi : Sound s) (htodo : s.todo = [])
    (hq : s.core.heap.queue = t :: rest) (hd : s.core.pc.draining)
    (hpc : s'.core.pc = s.core.pc)
    (hcalls : Calls s s' (s.core.heap.complete t) t (s.core.heap.tok t).err
      (s.core.heap.tok t).ioSize .completion) : Phase s'.todo s'.core := by
  have hruns := hcalls.runs
  have hworks := hcalls.works fun _ => Heap.live_complete
  have hclosing := hcalls.closing fun _ => Heap.live_complete
  have hidle := idle_complete hi htodo hq hcalls.live
  have hrests : ¬ s'.core.pc.rests := by
    rw [hpc]
    exact not_rests_of_draining hd
  obtain ⟨cb, hcb, hf, -, hheap, htodo'⟩ := hcalls.cb
  by_cases herr : (s.core.heap.tok t).err.code = 0
  · have hidle' : Idle s'.core.heap t.sock := by
      rw [hheap]
      exact hidle
    have hread : t.dir = .read → ∃ cb, (s'.core.heap.tok ⟨t.sock, .read⟩).cb = some cb := by
      intro hdir
      have ht : (⟨t.sock, .read⟩ : TokenId) = t := by rw [← hdir]
      refine ⟨cb, ?_⟩
      rw [hheap, Heap.tok_emit, Heap.tok_complete, if_pos ht]
      exact hcb
    rw [htodo']
    obtain ⟨i, f⟩ := cb
    obtain ⟨c, d⟩ := t
    dsimp only at hf
    subst hf
    cases d with
    | read =>
      simp only [Fn.of, body, onRead, herr, ne_eq, not_true_eq_false, if_false]
      split
      · exact .closing hruns hworks
      · rename_i hpos
        exact .copying hruns hworks hidle' hrests (hread rfl) (not_le.mp hpos)
    | write =>
      simp only [Fn.of, body, onWrite, herr, ne_eq, not_true_eq_false, if_false]
      split
      · exact .closing hruns hworks
      · exact .receiving (.inl hruns) hworks hidle' fun hr => (hrests hr).elim
  · exact hclosing herr

theorem Sound.step (hi : Sound s) (hs : s.step act = some s') : Sound s' := by
  cases moves_of_step hi hs with
  | signal _ htodo hc hk hdel hsoc =>
    refine hi.stays hs hk (hc.clients ?_) ?_ (hc.history hi.history)
    · rw [htodo]
      exact hi.clients
    · rw [htodo]
      exact hi.phase.signal hk hdel hc hsoc
  | starts _ hnew hc hph hdead hdoors =>
    refine ⟨hi.careful.step (careful_of_step hi hs) (Server.core_step hs), hdead, ?_, hph, hdoors,
      hc.history hi.history⟩
    refine (hc.clients hi.clients).keep (hc.clients hi.clients).bound fun c hl _ => ?_
    rw [hc.noted.live, hnew] at hl
    cases hl
  | quiet htodo htodo' hc hr =>
    refine hi.runs hs hr (hc.clients ?_) ?_ (hc.history hi.history)
    · rw [htodo', ← htodo]
      exact hi.clients
    · rw [htodo']
      exact .idle
  | accepted htodo htodo' hc hr ha hsoc =>
    refine hi.runs hs hr (hc.clients ?_) ?_ (hc.history hi.history)
    · refine hi.clients.serving fun c hser => ?_
      rw [htodo] at hser
      exact (serves_nil hser).elim
    · rw [htodo']
      exact .accepting ha hsoc
  | created _ htodo htodo' hnew hc hsoc hk =>
    exact created_sound hi hs htodo htodo' hnew hc hsoc hk
  | received _ htodo htodo' he hk => exact received_sound hi hs htodo htodo' he hk
  | copied htodo htodo' he hk => exact copied_sound hi hs htodo htodo' he hk
  | wrote htodo htodo' he hk => exact wrote_sound hi hs htodo htodo' he hk
  | closed htodo htodo' hc hsoc hdel hk =>
    exact closed_sound hi hs htodo htodo' hc hsoc hdel hk
  | destroyed htodo htodo' he hk => exact destroyed_sound hi hs htodo htodo' he hk
  | read _ htodo htodo' hl he hr =>
    refine progressed_sound (t := ⟨_, .read⟩) (m := .onRead) hi hs htodo htodo' hl ?_ hr
    rw [he]
    exact Heap.onRead_progresses
  | written _ htodo htodo' hl he hr =>
    refine progressed_sound (t := ⟨_, .write⟩) (m := .onWrite) hi hs htodo htodo' hl ?_ hr
    rw [he]
    exact Heap.onWrite_progresses
  | @completed t rest _ htodo hq hd hpc hcalls hr =>
    refine called_sound hi hs htodo hcalls hr (fun _ => Heap.live_complete) (fun u hu => ?_)
      (fun u => ?_) .refl (completed_phase hi htodo hq hd hpc hcalls)
    · rw [Heap.tok_complete, if_neg fun he => hu (congrArg TokenId.sock he)]
    · rw [Heap.tok_complete]
      split
      · rename_i he
        rw [he]
      · rfl
  | @expired t timers htodo _ hcalls hr =>
    refine called_sound hi hs htodo hcalls hr (fun _ => Heap.live_expire timers)
      (fun u hu => ?_) (fun u => ?_) .refl
      (hcalls.closing (fun _ => Heap.live_expire timers) (by decide))
    · rw [Heap.tok_expire, if_neg fun he => hu (congrArg TokenId.sock he)]
    · rw [Heap.tok_expire]
      split
      · rename_i he
        rw [he]
      · rfl
  | @hungup c htodo hcalls hr =>
    have hl := hcalls.live
    have htok := fun u => State.tok_resetErrs (s.core.emit (.dispatched (.socket c) .onClose)) c u
    have hlive : ∀ j, ((s.core.emit (.dispatched (.socket c) .onClose)).resetErrs c).heap.live j =
        s.core.heap.live j := fun j => (Heap.live_setErr _).trans (Heap.live_setErr _)
    refine called_sound hi hs htodo hcalls hr hlive (fun u hu => ?_) (fun u => ?_) ?_
      (hcalls.closing hlive (by decide))
    · exact (htok u).trans (if_neg hu)
    · refine (congrArg Token.cb (htok u)).trans ?_
      split <;> rfl
    · refine Adds.refl.cons ⟨fun _ => ⟨nofun, nofun⟩, ?_⟩
      rintro j (rfl : c = j)
      exact hl

theorem sound_initial (mem : Mem) : Sound (Server.initial mem) where
  careful := .start ⟨mem, rfl⟩
  running := id
  clients := by
    refine ⟨fun _ hl => (Bool.false_ne_true hl).elim, fun t _ ht => ?_,
      fun _ hl => (Bool.false_ne_true hl).elim⟩
    obtain ⟨c, d⟩ := t
    cases d <;> cases ht
  phase := .starting (fun _ => rfl) rfl rfl fun _ => rfl
  doors h := (h rfl).elim
  history := ⟨fun _ => ⟨False.elim, fun h => (Bool.false_ne_true h).elim⟩, fun _ => trivial⟩

theorem sound_of_reachable (hr : echo.Reachable Machine.free s) : Sound s := by
  apply hr.invariant (I := Sound)
  · rintro s₀ ⟨mem, rfl⟩
    exact sound_initial mem
  · intro s₀ act s₁ _ hi _ hs
    exact hi.step hs

/-! ### The life of a client -/

/-- The token has an operation that waits or whose completion is due. -/
def outstanding (h : Heap Fn) (t : TokenId) : Prop := (h.tok t).mode.pending ∨ t ∈ h.queue

theorem outstanding_iff {h : Heap Fn} (hb : h.Books) :
    outstanding h t ↔ (h.tok t).mode ≠ .none := by
  rw [outstanding, hb.queued]
  constructor
  · rintro (hp | hf)
    · exact Mode.ne_none_of_pending hp
    · exact Mode.ne_none_of_finished hf
  · intro hm
    by_cases hf : (h.tok t).mode.finished
    · exact .inr hf
    · exact .inl (Mode.pending_of_not_finished hm hf)

/-- The running function works on a client in one of its callbacks or in the accept callback. -/
theorem Phase.serves {core : State Fn} (hp : Phase todo core) (hs : Serves todo c) :
    runs core c ∨ accepts core ∧ todo = [.startRecv c] := by
  cases hp with
  | starting hst _ _ _ =>
    unfold Starting at hst
    split at hst
    · simp [Serves, Stmt.client] at hs
    · simp [Serves, Stmt.client] at hs
    · simp [Serves, Stmt.client] at hs
    · simp [Serves, Stmt.client] at hs
    · exact hst.elim
  | idle => exact (serves_nil hs).elim
  | accepting => simp [Serves, Stmt.client] at hs
  | receiving ha =>
    rw [serves_singleton] at hs
    cases hs
    exact ha.imp id fun ha => ⟨ha, rfl⟩
  | copying ha =>
    simp only [Serves, List.mem_cons, List.not_mem_nil, or_false, exists_eq_or_imp, Stmt.client,
      Option.some.injEq, exists_eq_left, or_self] at hs
    exact .inl (hs ▸ ha)
  | writing ha | destroying ha =>
    rw [serves_singleton] at hs
    cases hs
    exact .inl ha
  | closing ha =>
    simp only [Serves, deleteClient, List.mem_cons, List.not_mem_nil, or_false, exists_eq_or_imp,
      Stmt.client, Option.some.injEq, exists_eq_left, or_self] at hs
    exact .inl (hs ▸ ha)

/-- Outside of its own callbacks and of the accept callback that has still to start it, a client
has exactly one operation. Clients are deleted, dispatched to and called back only while they are
there, each callback is a method of the client whose token completes, and `run` uses no object
that is gone. -/
theorem client_lifetime (hr : echo.Reachable Machine.free s) :
    (∀ c, s.core.heap.live c = true → ¬ runs s.core c →
      ¬ (accepts s.core ∧ s.todo = [.startRecv c]) → ∃! d, outstanding s.core.heap ⟨c, d⟩) ∧
    (∀ c, UsedAlive c s.core.heap.log) ∧
    (∀ t cb, (s.core.heap.tok t).cb = some cb → cb.fn = Fn.of t) ∧ ¬ s.core.pc.dead := by
  have hi := sound_of_reachable hr
  have hb := (consistent_of_reachable hi.careful).books
  refine ⟨fun c hl hruns haccepts => ?_, hi.history.used, hi.clients.bound, hi.running⟩
  obtain ⟨d, hd, hother⟩ := hi.clients.busy c hl fun hser =>
    (hi.phase.serves hser).elim hruns haccepts
  refine ⟨d, (outstanding_iff hb).mpr hd, fun d' hd' => ?_⟩
  by_contra hne
  exact (outstanding_iff hb).mp hd' (hother d' hne)

/-- The server with the Acceptor on descriptor 4, at its first `epoll_wait`. -/
def serving : List (Action Fn) :=
  [.epollCreate 3 0, .createAcceptor 0 (-1), .listen 0 .onAccept ⟨.ok 4, 0, .ok, 0, 0, 0⟩, .run]

/-- The round of `run` in which client `c` is accepted on descriptor `fd` and has to wait. -/
def acceptRound (c : ClientId) (fd : Int) : List (Action Fn) :=
  [.epollWait (.events [⟨4, .acceptor 0, ⟨true, false, false, false, false⟩⟩]),
    .dispatch (.got []) (.accepted 0), .accept (.conn fd .ok), .create c fd ⟨0, 0⟩ ⟨0, 0⟩ 0,
    .readSome c (recvBuf c) 1024 (.onRead c) 5000 (.fail EAGAIN) ⟨10, 0⟩, .ret,
    .accept (.fail EAGAIN), .processCompletion, .dispatch (.got []) (.accepted 0),
    .startTimer ⟨11, 0⟩, .processTimer]

/-- One client is deleted on a hang-up while another waits. -/
theorem client_lifetime_hangup : ∃ s, echo.Reachable Machine.free s ∧ s.core.pc = .poll ∧
    .destroyed 0 ∈ s.core.heap.log ∧ (∃! d, outstanding s.core.heap ⟨1, d⟩) ∧
    UsedAlive 0 s.core.heap.log := by
  obtain ⟨s, hr, hf⟩ := Machine.exists_of_exec (M := echo) (p := Machine.free)
    (s := Server.initial fun _ _ => 0)
    (l := serving ++ acceptRound 0 5 ++ acceptRound 1 6 ++
      [.epollWait (.events [⟨5, .socket 0, ⟨false, false, false, false, true⟩⟩]),
        .dispatch (.got []) (.accepted 0), .close 0, .destroy 0, .ret, .startTimer ⟨11, 0⟩,
        .processTimer])
    (f := fun s => (s.core.pc, s.core.callback.isNone, s.core.heap.live 1,
      decide (.destroyed 0 ∈ s.core.heap.log)))
    (b := (.poll, true, true, true)) ⟨_, rfl⟩ rfl
  simp only [Prod.mk.injEq] at hf
  obtain ⟨hpc, hc, hl, hdel⟩ := hf
  have hc := Option.isNone_iff_eq_none.mp hc
  obtain ⟨hone, hused, -, -⟩ := client_lifetime hr
  refine ⟨s, hr, hpc, of_decide_eq_true hdel, hone 1 hl ?_ ?_, hused 0⟩
  · rintro ⟨t, cb, err, bytes, via, hcall, -⟩
    rw [hc] at hcall
    cases hcall
  · rintro ⟨⟨a, fn, err, soc, hcall⟩, -⟩
    rw [hc] at hcall
    cases hcall

end EchoBenchmark.Echo
