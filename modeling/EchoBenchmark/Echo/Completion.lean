import EchoBenchmark.Echo.Sound
import Mathlib.Algebra.BigOperators.Ring.List
import Mathlib.Algebra.Order.BigOperators.Group.List
import Mathlib.Algebra.Order.Ring.Nat

/-!
`_processCompletion` drains a queue that the callbacks of the echo server refill. Each round has a
callback to pay for, and what a callback may add to the queue is paid by the bytes that it reads.
-/

namespace EchoBenchmark.Echo

open EchoBenchmark.Proactor

variable {s s' : Server} {act : Action Fn} {c : ClientId} {t : TokenId}

instance (p : Pc) : Decidable p.draining := by
  apply @Pc.casesOn _ p <;> (intros; dsimp only [Pc.draining]; infer_instance)

instance (s : State Fn) : Decidable (accepts s) :=
  match h : s.callback with
  | some (.accept a fn err soc) => isTrue ⟨a, fn, err, soc, h⟩
  | some (.io ..) => isFalse fun ⟨_, _, _, _, h'⟩ => by
    rw [h] at h'
    cases h'
  | none => isFalse fun ⟨_, _, _, _, h'⟩ => by
    rw [h] at h'
    cases h'

/-- `_processCompletion` runs, or a callback that it called. -/
def completing (s : Server) : Prop := s.core.pc.draining ∧ ¬ accepts s.core

instance (s : Server) : Decidable (completing s) := inferInstanceAs (Decidable (_ ∧ _))

/-- The guard of the runs of one call of `_processCompletion`. -/
def whileCompleting (s : Server) (_ : Action Fn) : Prop := completing s

instance (s : Server) (act : Action Fn) : Decidable (whileCompleting s act) :=
  inferInstanceAs (Decidable (completing s))

/-- The steps of the call; signals and the network take none. -/
def effort (act : Action Fn) : Nat := if isSignal act then 0 else 1

/-- The bytes that an action takes from the kernel. -/
def bytesOf : Action Fn → Nat
  | .readSome _ _ _ _ _ r _ => r.bytes.length
  | _ => 0

/-- What the program does next, with the answers of the kernel and of the clock. -/
def Server.next (s : Server) (r : ReadResult) (w : WriteResult) (now : Timeval) : Action Fn :=
  match s.todo with
  | .startRecv c :: _ => .readSome c (recvBuf c) BUFSIZE (.onRead c) TIMEOUT_MS r now
  | .memcpy c n :: _ => .memcpy (sendBuf c) (recvBuf c) n.toNat
  | .writeAll c n :: _ => .writeAll c (sendBuf c) n (.onWrite c) TIMEOUT_MS w now
  | .close c :: _ => .close c
  | .destroySocket c :: _ => .destroy c
  | _ => if s.core.callback.isSome then .ret else .processCompletion

/-! ### The load of the queue -/

/-- The callbacks that a queued token can lead to: after the last byte is read, a read ends its
client, a write leads to a read, and a read with bytes to a write. -/
def weight (h : Heap Fn) (t : TokenId) : Nat :=
  match t.dir with
  | .write => 2
  | .read => if 0 < (h.tok t).ioSize then 3 else 1

/-- The steps that a call can lead to, but for those that the bytes it reads pay for. -/
def Stmt.cost : Stmt → Nat
  | .create | .newServer | .startAccept | .run => 0
  | .newClient _ | .memcpy .. | .close _ | .destroySocket _ => 1
  | .startRecv _ => 5
  | .writeAll .. => 9

/-- The steps that the queue and the running callback can lead to. -/
def load (s : Server) : Nat :=
  4 * (s.core.heap.queue.map (weight s.core.heap)).sum + (s.todo.map Stmt.cost).sum +
    if s.core.callback.isSome then 1 else 0

theorem weight_le (h : Heap Fn) (t : TokenId) : weight h t ≤ 3 := by
  unfold weight
  split
  · decide
  · split <;> decide

theorem weight_congr {h h' : Heap Fn} (ht : h'.tok t = h.tok t) : weight h' t = weight h t := by
  unfold weight
  rw [ht]

theorem sum_weight_le (h : Heap Fn) (ts : List TokenId) :
    (ts.map (weight h)).sum ≤ 3 * ts.length := by
  induction ts with
  | nil => exact Nat.zero_le _
  | cons t ts ih =>
    have := weight_le h t
    simp only [List.map_cons, List.sum_cons, List.length_cons]
    omega

theorem sum_weight_congr {h h' : Heap Fn} {ts : List TokenId}
    (htok : ∀ t ∈ ts, h'.tok t = h.tok t) :
    (ts.map (weight h')).sum = (ts.map (weight h)).sum := by
  congr 1
  exact List.map_congr_left fun t ht => weight_congr (htok t ht)

theorem sum_weight_sublist {h : Heap Fn} {ts us : List TokenId} (hs : ts.Sublist us) :
    (ts.map (weight h)).sum ≤ (us.map (weight h)).sum :=
  (hs.map _).sum_le_sum fun _ _ => Nat.zero_le _

/-- The load is bounded by the length of the queue. -/
theorem load_le (hp : Phase s.todo s.core) : load s ≤ 12 * s.core.heap.queue.length + 11 := by
  have hsum := sum_weight_le s.core.heap s.core.heap.queue
  have htodo : (s.todo.map Stmt.cost).sum ≤ 10 := by
    generalize s.todo = todo at hp
    cases hp with
    | starting hst _ _ _ =>
      unfold Starting at hst
      split at hst
      · decide
      · decide
      · decide
      · decide
      · exact hst.elim
    | _ => simp [Stmt.cost, deleteClient]
  have hcall : (if s.core.callback.isSome then 1 else 0) ≤ 1 := by split <;> decide
  unfold load
  omega

/-! ### One step of the call -/

theorem completing_of_stays (hc : completing s) (hk : Stays s.core s'.core) : completing s' := by
  refine ⟨by rw [hk.pc]; exact hc.1, ?_⟩
  unfold accepts
  rw [hk.callback]
  exact hc.2

/-- What a call of the running function does to the load, by what it does to the queue. -/
theorem load_of_stays {n : Nat} (hk : Stays s.core s'.core)
    (hq : (s'.core.heap.queue.map (weight s'.core.heap)).sum ≤
      (s.core.heap.queue.map (weight s.core.heap)).sum + n)
    (hcost : (s'.todo.map Stmt.cost).sum + 4 * n + effort act ≤
      (s.todo.map Stmt.cost).sum + 8 * bytesOf act) :
    load s' + effort act ≤ load s + 8 * bytesOf act := by
  unfold load
  rw [hk.callback]
  omega

theorem queue_of_calm {h h' : Heap Fn} (hc : Calm h h') :
    (h'.queue.map (weight h')).sum = (h.queue.map (weight h)).sum := by
  rw [hc.noted.queue]
  exact sum_weight_congr fun t _ => hc.noted.tok t

/-- A read that its client starts pays for what it adds to the queue. -/
theorem queue_of_readSome {h : Heap Fn} {r : ReadResult} {now : Timeval} (hb : h.Books)
    (hidle : Idle h c) :
    let h' := (h.readSome c (recvBuf c) BUFSIZE (.onRead c) TIMEOUT_MS r now).1
    (h'.queue.map (weight h')).sum ≤
      (h.queue.map (weight h)).sum + (1 + 2 * r.bytes.length) := by
  have hm := hidle .read
  have hnq : ⟨c, .read⟩ ∉ h.queue := hb.not_queued (Mode.not_finished_of_none hm)
  have hother : ∀ t ∈ h.queue,
      (h.readSome c (recvBuf c) BUFSIZE (.onRead c) TIMEOUT_MS r now).1.tok t = h.tok t := by
    intro t ht
    refine Heap.readSome_opens.other ?_
    rintro rfl
    exact hnq ht
  have hfinish : ∀ (h₁ : Heap Fn) (n : Int) (m : Mode), h₁.queue = h.queue →
      (h.readSome c (recvBuf c) BUFSIZE (.onRead c) TIMEOUT_MS r now).1 =
        h₁.finish ⟨c, .read⟩ n m → n ≤ r.bytes.length →
      (((h.readSome c (recvBuf c) BUFSIZE (.onRead c) TIMEOUT_MS r now).1.queue.map (weight
        (h.readSome c (recvBuf c) BUFSIZE (.onRead c) TIMEOUT_MS r now).1)).sum ≤
      (h.queue.map (weight h)).sum + (1 + 2 * r.bytes.length)) := by
    intro h₁ n m hq he hn
    have hw : weight (h₁.finish ⟨c, .read⟩ n m) ⟨c, .read⟩ ≤ 1 + 2 * r.bytes.length := by
      simp only [weight, Heap.tok_finish, if_true]
      split <;> omega
    have hsum := sum_weight_congr hother
    rw [he] at hsum ⊢
    rw [Heap.queue_finish, hq, List.map_append, List.sum_append, hsum]
    simpa using hw
  dsimp only
  cases r with
  | got bytes =>
    refine hfinish (h.startRead c (recvBuf c) BUFSIZE (.onRead c) (.got bytes)) bytes.length .done
      Heap.queue_startRead ?_ (le_refl _)
    rw [Heap.readSome_got hm]
  | fail errno =>
    by_cases he : errno = EAGAIN
    · subst he
      rw [sum_weight_congr (h := h) fun t ht => ?_]
      · rw [Heap.readSome_again hm, Heap.queue_park, Heap.queue_startRead]
        exact Nat.le_add_right _ _
      · rw [Heap.readSome_again hm, Heap.queue_park, Heap.queue_startRead] at ht
        exact hother t ht
    · refine hfinish (h.startRead c (recvBuf c) BUFSIZE (.onRead c) (.fail errno)) _ .err
        Heap.queue_startRead ?_ (Int.natCast_nonneg _)
      rw [Heap.readSome_fail hm he]

theorem queue_of_writeAll {h : Heap Fn} {n : Int} {w : WriteResult} {now : Timeval}
    (hb : h.Books) (hidle : Idle h c) :
    let h' := (h.writeAll c (sendBuf c) n (.onWrite c) TIMEOUT_MS w now).1
    (h'.queue.map (weight h')).sum ≤ (h.queue.map (weight h)).sum + 2 := by
  have hm := hidle .write
  have hnq : ⟨c, .write⟩ ∉ h.queue := hb.not_queued (Mode.not_finished_of_none hm)
  have ho : h.Opens _ (h.writeAll c (sendBuf c) n (.onWrite c) TIMEOUT_MS w now) :=
    Heap.writeAll_opens
  dsimp only
  generalize h.writeAll c (sendBuf c) n (.onWrite c) TIMEOUT_MS w now = x at ho ⊢
  obtain ⟨h', ok⟩ := x
  have hother : ∀ t ∈ h.queue, h'.tok t = h.tok t := by
    intro t ht
    refine ho.other ?_
    rintro rfl
    exact hnq ht
  have hsum := sum_weight_congr hother
  cases ho with
  | refused d hm' => exact (hm' hm).elim
  | finished hs _ =>
    rw [Heap.queue_finish, hs.queue, List.map_append, List.sum_append, hsum]
    simp [weight]
  | parked hs _ _ =>
    rw [Heap.queue_park, hs.queue, hsum]
    exact Nat.le_add_right _ _

theorem queue_of_destroy {h : Heap Fn} (hb : h.Books) :
    let h' := (h.unlink c).release c
    (h'.queue.map (weight h')).sum ≤ (h.queue.map (weight h)).sum := by
  have hq : ((h.unlink c).release c).queue = (h.unlink c).queue := rfl
  dsimp only
  rw [hq, sum_weight_congr (h := h) fun t ht => ?_]
  · refine sum_weight_sublist ?_
    rw [Heap.queue_unlink]
    exact (List.erase_sublist).trans List.erase_sublist
  · rw [Heap.tok_release, if_neg ((Heap.mem_queue_unlink hb.queue_nodup).mp ht).2,
      Heap.tok_unlink]

/-- The call goes on with a smaller load, or it has ended. -/
inductive Drains (s : Server) (act : Action Fn) (s' : Server) : Prop
  | goes : completing s' → load s' + effort act ≤ load s + 8 * bytesOf act → Drains s act s'
  | ends : ¬ completing s' → s'.core.heap.queue = [] → s'.core.callback = none →
      ¬ s'.core.pc.dead → effort act = 1 → Drains s act s'

theorem permits_not_signal {st : Stmt} (hp : st.permits act) : isSignal act = false := by
  cases act with
  | stop | environment => cases st <;> exact hp.elim
  | _ => rfl

theorem drains_of_statement {st : Stmt} {rest : List Stmt} (hi : Sound s) (hc : completing s)
    (htodo : s.todo = st :: rest) (hp : st.permits act) (hm : Move s act s') : Drains s act s' := by
  have hb := (consistent_of_reachable hi.careful).books
  have hph := hi.phase
  have heffort : effort act = 1 := by simp [effort, permits_not_signal hp]
  have hno : s.todo ≠ [] := by
    rw [htodo]
    exact List.cons_ne_nil _ _
  cases hm with
  | signal hsig =>
    rw [permits_not_signal hp] at hsig
    cases hsig
  | starts hpc =>
    have hd := hc.1
    rw [hpc] at hd
    exact hd.elim
  | created _ htodo _ _ _ _ _ =>
    rw [htodo] at hph
    cases hph with
    | starting hst _ _ _ => exact hst.elim
    | accepting ha _ => exact (hc.2 ha).elim
  | @received c r now hact htodo' htodo'' he hk =>
    rw [htodo'] at hph
    cases hph with
    | starting hst _ _ _ => exact hst.elim
    | receiving _ _ hidle _ =>
      refine .goes (completing_of_stays hc hk)
        (load_of_stays (n := 1 + 2 * r.bytes.length) hk ?_ ?_)
      · rw [he]
        exact queue_of_readSome hb hidle
      · rw [htodo', htodo'', heffort, hact]
        simp only [List.map_nil, List.sum_nil, List.map_cons, List.sum_cons, Stmt.cost, bytesOf]
        omega
  | copied htodo' htodo'' he hk =>
    refine .goes (completing_of_stays hc hk) (load_of_stays (n := 0) hk ?_ ?_)
    · rw [he]
      exact le_refl _
    · rw [htodo', htodo'', heffort]
      simp [Stmt.cost]
  | wrote htodo' htodo'' he hk =>
    rw [htodo'] at hph
    cases hph with
    | starting hst _ _ _ => exact hst.elim
    | writing _ _ hidle _ _ _ =>
      refine .goes (completing_of_stays hc hk) (load_of_stays (n := 2) hk ?_ ?_)
      · rw [he]
        exact queue_of_writeAll hb hidle
      · rw [htodo', htodo'', heffort]
        simp [Stmt.cost]
  | closed htodo' htodo'' hcalm _ _ hk =>
    refine .goes (completing_of_stays hc hk) (load_of_stays (n := 0) hk ?_ ?_)
    · rw [queue_of_calm hcalm]
      exact le_refl _
    · rw [htodo', htodo'', heffort]
      simp [Stmt.cost, deleteClient]
  | destroyed htodo' htodo'' he hk =>
    refine .goes (completing_of_stays hc hk) (load_of_stays (n := 0) hk ?_ ?_)
    · rw [he]
      exact queue_of_destroy hb
    · rw [htodo', htodo'', heffort]
      simp [Stmt.cost]
  | quiet h | accepted h | read _ h | written _ h | completed _ h | expired h | hungup h =>
    exact (hno h).elim

/-- A callback costs less than its token weighed. -/
theorem cost_of_body (h : Heap Fn) (cb : Callback Fn) (err : Error) (via : Via)
    (hf : cb.fn = Fn.of t) : ((body (.io t cb err (h.tok t).ioSize via)).map Stmt.cost).sum + 2 ≤
      4 * weight h t := by
  obtain ⟨i, f⟩ := cb
  obtain ⟨c, d⟩ := t
  dsimp only at hf
  subst hf
  cases d with
  | read =>
    simp only [Fn.of, body, onRead, weight]
    split
    · simp only [deleteClient, List.map_cons, List.map_nil, List.sum_cons, List.sum_nil, Stmt.cost]
      split <;> omega
    · split
      · rename_i hle
        rw [if_neg (not_lt.mpr hle)]
        simp [deleteClient, Stmt.cost]
      · rename_i hpos
        rw [if_pos (not_le.mp hpos)]
        simp [Stmt.cost]
  | write =>
    simp only [Fn.of, body, onWrite, weight]
    split
    · simp [deleteClient, Stmt.cost]
    · split
      · simp [deleteClient, Stmt.cost]
      · simp [Stmt.cost]

theorem drains_of_completion (hi : Sound s) (hc : completing s) (htodo : s.todo = [])
    (hs : s.core.step .processCompletion = some s'.core)
    (htodo' : s'.todo = Server.entered s.core s'.core) : Drains s .processCompletion s' := by
  obtain ⟨hnone, -⟩ := draining_of_processCompletion hs
  cases hq : s.core.heap.queue with
  | nil =>
    obtain ⟨p, hd, hdr, he⟩ := drained_of_step hq hs
    refine .ends ?_ ?_ ?_ ?_ rfl
    · rintro ⟨h, -⟩
      rw [he] at h
      exact hdr h
    · rw [he]
      exact hq
    · rw [he]
      exact hnone
    · rw [he]
      exact hd
  | cons t rest =>
    obtain ⟨hpc, hcalls, -⟩ := calls_of_completion hi hq hs htodo'
    obtain ⟨cb, -, hf, hcall, hheap, htodo''⟩ := hcalls.cb
    refine .goes ⟨by rw [hpc]; exact hc.1, ?_⟩ ?_
    · rintro ⟨a, fn, err, soc, h⟩
      rw [hcall] at h
      cases h
    · have hcost := cost_of_body s.core.heap cb (s.core.heap.tok t).err .completion hf
      have hnodup := (consistent_of_reachable hi.careful).books.queue_nodup
      rw [hq] at hnodup
      have hrest : s'.core.heap.queue = rest := by
        rw [hheap]
        change s.core.heap.queue.erase t = rest
        rw [hq, List.erase_cons_head]
      have hsum : (rest.map (weight s'.core.heap)).sum = (rest.map (weight s.core.heap)).sum := by
        refine sum_weight_congr fun u hu => ?_
        rw [hheap, Heap.tok_emit, Heap.tok_complete, if_neg ?_]
        rintro rfl
        exact (List.nodup_cons.mp hnodup).1 hu
      unfold load
      rw [hrest, hsum, hq, htodo'', hcall, hnone, htodo]
      simp only [List.map_cons, List.sum_cons, List.map_nil, List.sum_nil, Option.isSome_some,
        Option.isSome_none, if_true, Bool.false_eq_true, if_false, effort, isSignal, bytesOf]
      omega

theorem drains_of_library (hi : Sound s) (hc : completing s) (htodo : s.todo = [])
    (hlib : isLibrary act = true) (hs : s.core.step act = some s'.core)
    (htodo' : s'.todo = Server.entered s.core s'.core) : Drains s act s' := by
  have hno : ∀ {p : Pc}, s.core.pc = p → ¬ p.draining → Drains s act s' := by
    rintro p rfl hp
    exact (hp hc.1).elim
  cases act with
  | ret =>
    dsimp only [State.step] at hs
    split at hs
    · rename_i hsome
      have he := (Option.some.inj hs).symm
      have hnil : s'.todo = [] := htodo'.trans (entered_none (by rw [he]))
      refine .goes ⟨by rw [he]; exact hc.1, ?_⟩ ?_
      · rintro ⟨a, fn, err, soc, h⟩
        rw [he] at h
        cases h
      · unfold load
        rw [he, hnil, htodo, hsome]
        simp [effort, isSignal, bytesOf]
    · cases hs
  | processCompletion => exact drains_of_completion hi hc htodo hs htodo'
  | epollWait r => exact hno (State.poll_of_epollWait hs) id
  | dispatch r w =>
    obtain ⟨-, hs⟩ := State.library_some hs
    unfold State.dispatch at hs
    split at hs
    · rename_i hpc
      exact hno hpc id
    · rename_i hpc
      exact hno hpc id
    · cases hs
  | accept r =>
    obtain ⟨-, hs⟩ := State.library_some hs
    unfold State.accept at hs
    split at hs
    · rename_i hpc
      exact hno hpc id
    · cases hs
  | startTimer now =>
    obtain ⟨-, hs⟩ := State.library_some hs
    unfold State.startTimer at hs
    split at hs
    · rename_i hpc
      exact hno hpc id
    · cases hs
  | processTimer =>
    obtain ⟨-, hs⟩ := State.library_some hs
    unfold State.processTimer at hs
    split at hs
    · rename_i hpc
      exact hno hpc id
    · cases hs
  | _ => cases hlib

theorem drains_of_step (hi : Sound s) (hc : completing s) (hs : s.step act = some s') :
    Drains s act s' := by
  obtain ⟨hsig, hcore, htodo⟩ | ⟨st, rest, htodo, hp, hcore, htodo'⟩ |
    ⟨htodo, hlib, hcore, htodo'⟩ := Server.step_cases hs
  · obtain ⟨core, todo⟩ := s'
    dsimp only at hcore htodo
    subst htodo
    cases act with
    | stop | environment =>
      cases hcore
      exact .goes hc (le_refl _)
    | _ => cases hsig
  · exact drains_of_statement hi hc htodo hp (statement_of_step hi htodo hp hcore htodo')
  · exact drains_of_library hi hc htodo hlib hcore htodo'

/-! ### The call goes on until it ends -/

theorem step_of_statement {st : Stmt} {rest : List Stmt} (htodo : s.todo = st :: rest)
    (hp : st.permits act) (hs : (s.core.step act).isSome) : (s.step act).isSome := by
  unfold Server.step
  rw [permits_not_signal hp, htodo]
  simpa [hp] using hs

theorem step_of_library (htodo : s.todo = []) (hlib : isLibrary act = true)
    (hs : (s.core.step act).isSome) : (s.step act).isSome := by
  have hsig : isSignal act = false := by
    cases act with
    | stop | environment => cases hlib
    | _ => rfl
  unfold Server.step
  rw [hsig, htodo]
  simpa [hlib] using hs

theorem user_isSome {core : State Fn} {h : Handler} {f : State Fn → State Fn}
    (hu : core.userActive = true) : (core.user h f).isSome := by
  simp [State.user, hu]

theorem userActive_of_runs {core : State Fn} (hr : runs core c ∨ accepts core) :
    core.userActive = true := by
  rcases hr with ⟨t, cb, err, bytes, via, hcall, -⟩ | ⟨a, fn, err, soc, hcall⟩
  · exact userActive_of_callback (by rw [hcall]; rfl)
  · exact userActive_of_callback (by rw [hcall]; rfl)

theorem processCompletion_isSome {core : State Fn} (hc : core.callback = none)
    (hd : core.pc.draining) : (core.step .processCompletion).isSome := by
  have hround : core.drained.isSome ∧ (core.processCompletion).isSome := by
    cases hpc : core.pc with
    | drainRead | drainWrite =>
      have hdrained : core.drained.isSome := by
        unfold State.drained
        rw [hpc]
        dsimp only
        first | rfl | (split <;> rfl)
      refine ⟨hdrained, ?_⟩
      unfold State.processCompletion
      rw [hpc]
      dsimp only
      split
      · exact hdrained
      · split <;> rfl
    | _ =>
      rw [hpc] at hd
      exact hd.elim
  simpa [State.step, State.library, hc] using hround.2

/-- Whatever the kernel and the clock answer, the program has its next step. -/
theorem next_possible (hi : Sound s) (hc : completing s) (r : ReadResult) (w : WriteResult)
    (now : Timeval) : isSignal (s.next r w now) = false ∧ (s.step (s.next r w now)).isSome := by
  have hph := hi.phase
  unfold Server.next
  generalize htodo : s.todo = todo at hph
  cases hph with
  | starting _ hpc _ _ =>
    have hd := hc.1
    rw [hpc] at hd
    exact hd.elim
  | idle =>
    dsimp only
    split
    · rename_i hsome
      exact ⟨rfl, step_of_library htodo rfl (by simp [State.step, hsome])⟩
    · rename_i hnone
      refine ⟨rfl, step_of_library htodo rfl (processCompletion_isSome ?_ hc.1)⟩
      simpa using hnone
  | accepting ha _ => exact (hc.2 ha).elim
  | receiving hr _ _ _ =>
    refine ⟨rfl, step_of_statement htodo ⟨rfl, rfl, rfl, rfl, rfl⟩ ?_⟩
    dsimp only [State.step]
    exact user_isSome (userActive_of_runs hr)
  | copying hr _ _ _ _ hn =>
    refine ⟨rfl, step_of_statement htodo ⟨rfl, rfl, Int.toNat_of_nonneg hn.le⟩ ?_⟩
    simp [State.step, userActive_of_runs (.inl hr)]
  | writing hr _ _ _ _ _ =>
    refine ⟨rfl, step_of_statement htodo ⟨rfl, rfl, rfl, rfl, rfl⟩ ?_⟩
    dsimp only [State.step]
    exact user_isSome (userActive_of_runs (.inl hr))
  | closing hr _ =>
    refine ⟨rfl, step_of_statement htodo rfl ?_⟩
    dsimp only [State.step, deleteClient]
    exact user_isSome (userActive_of_runs (.inl hr))
  | destroying hr _ _ _ =>
    refine ⟨rfl, step_of_statement htodo rfl ?_⟩
    dsimp only [State.step, deleteClient]
    exact user_isSome (userActive_of_runs (.inl hr))

/-- The bytes that a run takes from the kernel. -/
def bytesRead (as : List (Action Fn)) : Nat := (as.map bytesOf).sum

/-- The steps that the program itself takes in a run. -/
def steps (as : List (Action Fn)) : Nat := (as.map effort).sum

/-- A call of `_processCompletion` takes a number of steps that its queue and the bytes which its
reads are given bound, has a next step as long as it goes on, whatever the kernel answers, and
leaves the queue empty when it ends. -/
theorem completion_loop_ends (hr : echo.Reachable Machine.free s) (hc : completing s) :
    (∀ as s', echo.exec whileCompleting s as = some s' →
      steps as ≤ 12 * s.core.heap.queue.length + 8 * bytesRead as + 12) ∧
    (∀ s', echo.Steps whileCompleting s s' → completing s' → ∀ r w now,
      isSignal (s'.next r w now) = false ∧ (s'.step (s'.next r w now)).isSome) ∧
    ∀ s', echo.Steps whileCompleting s s' → ¬ completing s' →
      s'.core.heap.queue = [] ∧ s'.core.callback = none ∧ ¬ s'.core.pc.dead := by
  have hi := sound_of_reachable hr
  have hsound : ∀ {s'}, echo.Steps whileCompleting s s' → Sound s' := fun hst =>
    sound_of_reachable (hr.steps (hst.mono fun _ _ _ => trivial))
  refine ⟨fun as s' h => ?_, fun s' hst hc' r w now => next_possible (hsound hst) hc' r w now,
    fun s' hst hc' => ?_⟩
  · -- a call that has ended has no load, one that goes on has the step of its end to come
    have hcost := Machine.exec_cost_le Sound (fun s => if completing s then load s + 1 else 0)
      effort (8 * bytesOf ·) (fun s₁ act s₂ hi₁ hc₁ hs => ?_) h hi
    · have hload := load_le hi.phase
      rw [if_pos hc, List.sum_map_mul_left] at hcost
      unfold steps bytesRead
      omega
    · refine ⟨hi₁.step hs, ?_⟩
      rw [if_pos (show completing s₁ from hc₁)]
      cases drains_of_step hi₁ hc₁ hs with
      | goes hc₂ hle =>
        rw [if_pos hc₂]
        omega
      | ends hc₂ _ _ _ he =>
        rw [if_neg hc₂, he]
        omega
  · cases hst with
    | refl => exact (hc' hc).elim
    | tail hst hm =>
      obtain ⟨act, hc₁, hs⟩ := hm
      cases drains_of_step (hsound hst) hc₁ hs with
      | goes hc₂ _ => exact (hc' hc₂).elim
      | ends _ hq hcall hd _ => exact ⟨hq, hcall, hd⟩

/-- A client sends a byte and closes: the read, the write and the read of the end take twelve steps
of one call. -/
theorem completion_loop_ends_echo : ∃ s, echo.Reachable Machine.free s ∧
    s.core.heap.queue = [⟨0, .read⟩] ∧ ∃ as s', echo.exec whileCompleting s as = some s' ∧
      steps as = 12 ∧ steps as ≤ 12 * 1 + 8 * bytesRead as + 12 ∧ s'.core.heap.queue = [] := by
  obtain ⟨s, hr, hf⟩ := Machine.exists_of_exec (M := echo) (p := Machine.free)
    (s := Server.initial fun _ _ => 0)
    (l := serving ++ [.epollWait (.events [⟨4, .acceptor 0, ⟨true, false, false, false, false⟩⟩]),
      .dispatch (.got []) (.accepted 0), .accept (.conn 5 .ok), .create 0 5 ⟨0, 0⟩ ⟨0, 0⟩ 0,
      .readSome 0 (recvBuf 0) 1024 (.onRead 0) 5000 (.got [65]) ⟨10, 0⟩, .ret,
      .accept (.fail EAGAIN)])
    (f := fun s => (s.core.heap.queue, decide (completing s),
      (echo.exec whileCompleting s [.processCompletion, .memcpy (sendBuf 0) (recvBuf 0) 1,
        .writeAll 0 (sendBuf 0) 1 (.onWrite 0) 5000 (.accepted 1) ⟨10, 0⟩, .ret,
        .processCompletion, .readSome 0 (recvBuf 0) 1024 (.onRead 0) 5000 (.got []) ⟨10, 0⟩, .ret,
        .processCompletion, .close 0, .destroy 0, .ret, .processCompletion]).map
          fun s => decide (completing s)))
    (b := ([⟨0, .read⟩], true, some false)) ⟨_, rfl⟩ rfl
  simp only [Prod.mk.injEq] at hf
  obtain ⟨hq, hc, hrun⟩ := hf
  obtain ⟨s', hs', hend⟩ := Option.map_eq_some_iff.mp hrun
  obtain ⟨hbound, -, hempty⟩ := completion_loop_ends hr (of_decide_eq_true hc)
  have hle := hbound _ s' hs'
  rw [hq] at hle
  obtain ⟨hq', -, -⟩ := hempty s' (Machine.exec_steps hs') (of_decide_eq_false hend)
  exact ⟨s, hr, hq, _, s', hs', rfl, hle, hq'⟩

end EchoBenchmark.Echo
