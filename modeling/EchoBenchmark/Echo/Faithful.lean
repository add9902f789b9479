import EchoBenchmark.Echo.Sound
import EchoBenchmark.Echo.Transfers

/-!
The echo is faithful: the bytes that the server has read from a client and not sent yet lie in one
of its buffers, where the operation or the running function of the client finds them.
-/

namespace EchoBenchmark.Echo

open EchoBenchmark.Proactor
open History (Adds)

variable {s s' : Server} {act : Action Fn} {c : ClientId} {t : TokenId} {todo : List Stmt}
  {h : Heap Fn} {err : Error} {bytes : Int} {via : Via}

/-- The callback has been called, and all of it is still to be done. -/
def Server.enters (s : Server) (inv : Invocation Fn) : Prop :=
  s.core.callback = some inv ∧ s.todo = body inv

/-- The kernel never moved more bytes than it was asked for. -/
def Server.kernelFits (s : Server) : Prop := ∀ e ∈ s.core.heap.log, fits e

/-- The invariant of the echo. -/
structure Faithful (s : Server) : Prop where
  echoed : ∀ c, sent c s.core.heap.log <+: received c s.core.heap.log
  inside : ∀ e ∈ s.core.heap.log, inBuffers e
  operating : ∀ c, Operating s.core.heap c
  handling : Handling s.core.heap s.todo

namespace Faithful

theorem inside_adds (hf : Faithful s) {log : List Event}
    (hlog : Adds inBuffers s.core.heap.log log) :
    ∀ e ∈ log, inBuffers e :=
  hlog.rule (R := fun l => ∀ e ∈ l, inBuffers e) hf.inside fun _ _ he hl =>
    List.forall_mem_cons.mpr ⟨he, hl⟩

/-- A step that moves no bytes; operations may end in it or get an error. -/
theorem quiet (hf : Faithful s) (hlog : Adds quiet s.core.heap.log s'.core.heap.log)
    (hmem : s'.core.heap.mem = s.core.heap.mem)
    (htok : ∀ u, (s'.core.heap.tok u).mode = .none ∨
      ∃ err, s'.core.heap.tok u = { s.core.heap.tok u with err := err })
    (hh : Handling s'.core.heap s'.todo) : Faithful s' where
  echoed c := by
    have ha : Adds (aside c) s.core.heap.log s'.core.heap.log := hlog.mono fun _ he => he.1 c
    rw [sent_of_adds ha, received_of_adds ha]
    exact hf.echoed c
  inside := hf.inside_adds (hlog.mono fun _ => inBuffers_of_quiet)
  operating c := by
    refine (hf.operating c).frame (fun d => htok _) (hlog.mono fun _ he => he.1 c) ?_
    rw [SameBuffers, hmem]
    exact ⟨rfl, rfl⟩
  handling := hh

/-- A step that notes things, and leaves the tokens as they are. -/
theorem calm (hf : Faithful s) (hc : Calm s.core.heap s'.core.heap)
    (hh : Handling s'.core.heap s'.todo) : Faithful s' :=
  hf.quiet hc.quiet hc.mem (fun u => .inr ⟨_, hc.noted.tok u⟩) hh

/-- A step in which only the bytes and the operations of client `c` change. -/
theorem work (hf : Faithful s)
    (hlog : Adds (fun e => (∀ j, j ≠ c → aside j e) ∧ inBuffers e) s.core.heap.log s'.core.heap.log)
    (hmem : ∀ j, j ≠ c → SameBuffers s.core.heap s'.core.heap j)
    (htok : ∀ u : TokenId, u.sock ≠ c → s'.core.heap.tok u = s.core.heap.tok u)
    (hecho : sent c s'.core.heap.log <+: received c s'.core.heap.log)
    (hop : Operating s'.core.heap c) (hh : Handling s'.core.heap s'.todo) : Faithful s' where
  echoed j := by
    by_cases hj : j = c
    · rw [hj]
      exact hecho
    · have ha : Adds (aside j) s.core.heap.log s'.core.heap.log := hlog.mono fun _ he => he.1 j hj
      rw [sent_of_adds ha, received_of_adds ha]
      exact hf.echoed j
  inside := hf.inside_adds (hlog.mono fun _ => And.right)
  operating j := by
    by_cases hj : j = c
    · rw [hj]
      exact hop
    · exact (hf.operating j).frame (fun d => .inr ⟨_, htok ⟨j, d⟩ hj⟩)
        (hlog.mono fun _ he => he.1 j hj) (hmem j hj)
  handling := hh

end Faithful

/-! ### The buffers of two clients -/

/-- The blocks of two clients are apart. -/
theorem block_ne {j c : Nat} (hj : j ≠ c) :
    ((recvBuf j).base ≠ (recvBuf c).base ∧ (sendBuf j).base ≠ (recvBuf c).base) ∧
      (recvBuf j).base ≠ (sendBuf c).base ∧ (sendBuf j).base ≠ (sendBuf c).base := by
  simp only [recvBuf, sendBuf]
  omega

theorem sameBuffers_recvBuf {h' : Heap Fn} {bytes : List UInt8} {j : ClientId} (hj : j ≠ c)
    (hm : h'.mem = h.mem.store (recvBuf c) bytes) : SameBuffers h h' j := by
  obtain ⟨⟨hrecv, hsend⟩, -⟩ := block_ne hj
  rw [SameBuffers, hm]
  exact ⟨store_of_ne hrecv, store_of_ne hsend⟩

theorem sameBuffers_sendBuf {h' : Heap Fn} {bytes : List UInt8} {j : ClientId} (hj : j ≠ c)
    (hm : h'.mem = h.mem.store (sendBuf c) bytes) : SameBuffers h h' j := by
  obtain ⟨-, hrecv, hsend⟩ := block_ne hj
  rw [SameBuffers, hm]
  exact ⟨store_of_ne hrecv, store_of_ne hsend⟩

theorem aside_created {j : ClientId} (hj : j ≠ c) : aside j (.created c) :=
  ⟨fun he => hj (Event.created.inj he).symm, fun _ => id⟩

theorem aside_sysRead {j : ClientId} (hj : j ≠ c) (q : Ptr) (len : Int) (r : ReadResult) :
    aside j (.sysRead c q len r) :=
  ⟨nofun, fun _ he => hj (congrArg TokenId.sock he)⟩

theorem aside_sysWrite {j : ClientId} (hj : j ≠ c) (q : Ptr) (len : Int) (w : WriteResult)
    (sent : List UInt8) : aside j (.sysWrite c q len w sent) :=
  ⟨nofun, fun _ he => hj (congrArg TokenId.sock he)⟩

theorem working_of_quiet {e : Event} (he : quiet e) :
    (∀ j, j ≠ c → aside j e) ∧ inBuffers e :=
  ⟨fun j _ => he.1 j, inBuffers_of_quiet he⟩

/-! ### The moves keep the echo -/

/-- A `::read` of a client that owes nothing. -/
theorem faithful_of_fetches {r : ReadResult} (hf : Faithful s)
    (hlog₀ : Adds quiet s.core.heap.log h.log) (hmem₀ : h.mem = s.core.heap.mem)
    (htok₀ : ∀ u, h.tok u = s.core.heap.tok u) (hk : s'.kernelFits)
    (hr : Fetches c r h s'.core.heap) (howes : Owes c s.core.heap.log [])
    (hidle : (s.core.heap.tok ⟨c, .write⟩).mode = .none) (htodo : s'.todo = []) :
    Faithful s' := by
  obtain ⟨past, hpast, hlog⟩ := hr.log
  have hlen : r.bytes.length ≤ BUFSIZE := by
    have hfits : fits (.sysRead c (recvBuf c) BUFSIZE r) :=
      hk _ (hlog.suffix.subset List.mem_cons_self)
    exact hfits
  obtain ⟨howes', hop⟩ := hr.operating (howes.adds (hlog₀.mono fun _ he => he.1 c)) hlen
    (by rw [htok₀]; exact hidle)
  have hread : inBuffers (.sysRead c (recvBuf c) BUFSIZE r) := within_self (le_refl _) _
  refine hf.work (c := c) ?_ (fun j hj => ?_) (fun u hu => ?_) howes'.isPrefix hop ?_
  · refine Adds.trans ?_ (hlog.mono fun _ he => working_of_quiet he)
    refine ((hlog₀.trans hpast).mono fun _ he => working_of_quiet he).cons ⟨fun j hj => ?_, hread⟩
    exact aside_sysRead hj _ _ _
  · exact sameBuffers_recvBuf hj (by rw [hr.mem, hmem₀])
  · rw [hr.other u fun he => hu (congrArg TokenId.sock he), htok₀]
  · rw [htodo]
    trivial

/-- A `::write` of what the client owes. -/
theorem faithful_of_sends {m n : Nat} {w : WriteResult} (hf : Faithful s)
    (hlog₀ : Adds Echo.quiet s.core.heap.log h.log) (hmem₀ : h.mem = s.core.heap.mem)
    (htok₀ : ∀ u, h.tok u = s.core.heap.tok u) (hk : s'.kernelFits)
    (hw : Sends c m n w h s'.core.heap) (hmn : m < n) (hn : n ≤ BUFSIZE)
    (howes : Owes c s.core.heap.log (s.core.heap.mem.load ((sendBuf c).add m) (n - m)))
    (hidle : (s.core.heap.tok ⟨c, .read⟩).mode = .none) (htodo : s'.todo = []) :
    Faithful s' := by
  obtain ⟨past, hpast, hlog⟩ := hw.log
  have hlen : w.count ≤ ((n : Int) - m).toNat :=
    hk _ (hlog.suffix.subset List.mem_cons_self)
  obtain ⟨hecho, hop⟩ := hw.operating hmn hn
    (by rw [hmem₀]; exact howes.adds (hlog₀.mono fun _ he => he.1 c)) (by omega)
    (by rw [htok₀]; exact hidle)
  refine hf.work (c := c) ?_ (fun j _ => ?_) (fun u hu => ?_) hecho hop ?_
  · refine Adds.trans ?_ (hlog.mono fun _ he => working_of_quiet he)
    refine ((hlog₀.trans hpast).mono fun _ he => working_of_quiet he).cons
      ⟨fun j hj => ?_, within_add hn _⟩
    exact aside_sysWrite hj _ _ _ _
  · rw [SameBuffers, hw.mem, hmem₀]
    exact ⟨rfl, rfl⟩
  · rw [hw.other u fun he => hu (congrArg TokenId.sock he), htok₀]
  · rw [htodo]
    trivial

theorem created_faithful {soc : Int} {rtv wtv : Timeval} (hf : Faithful s)
    (htodo' : s'.todo = [.startRecv c])
    (hc : Calm (s.core.heap.create c soc rtv wtv) s'.core.heap) : Faithful s' := by
  have howes : Owes c s'.core.heap.log [] :=
    (Owes.created s.core.heap.log).adds (hc.quiet.mono fun _ he => he.1 c)
  refine hf.work (c := c) ?_ (fun j _ => ?_) (fun u hu => ?_) howes.isPrefix ?_ ?_
  · refine Adds.trans ?_ (hc.quiet.mono fun _ he => working_of_quiet he)
    exact Adds.refl.cons ⟨fun j hj => aside_created hj, trivial⟩
  · rw [SameBuffers, hc.mem]
    exact ⟨rfl, rfl⟩
  · rw [hc.noted.tok, Heap.tok_create, if_neg hu]
  · refine operating_of_idle fun d => ?_
    rw [hc.noted.tok, Heap.tok_create, if_pos rfl]
    rfl
  · rw [htodo']
    exact howes

theorem received_faithful {r : ReadResult} {now : Timeval} (hi : Sound s) (hf : Faithful s)
    (hk : s'.kernelFits) (htodo : s.todo = [.startRecv c]) (htodo' : s'.todo = [])
    (he : s'.core.heap =
      (s.core.heap.readSome c (recvBuf c) BUFSIZE (.onRead c) TIMEOUT_MS r now).1) :
    Faithful s' := by
  have hph := hi.phase
  have howes := hf.handling
  rw [htodo] at hph howes
  cases hph with
  | starting hst _ _ _ => exact hst.elim
  | receiving _ _ hidle _ =>
    have hr := fetches_readSome (.onRead c) TIMEOUT_MS r now (hidle .read)
    rw [← he] at hr
    exact faithful_of_fetches hf .refl rfl (fun _ => rfl) hk hr howes (hidle .write) htodo'

theorem copied_faithful {n : Nat} (hi : Sound s) (hf : Faithful s)
    (htodo : s.todo = [.memcpy c n, .writeAll c n]) (htodo' : s'.todo = [.writeAll c n])
    (he : s'.core.heap = s.core.heap.memcpy (sendBuf c) (recvBuf c) n) : Faithful s' := by
  have hph := hi.phase
  have hhandling := hf.handling
  rw [htodo] at hph hhandling
  obtain ⟨k, hk, hle, howes⟩ := hhandling
  obtain rfl : n = k := Int.ofNat_inj.mp hk
  have hlog : s'.core.heap.log = .copied (sendBuf c) (recvBuf c) n :: s.core.heap.log := by
    rw [he]
    rfl
  have hmem : s'.core.heap.mem =
      s.core.heap.mem.store (sendBuf c) (s.core.heap.mem.load (recvBuf c) n) := by
    rw [he]
    rfl
  have haside : ∀ j, aside j (.copied (sendBuf c) (recvBuf c) n) := fun _ => ⟨nofun, fun _ => id⟩
  have hin : inBuffers (.copied (sendBuf c) (recvBuf c) n) :=
    ⟨c, within_self (by omega) _, within_self (by omega) _⟩
  have howes' : Owes c s'.core.heap.log (s.core.heap.mem.load (recvBuf c) n) := by
    rw [hlog]
    exact howes.adds (Adds.refl.cons (haside c))
  cases hph with
  | starting hst _ _ _ => exact hst.elim
  | copying _ _ hidle _ _ _ =>
    refine hf.work (c := c) ?_ (fun j hj => sameBuffers_sendBuf hj hmem) (fun u _ => ?_)
      howes'.isPrefix (operating_of_idle fun d => ?_) ?_
    · rw [hlog]
      exact Adds.refl.cons ⟨fun j _ => haside j, hin⟩
    · rw [he]
      rfl
    · rw [he]
      exact hidle d
    · rw [htodo']
      refine ⟨n, rfl, hle, ?_⟩
      have hload : (s.core.heap.mem.store (sendBuf c)
          (s.core.heap.mem.load (recvBuf c) n)).load (sendBuf c)
          (s.core.heap.mem.load (recvBuf c) n).length = _ := Mem.load_store
      rw [Mem.length_load, ← hmem] at hload
      rw [hload]
      exact howes'

theorem wrote_faithful {n : Int} {w : WriteResult} {now : Timeval} (hi : Sound s)
    (hf : Faithful s) (hk : s'.kernelFits) (htodo : s.todo = [.writeAll c n])
    (htodo' : s'.todo = []) (he : s'.core.heap =
      (s.core.heap.writeAll c (sendBuf c) n (.onWrite c) TIMEOUT_MS w now).1) :
    Faithful s' := by
  have hph := hi.phase
  have hhandling := hf.handling
  rw [htodo] at hph hhandling
  obtain ⟨k, rfl, hle, howes⟩ := hhandling
  cases hph with
  | starting hst _ _ _ => exact hst.elim
  | writing _ _ hidle _ _ hpos =>
    have hw := sends_writeAll k (.onWrite c) TIMEOUT_MS w now (hidle .write)
    rw [← he] at hw
    have hptr : (sendBuf c).add (0 : Nat) = sendBuf c := by simp [Ptr.add]
    refine faithful_of_sends hf .refl rfl (fun _ => rfl) hk hw (by omega) hle ?_ (hidle .read)
      htodo'
    rw [hptr]
    exact howes

/-- A client that is not in work has one operation at most. -/
theorem Sound.alone {d d' : Dir} (hi : Sound s) (htodo : s.todo = [])
    (hl : s.core.heap.live c = true) (hm : (s.core.heap.tok ⟨c, d⟩).mode ≠ .none) (hne : d' ≠ d) :
    (s.core.heap.tok ⟨c, d'⟩).mode = .none := by
  obtain ⟨d₀, -, hother⟩ := hi.clients.busy c hl (by rw [htodo]; exact serves_nil)
  have hd : d = d₀ := by
    by_contra hd
    exact hm (hother d hd)
  exact hother d' (hd ▸ hne)

/-- An event of a client that waits for bytes. -/
theorem read_faithful {r : ReadResult} (hi : Sound s) (hf : Faithful s) (hk : s'.kernelFits)
    (htodo : s.todo = []) (htodo' : s'.todo = []) (hl : s.core.heap.live c = true)
    (he : s'.core.heap = (s.core.heap.emit (.dispatched (.socket c) .onRead)).onRead c r) :
    Faithful s' := by
  have hnote : Adds quiet s.core.heap.log
      (s.core.heap.emit (.dispatched (.socket c) .onRead)).log :=
    Adds.refl.cons (quiet_of_isNote trivial id)
  by_cases hp : (s.core.heap.tok ⟨c, .read⟩).mode.pending
  · obtain ⟨hm, hb, hs, howes⟩ := (hf.operating c).reads hp
    have hr := fetches_onRead (h := s.core.heap.emit (.dispatched (.socket c) .onRead)) (r := r)
      hm hb hs
    rw [← he] at hr
    have hidle := hi.alone htodo hl (Mode.ne_none_of_pending hp) (by decide : Dir.write ≠ .read)
    exact faithful_of_fetches hf hnote rfl (fun _ => rfl) hk hr howes hidle htodo'
  · rw [Heap.onRead_idle (by rw [Heap.tok_emit]; exact hp)] at he
    refine hf.quiet (by rw [he]; exact hnote) (by rw [he]; rfl)
      (fun u => .inr ⟨_, by rw [he]; rfl⟩) ?_
    rw [htodo']
    trivial

theorem written_faithful {w : WriteResult} (hi : Sound s) (hf : Faithful s) (hk : s'.kernelFits)
    (htodo : s.todo = []) (htodo' : s'.todo = []) (hl : s.core.heap.live c = true)
    (he : s'.core.heap = (s.core.heap.emit (.dispatched (.socket c) .onWrite)).onWrite c w) :
    Faithful s' := by
  have hnote : Adds quiet s.core.heap.log
      (s.core.heap.emit (.dispatched (.socket c) .onWrite)).log :=
    Adds.refl.cons (quiet_of_isNote trivial id)
  by_cases hm : (s.core.heap.tok ⟨c, .write⟩).mode = .all
  · obtain ⟨m, n, hb, hio, hs, hmn, hn, howes⟩ := (hf.operating c).writes hm
    have hw := sends_onWrite (h := s.core.heap.emit (.dispatched (.socket c) .onWrite)) (w := w)
      hm hb hio hs
    rw [← he] at hw
    have hidle := hi.alone htodo hl (Mode.ne_none_of_pending (.inr hm))
      (by decide : Dir.read ≠ .write)
    exact faithful_of_sends hf hnote rfl (fun _ => rfl) hk hw hmn hn howes hidle htodo'
  · rw [Heap.onWrite_idle (by rw [Heap.tok_emit]; exact hm)] at he
    refine hf.quiet (by rw [he]; exact hnote) (by rw [he]; rfl)
      (fun u => .inr ⟨_, by rw [he]; rfl⟩) ?_
    rw [htodo']
    trivial

/-- A callback finds in the buffer what its client owes. -/
theorem handling_of_completion {h' : Heap Fn} {cb : Callback Fn} (hop : Operating h t.sock)
    (hfin : (h.tok t).mode.finished) (hfn : cb.fn = Fn.of t) (hlog : Adds quiet h.log h'.log)
    (hmem : h'.mem = h.mem) :
    Handling h' (body (.io t cb (h.tok t).err (h.tok t).ioSize via)) := by
  have hadds : Adds (aside t.sock) h.log h'.log := hlog.mono fun _ he => he.1 _
  obtain ⟨i, f⟩ := cb
  obtain ⟨c, d⟩ := t
  dsimp only at hfn
  subst hfn
  cases d with
  | read =>
    simp only [Fn.of, body, onRead]
    split
    · trivial
    · split
      · trivial
      · obtain ⟨n, hn, hle, howes⟩ := hop.filled hfin
        exact ⟨n, hn, hle, by rw [hmem]; exact howes.adds hadds⟩
  | write =>
    simp only [Fn.of, body, onWrite]
    split
    · trivial
    · split
      · trivial
      · rename_i hpos
        exact (hop.emptied hfin (not_le.mp hpos)).adds hadds

theorem called_faithful (hf : Faithful s) (hcalls : Calls s s' h t err bytes via)
    (hlog : Adds quiet s.core.heap.log h.log) (hmem : h.mem = s.core.heap.mem)
    (htok : ∀ u, (h.tok u).mode = .none ∨ ∃ err, h.tok u = { s.core.heap.tok u with err := err })
    (hh : Handling s'.core.heap s'.todo) : Faithful s' := by
  obtain ⟨cb, -, -, -, hheap, -⟩ := hcalls.cb
  refine hf.quiet ?_ ?_ ?_ hh
  · rw [hheap]
    exact hlog.cons ⟨fun _ => ⟨nofun, fun _ => id⟩, id⟩
  · rw [hheap]
    exact hmem
  · rw [hheap]
    exact htok

theorem handling_of_error (hcalls : Calls s s' h t err bytes via) (he : err.code ≠ 0) :
    Handling s'.core.heap s'.todo := by
  obtain ⟨cb, -, hfn, -, -, htodo'⟩ := hcalls.cb
  rw [htodo', body_error hfn he]
  trivial

/-- Before `run`, and while no client was ever created, there are no bytes to handle. -/
theorem handling_of_new {core : State Fn} (hp : Phase todo core)
    (hnew : ∀ c, core.heap.live c = false) : Handling core.heap todo := by
  have hno : ∀ {c}, ¬ Works core c := fun {c} hw => by
    have hl := hw.live
    rw [hnew] at hl
    cases hl
  cases hp with
  | starting hst _ _ _ =>
    unfold Starting at hst
    split at hst
    · trivial
    · trivial
    · trivial
    · trivial
    · exact hst.elim
  | idle => trivial
  | accepting => trivial
  | receiving _ hw _ _ => exact (hno hw).elim
  | copying _ hw _ _ _ _ => exact (hno hw).elim
  | writing _ hw _ _ _ _ => exact (hno hw).elim
  | closing _ hw => exact (hno hw).elim
  | destroying _ hw _ _ => exact (hno hw).elim

theorem completed_faithful {rest : List TokenId} (hi : Sound s) (hf : Faithful s)
    (hq : s.core.heap.queue = t :: rest)
    (hcalls : Calls s s' (s.core.heap.complete t) t (s.core.heap.tok t).err
      (s.core.heap.tok t).ioSize .completion) : Faithful s' := by
  have hb := (consistent_of_reachable hi.careful).books
  have hfin := (hb.queued t).mp (by rw [hq]; exact List.mem_cons_self)
  refine called_faithful hf hcalls .refl rfl (fun u => ?_) ?_
  · rw [Heap.tok_complete]
    split
    · exact .inl rfl
    · exact .inr ⟨_, rfl⟩
  · obtain ⟨cb, -, hfn, -, hheap, htodo'⟩ := hcalls.cb
    rw [htodo']
    refine handling_of_completion (hf.operating t.sock) hfin hfn ?_ ?_
    · rw [hheap]
      exact Adds.refl.cons ⟨fun _ => ⟨nofun, fun _ => id⟩, id⟩
    · rw [hheap]
      rfl

theorem Faithful.step (hi : Sound s) (hf : Faithful s) (hk : s'.kernelFits)
    (hs : s.step act = some s') : Faithful s' := by
  cases moves_of_step hi hs with
  | signal _ htodo hc hk hdel hsoc =>
    refine hf.calm hc ?_
    rw [htodo]
    exact hf.handling.quiet hc.quiet hc.mem
  | starts _ hnew hc hph hdead hdoors =>
    exact hf.calm hc (handling_of_new hph fun c => (hc.noted.live c).trans (hnew c))
  | quiet htodo htodo' hc hr =>
    refine hf.calm hc ?_
    rw [htodo']
    trivial
  | accepted htodo htodo' hc hr ha hsoc =>
    refine hf.calm hc ?_
    rw [htodo']
    trivial
  | created _ htodo htodo' hnew hc hsoc hk' => exact created_faithful hf htodo' hc
  | received _ htodo htodo' he hk' => exact received_faithful hi hf hk htodo htodo' he
  | copied htodo htodo' he hk' => exact copied_faithful hi hf htodo htodo' he
  | wrote htodo htodo' he hk' => exact wrote_faithful hi hf hk htodo htodo' he
  | closed htodo htodo' hc hsoc hdel hk' =>
    refine hf.calm hc ?_
    rw [htodo']
    trivial
  | @destroyed c htodo htodo' he hk' =>
    refine hf.quiet ?_ ?_ (fun u => ?_) ?_
    · rw [he]
      refine Adds.cons ?_ ⟨fun _ => ⟨nofun, fun _ => id⟩, id⟩
      rw [Heap.log_unlink]
      exact .refl
    · rw [he]
      exact Heap.mem_unlink
    · rw [he, Heap.tok_release]
      split
      · exact .inl rfl
      · rw [Heap.tok_unlink]
        exact .inr ⟨_, rfl⟩
    · rw [htodo']
      trivial
  | read _ htodo htodo' hl he hr => exact read_faithful hi hf hk htodo htodo' hl he
  | written _ htodo htodo' hl he hr => exact written_faithful hi hf hk htodo htodo' hl he
  | completed _ htodo hq hd hpc hcalls hr => exact completed_faithful hi hf hq hcalls
  | @expired t timers htodo _ hcalls hr =>
    refine called_faithful hf hcalls .refl rfl (fun u => ?_) (handling_of_error hcalls (by decide))
    rw [Heap.tok_expire]
    split
    · exact .inl rfl
    · exact .inr ⟨_, rfl⟩
  | @hungup c htodo hcalls hr =>
    refine called_faithful hf hcalls (Adds.refl.cons (quiet_of_isNote trivial id)) rfl
      (fun u => .inr ?_)
      (handling_of_error hcalls (by decide))
    have htok := State.tok_resetErrs (s.core.emit (.dispatched (.socket c) .onClose)) c u
    by_cases hu : u.sock = c
    · exact ⟨_, htok.trans (if_pos hu)⟩
    · exact ⟨(s.core.heap.tok u).err, htok.trans (if_neg hu)⟩

theorem faithful_initial (mem : Mem) : Faithful (Server.initial mem) where
  echoed _ := List.nil_prefix
  inside := fun _ he => (List.not_mem_nil he).elim
  operating c := operating_of_idle fun d => by cases d <;> rfl
  handling := trivial

theorem faithful_of_reachable (hr : echo.Reachable Machine.free s) (hk : s.kernelFits) :
    Faithful s := by
  revert hk
  apply hr.invariant (I := fun s => s.kernelFits → Faithful s)
  · rintro s₀ ⟨mem, rfl⟩ -
    exact faithful_initial mem
  · intro s₀ act s₁ hr hf _ hs hk
    have hlog := State.log_suffix_of_step (Server.core_step hs)
    exact (hf fun e he => hk e (hlog.subset he)).step (sound_of_reachable hr) hk hs

/-! ### The echo -/

/-- The echo server sends back to each client what it read from it: what the kernel has accepted
is the beginning of that, all of it when `onWrite` is entered with bytes, and every place used in a
buffer is there. -/
theorem echoes_faithfully (hr : echo.Reachable Machine.free s) (hk : s.kernelFits) :
    (∀ c, sent c s.core.heap.log <+: received c s.core.heap.log) ∧
    (∀ c i t err bytes via, s.enters (.io t ⟨i, .onWrite c⟩ err bytes via) → err.code = 0 →
      0 < bytes → sent c s.core.heap.log = received c s.core.heap.log) ∧
    ∀ e ∈ s.core.heap.log, inBuffers e := by
  have hf := faithful_of_reachable hr hk
  refine ⟨hf.echoed, fun c i t err bytes via henter hcode hpos => ?_, hf.inside⟩
  have howes := hf.handling
  have hbody : body (.io t ⟨i, .onWrite c⟩ err bytes via) = [.startRecv c] := by
    simp [body, onWrite, hcode, not_le.mpr hpos]
  rw [henter.2, hbody] at howes
  have heq : received c s.core.heap.log = sent c s.core.heap.log ++ [] := howes
  rw [heq, List.append_nil]

/-- Two bytes come with an event; the first is written at once, the second with a later event. -/
theorem echoes_faithfully_twice : ∃ s, echo.Reachable Machine.free s ∧
    s.enters (.io ⟨0, .write⟩ ⟨1, .onWrite 0⟩ Error.new 2 .completion) ∧
    received 0 s.core.heap.log = [65, 66] ∧ sent 0 s.core.heap.log = [65, 66] ∧
    ∀ e ∈ s.core.heap.log, inBuffers e := by
  obtain ⟨s, hr, hf⟩ := Machine.exists_of_exec (M := echo) (p := Machine.free)
    (s := Server.initial fun _ _ => 0)
    (l := serving ++ acceptRound 0 5 ++
      [.epollWait (.events [⟨5, .socket 0, ⟨true, false, false, false, false⟩⟩]),
        .dispatch (.got [65, 66]) (.accepted 0), .processCompletion,
        .memcpy (sendBuf 0) (recvBuf 0) 2,
        .writeAll 0 (sendBuf 0) 2 (.onWrite 0) 5000 (.accepted 1) ⟨11, 0⟩, .ret,
        .processCompletion, .dispatch (.got []) (.accepted 0), .startTimer ⟨12, 0⟩, .processTimer,
        .epollWait (.events [⟨5, .socket 0, ⟨false, false, true, false, false⟩⟩]),
        .dispatch (.got []) (.accepted 0), .dispatch (.got []) (.accepted 1), .processCompletion])
    (f := fun s => ((s.core.callback, s.todo), received 0 s.core.heap.log,
      decide (∀ e ∈ s.core.heap.log, fits e)))
    (b := ((some (.io ⟨0, .write⟩ ⟨1, .onWrite 0⟩ Error.new 2 .completion), [.startRecv 0]),
      [65, 66], true)) ⟨_, rfl⟩ rfl
  simp only [Prod.mk.injEq, decide_eq_true_eq] at hf
  obtain ⟨⟨hcall, htodo⟩, hreceived, hk⟩ := hf
  have henter : s.enters (.io ⟨0, .write⟩ ⟨1, .onWrite 0⟩ Error.new 2 .completion) :=
    ⟨hcall, htodo⟩
  obtain ⟨-, hequal, hin⟩ := echoes_faithfully hr hk
  exact ⟨s, hr, henter, hreceived, (hequal 0 1 _ _ _ _ henter rfl (by decide)).trans hreceived, hin⟩

end EchoBenchmark.Echo
