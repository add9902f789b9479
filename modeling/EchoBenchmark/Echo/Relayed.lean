import EchoBenchmark.Echo.Faithful
import EchoBenchmark.Lib.Relay

/-!
The echo server as a relay: toward each client it is one with a single buffer, of the size of
`recvBuf`, that is filled only when all of it was sent. The relay begins anew where the accept
callback makes a new client at the address of an old one.
-/

namespace EchoBenchmark.Echo

open EchoBenchmark.Proactor
open History (Adds)

variable {s s' t : Server} {act : Action Fn} {c j : ClientId} {h : Heap Fn} {r : ReadResult}
  {w : WriteResult} {log₀ log log' log₁ : List Event} {m n : Nat}

/-- The bytes of the client change between two histories as those of a relay. -/
def Relays (c : ClientId) (log log' : List Event) : Prop :=
  Relay.Changes (Relay.halfDuplex BUFSIZE) (received c log) (sent c log) (received c log')
    (sent c log')

/-- The kernel moves no more bytes than it is asked for. -/
def Server.kernelObeys (s : Server) (act : Action Fn) : Prop :=
  match s.step act with
  | some s' => s'.kernelFits
  | none => True

instance (s : Server) : Decidable s.kernelFits := inferInstanceAs (Decidable (∀ e ∈ _, fits e))

instance (s : Server) (act : Action Fn) : Decidable (s.kernelObeys act) := by
  unfold Server.kernelObeys
  split <;> infer_instance

theorem Server.fits_of_obeys (ho : s.kernelObeys act) (hs : s.step act = some s') :
    s'.kernelFits := by
  rw [kernelObeys, hs] at ho
  exact ho

namespace Relays

theorem stays (ha : Adds (aside c) log log') : Relays c log log' :=
  Relay.Changes.stays (received_of_adds ha) (sent_of_adds ha)

/-- Entries that do not touch the bytes of the client may stand around the change. -/
theorem around (ha : Adds (aside c) log₀ log) (h : Relays c log log')
    (ha' : Adds (aside c) log' log₁) : Relays c log₀ log₁ := by
  unfold Relays at h ⊢
  rw [received_of_adds ha', sent_of_adds ha', ← received_of_adds ha, ← sent_of_adds ha]
  exact h

theorem sysRead {q : Ptr} {len : Int} (howes : Owes c log []) (hlen : r.bytes.length ≤ BUFSIZE) :
    Relays c log (.sysRead c q len r :: log) :=
  Relay.Changes.receives howes ⟨rfl, hlen⟩ received_sysRead sent_sysRead

theorem sysWrite {q : Ptr} {len : Int} {bytes rest : List UInt8}
    (howes : Owes c log (bytes ++ rest)) : Relays c log (.sysWrite c q len w bytes :: log) :=
  Relay.Changes.sends howes received_sysWrite sent_sysWrite

end Relays

/-- A step that leaves the bytes of all clients alone. -/
theorem relays_of_quiet (hlog : Adds quiet log log') : Relays c log log' :=
  .stays (hlog.mono fun _ he => he.1 c)

/-- A `::read` for client `j`, which owes nothing. -/
theorem relays_of_fetches (hlog₀ : Adds quiet log h.log) (hr : Fetches j r h s'.core.heap)
    (howes : Owes j log []) (hk : s'.kernelFits) : Relays c log s'.core.heap.log := by
  obtain ⟨past, hpast, hlog⟩ := hr.log
  have hlen : r.bytes.length ≤ BUFSIZE := by
    have hfits : fits (.sysRead j (recvBuf j) BUFSIZE r) :=
      hk _ (hlog.suffix.subset List.mem_cons_self)
    exact hfits
  have hbefore : Adds quiet log past := hlog₀.trans hpast
  by_cases hj : j = c
  · subst hj
    have howes' : Owes j past [] := howes.adds (hbefore.mono fun _ he => he.1 j)
    exact .around (hbefore.mono fun _ he => he.1 j) (.sysRead howes' hlen)
      (hlog.mono fun _ he => he.1 j)
  · have hread : aside c (.sysRead j (recvBuf j) BUFSIZE r) :=
      aside_sysRead (fun he => hj he.symm) _ _ _
    apply Relays.stays
    apply Adds.trans _ (hlog.mono fun _ he => he.1 c)
    exact (hbefore.mono fun _ he => he.1 c).cons hread

/-- A `::write` of what client `j` owes. -/
theorem relays_of_sends (hlog₀ : Adds quiet log h.log) (hw : Sends j m n w h s'.core.heap)
    (hmn : m < n) (howes : Owes j log (h.mem.load ((sendBuf j).add m) (n - m)))
    (hk : s'.kernelFits) : Relays c log s'.core.heap.log := by
  obtain ⟨past, hpast, hlog⟩ := hw.log
  have hlen : w.count ≤ n - m := by
    have hfits : w.count ≤ ((n : Int) - m).toNat :=
      hk _ (hlog.suffix.subset List.mem_cons_self)
    omega
  have hbefore : Adds quiet log past := hlog₀.trans hpast
  by_cases hj : j = c
  · subst hj
    have hsplit : n - m = w.count + (n - m - w.count) := by omega
    rw [hsplit, Mem.load_add] at howes
    have howes' := howes.adds (hbefore.mono fun _ he => he.1 j)
    exact .around (hbefore.mono fun _ he => he.1 j) (.sysWrite howes')
      (hlog.mono fun _ he => he.1 j)
  · apply Relays.stays
    apply Adds.trans _ (hlog.mono fun _ he => he.1 c)
    exact (hbefore.mono fun _ he => he.1 c).cons (aside_sysWrite (fun he => hj he.symm) _ _ _ _)

/-! ### The moves are those of a relay -/

theorem relays_received {now : Timeval} (hi : Sound s) (hf : Faithful s) (hk : s'.kernelFits)
    (htodo : s.todo = [.startRecv j]) (he : s'.core.heap =
      (s.core.heap.readSome j (recvBuf j) BUFSIZE (.onRead j) TIMEOUT_MS r now).1) :
    Relays c s.core.heap.log s'.core.heap.log := by
  have hph := hi.phase
  have howes := hf.handling
  rw [htodo] at hph howes
  cases hph with
  | starting hst _ _ _ => exact hst.elim
  | receiving _ _ hidle _ =>
    have hr := fetches_readSome (.onRead j) TIMEOUT_MS r now (hidle .read)
    rw [← he] at hr
    exact relays_of_fetches .refl hr howes hk

theorem relays_wrote {k : Int} {now : Timeval} (hi : Sound s) (hf : Faithful s)
    (hk : s'.kernelFits) (htodo : s.todo = [.writeAll j k]) (he : s'.core.heap =
      (s.core.heap.writeAll j (sendBuf j) k (.onWrite j) TIMEOUT_MS w now).1) :
    Relays c s.core.heap.log s'.core.heap.log := by
  have hph := hi.phase
  have hhandling := hf.handling
  rw [htodo] at hph hhandling
  obtain ⟨n, rfl, -, howes⟩ := hhandling
  cases hph with
  | starting hst _ _ _ => exact hst.elim
  | writing _ _ hidle _ _ hpos =>
    have hw := sends_writeAll n (.onWrite j) TIMEOUT_MS w now (hidle .write)
    rw [← he] at hw
    have hptr : (sendBuf j).add (0 : Nat) = sendBuf j := by simp [Ptr.add]
    refine relays_of_sends .refl hw (by omega) ?_ hk
    rw [hptr]
    exact howes

theorem relays_read (hf : Faithful s) (hk : s'.kernelFits)
    (he : s'.core.heap = (s.core.heap.emit (.dispatched (.socket j) .onRead)).onRead j r) :
    Relays c s.core.heap.log s'.core.heap.log := by
  have hnote : Adds quiet s.core.heap.log
      (s.core.heap.emit (.dispatched (.socket j) .onRead)).log :=
    Adds.refl.cons (quiet_of_isNote trivial id)
  by_cases hp : (s.core.heap.tok ⟨j, .read⟩).mode.pending
  · obtain ⟨hm, hb, hs, howes⟩ := (hf.operating j).reads hp
    have hr := fetches_onRead (h := s.core.heap.emit (.dispatched (.socket j) .onRead)) (r := r)
      hm hb hs
    rw [← he] at hr
    exact relays_of_fetches hnote hr howes hk
  · rw [Heap.onRead_idle (by rw [Heap.tok_emit]; exact hp)] at he
    rw [he]
    exact relays_of_quiet hnote

theorem relays_written (hf : Faithful s) (hk : s'.kernelFits)
    (he : s'.core.heap = (s.core.heap.emit (.dispatched (.socket j) .onWrite)).onWrite j w) :
    Relays c s.core.heap.log s'.core.heap.log := by
  have hnote : Adds quiet s.core.heap.log
      (s.core.heap.emit (.dispatched (.socket j) .onWrite)).log :=
    Adds.refl.cons (quiet_of_isNote trivial id)
  by_cases hm : (s.core.heap.tok ⟨j, .write⟩).mode = .all
  · obtain ⟨m, n, hb, hio, hs, hmn, -, howes⟩ := (hf.operating j).writes hm
    have hw := sends_onWrite (h := s.core.heap.emit (.dispatched (.socket j) .onWrite)) (w := w)
      hm hb hio hs
    rw [← he] at hw
    exact relays_of_sends hnote hw hmn howes hk
  · rw [Heap.onWrite_idle (by rw [Heap.tok_emit]; exact hm)] at he
    rw [he]
    exact relays_of_quiet hnote

/-- A callback is called; nothing is read or written for that. -/
theorem relays_called {t : TokenId} {err : Error} {bytes : Int} {via : Via}
    (hcalls : Calls s s' h t err bytes via) (hlog : Adds quiet s.core.heap.log h.log) :
    Relays c s.core.heap.log s'.core.heap.log := by
  obtain ⟨cb, -, -, -, hheap, -⟩ := hcalls.cb
  rw [hheap]
  exact relays_of_quiet (hlog.cons ⟨fun _ => ⟨nofun, fun _ => id⟩, id⟩)

/-- The accept callback makes client `c`. -/
def creates (c : ClientId) (_ : Server) : Action Fn → Prop
  | .create j _ _ _ _ => j = c
  | _ => False

/-- Nothing was read from a new client, or written to it. -/
theorem renewed_of_step (hc : creates c s act) (hs : s.step act = some s') :
    received c s'.core.heap.log = [] ∧ sent c s'.core.heap.log = [] := by
  cases act with
  | create j soc rtv wtv ctl =>
    obtain rfl : j = c := hc
    have hcore := Server.core_step hs
    have hafter : Adds (aside j) (.created j :: s.core.heap.log) s'.core.heap.log := by
      obtain ⟨core, todo⟩ := s'
      dsimp only [State.step] at hcore ⊢
      split at hcore
      · cases hcore
        exact (calm_register (.refl _)).quiet.mono fun _ he => he.1 j
      · cases hcore
    rw [received_of_adds hafter, sent_of_adds hafter, received, sent, History.since_cons_self]
    exact ⟨rfl, rfl⟩
  | _ => exact hc.elim

/-- One step of the echo server that does not make the client. -/
theorem relays_of_step (hi : Sound s) (hf : Faithful s) (hk : s'.kernelFits)
    (hs : s.step act = some s') (hc : ¬ creates c s act) :
    Relays c s.core.heap.log s'.core.heap.log := by
  cases moves_of_step hi hs with
  | signal _ _ hc _ _ _ => exact relays_of_quiet hc.quiet
  | starts _ _ hc _ _ _ => exact relays_of_quiet hc.quiet
  | quiet _ _ hc _ => exact relays_of_quiet hc.quiet
  | accepted _ _ hc _ _ _ => exact relays_of_quiet hc.quiet
  | @created j soc rtv wtv ctl ha _ _ _ hcalm _ _ =>
    have hj : c ≠ j := by
      rintro rfl
      rw [ha] at hc
      exact hc rfl
    have hafter : Adds (aside c) (.created j :: s.core.heap.log) s'.core.heap.log :=
      hcalm.quiet.mono fun _ he => he.1 c
    exact .stays ((Adds.refl.cons (aside_created hj)).trans hafter)
  | received _ htodo _ he _ => exact relays_received hi hf hk htodo he
  | copied _ _ he _ =>
    rw [he]
    exact .stays (Adds.refl.cons ⟨nofun, fun _ => id⟩)
  | wrote htodo _ he _ => exact relays_wrote hi hf hk htodo he
  | closed _ _ hc _ _ _ => exact relays_of_quiet hc.quiet
  | @destroyed j _ _ he _ =>
    apply relays_of_quiet
    rw [he]
    refine Adds.cons ?_ ⟨fun _ => ⟨nofun, fun _ => id⟩, id⟩
    rw [Heap.log_unlink]
    exact .refl
  | read _ _ _ _ he _ => exact relays_read hf hk he
  | written _ _ _ _ he _ => exact relays_written hf hk he
  | completed _ _ _ _ _ hcalls _ => exact relays_called hcalls .refl
  | expired _ _ hcalls _ => exact relays_called hcalls .refl
  | hungup _ hcalls _ =>
    exact relays_called hcalls (Adds.refl.cons (quiet_of_isNote trivial id))

/-! ### The server as a relay -/

theorem free_of_obeys (hr : echo.Reachable Server.kernelObeys s) :
    echo.Reachable Machine.free s :=
  hr.mono fun _ _ _ => trivial

theorem kernelFits_of_reachable (hr : echo.Reachable Server.kernelObeys s) : s.kernelFits := by
  apply hr.invariant
  · rintro s₀ ⟨mem, rfl⟩ e he
    cases he
  · intro s₀ act s₁ _ _ hp hs
    exact Server.fits_of_obeys hp hs

theorem isRelay (c : ClientId) : Relay.IsRelay echo Server.kernelObeys (creates c)
    (Relay.halfDuplex BUFSIZE) (fun s => received c s.core.heap.log)
    (fun s => sent c s.core.heap.log) where
  starts := by
    rintro s ⟨mem, rfl⟩
    exact ⟨rfl, rfl⟩
  changes s act s' hr hp hc hs := by
    have hfree := free_of_obeys hr
    have hf := faithful_of_reachable hfree (kernelFits_of_reachable hr)
    exact relays_of_step (sound_of_reachable hfree) hf (Server.fits_of_obeys hp hs) hs hc
  renewed _ _ _ _ _ hc hs := renewed_of_step hc hs

/-- Toward each client the server is the relay with one buffer. Each step changes what was read from
the client and written to it as one step of that relay, but for the one that makes the client; every
run goes on as a run of the relay until the client is made anew; and the client is never owed more
than the buffer holds. -/
theorem echo_refines_relay (c : ClientId) :
    Relay.IsRelay echo Server.kernelObeys (creates c) (Relay.halfDuplex BUFSIZE)
      (fun s => received c s.core.heap.log) (fun s => sent c s.core.heap.log) ∧
    Relay.Refines echo Server.kernelObeys (creates c) (Relay.halfDuplex BUFSIZE)
      (fun s => received c s.core.heap.log) (fun s => sent c s.core.heap.log) ∧
    ∀ s, echo.Reachable Server.kernelObeys s →
      (received c s.core.heap.log).length ≤ (sent c s.core.heap.log).length + BUFSIZE :=
  ⟨isRelay c, (isRelay c).refines, fun _ hr => (isRelay c).length_received_le hr⟩

/-- Two bytes come with an event, and one of them is written at once. -/
def halfEchoed : List (Action Fn) :=
  serving ++ acceptRound 0 5 ++
    [.epollWait (.events [⟨5, .socket 0, ⟨true, false, false, false, false⟩⟩]),
      .dispatch (.got [65, 66]) (.accepted 0), .processCompletion,
      .memcpy (sendBuf 0) (recvBuf 0) 2,
      .writeAll 0 (sendBuf 0) 2 (.onWrite 0) 5000 (.accepted 1) ⟨11, 0⟩, .ret]

theorem echo_refines_relay_halfEchoed : ∃ t, echo.Reachable Server.kernelObeys t ∧
    received 0 t.core.heap.log = [65, 66] ∧ sent 0 t.core.heap.log = [65] ∧
    ∃ r : Relay UInt8, (relay UInt8 (Relay.halfDuplex BUFSIZE)).Reachable Machine.free r ∧
      r.received = [65, 66] ∧ r.sent = [65] := by
  obtain ⟨t, hr, hf⟩ := Machine.exists_of_exec (M := echo) (p := Server.kernelObeys)
    (s := Server.initial fun _ _ => 0) (l := halfEchoed)
    (f := fun s => (received 0 s.core.heap.log, sent 0 s.core.heap.log))
    (b := ([65, 66], [65])) ⟨_, rfl⟩ rfl
  obtain ⟨hreceived, hsent⟩ := Prod.mk.inj hf
  obtain ⟨r, -, hreach, -, hin, hout, -, -⟩ := (echo_refines_relay 0).2.1 t t hr .refl
  exact ⟨t, hr, hreceived, hsent, r, hreach, hin.trans hreceived, hout.trans hsent⟩

/-! ### What is owed when no function of the program runs -/

/-- The client waits for bytes and is owed none; or some came, and lie in `recvBuf`; or those behind
the first `m` in `sendBuf` are still to be sent; or the write ended, with all sent if it says so. -/
inductive Holds (h : Heap Fn) (c : ClientId) : Prop
  | waits : (h.tok ⟨c, .read⟩).mode = .some → (h.tok ⟨c, .write⟩).mode = .none →
      received c h.log = sent c h.log → Holds h c
  | filled {n : Nat} : (h.tok ⟨c, .read⟩).mode.finished → (h.tok ⟨c, .write⟩).mode = .none →
      (h.tok ⟨c, .read⟩).ioSize = n → n ≤ BUFSIZE →
      received c h.log = sent c h.log ++ h.mem.load (recvBuf c) n → Holds h c
  | sends {m n : Nat} : (h.tok ⟨c, .read⟩).mode = .none → (h.tok ⟨c, .write⟩).mode = .all →
      (h.tok ⟨c, .write⟩).ioSize = m → (h.tok ⟨c, .write⟩).bufSize = n → m < n → n ≤ BUFSIZE →
      received c h.log = sent c h.log ++ h.mem.load ((sendBuf c).add m) (n - m) → Holds h c
  | sentAll : (h.tok ⟨c, .read⟩).mode = .none → (h.tok ⟨c, .write⟩).mode.finished →
      (0 < (h.tok ⟨c, .write⟩).ioSize → received c h.log = sent c h.log) → Holds h c

theorem received_eq_sent (ho : Owes c log []) : received c log = sent c log := by
  have heq : received c log = sent c log ++ [] := ho
  rwa [List.append_nil] at heq

/-- Whenever no function of the program runs, each client has one operation in progress, and that
says which bytes the client is still owed and where they lie. -/
theorem owed_at_rest (hr : echo.Reachable Machine.free s) (hk : s.kernelFits) (htodo : s.todo = [])
    (hl : s.core.heap.live c = true) : Holds s.core.heap c := by
  have hi := sound_of_reachable hr
  have hop := (faithful_of_reachable hr hk).operating c
  obtain ⟨d, hd, hother⟩ := hi.clients.busy c hl (by rw [htodo]; exact serves_nil)
  cases d with
  | read =>
    have hidle : (s.core.heap.tok ⟨c, .write⟩).mode = .none := hother .write nofun
    by_cases hf : (s.core.heap.tok ⟨c, .read⟩).mode.finished
    · obtain ⟨n, hn, hle, howes⟩ := hop.filled hf
      exact .filled hf hidle hn hle howes
    · obtain ⟨hm, -, -, howes⟩ := hop.reads (Mode.pending_of_not_finished hd hf)
      exact .waits hm hidle (received_eq_sent howes)
  | write =>
    have hidle : (s.core.heap.tok ⟨c, .read⟩).mode = .none := hother .read nofun
    by_cases hf : (s.core.heap.tok ⟨c, .write⟩).mode.finished
    · exact .sentAll hidle hf fun hpos => received_eq_sent (hop.emptied hf hpos)
    · have hm : (s.core.heap.tok ⟨c, .write⟩).mode = .all :=
        (Mode.pending_of_not_finished hd hf).resolve_left
          (write_mode_of_reachable (core_reachable hr) rfl)
      obtain ⟨m, n, -, hio, hs, hmn, hn, howes⟩ := hop.writes hm
      exact .sends hidle hm hio hs hmn hn howes

theorem owed_at_rest_halfEchoed : ∃ s, echo.Reachable Machine.free s ∧
    (s.core.heap.tok ⟨0, .write⟩).mode = .all ∧ sent 0 s.core.heap.log = [65] ∧
    Holds s.core.heap 0 := by
  obtain ⟨s, hr, hf⟩ := Machine.exists_of_exec (M := echo) (p := Machine.free)
    (s := Server.initial fun _ _ => 0) (l := halfEchoed)
    (f := fun s => ((s.todo, s.core.heap.live 0), (s.core.heap.tok ⟨0, .write⟩).mode,
      sent 0 s.core.heap.log, decide s.kernelFits))
    (b := (([], true), .all, [65], true)) ⟨_, rfl⟩ rfl
  simp only [Prod.mk.injEq, decide_eq_true_eq] at hf
  obtain ⟨⟨htodo, hl⟩, hm, hsent, hk⟩ := hf
  exact ⟨s, hr, hm, hsent, owed_at_rest hr hk htodo hl⟩

end EchoBenchmark.Echo
