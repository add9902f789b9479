import EchoBenchmark.Proactor.Delivery
import EchoBenchmark.Proactor.Kernel

/-!
Edge triggering. An operation that waits has a batch event or an edge to come, as long as no
`readAll` takes the last bytes before an end of stream that nothing reports any more.
-/

namespace EchoBenchmark.Proactor

variable {κ : Type} {s s' : State κ} {act : Action κ} {id j : SockId} {evs rest : List PollEvent}
  {In In' Out Out' : Prop} {h h' : Heap κ}

/-- The batch has still to call `onRead` of Socket `id`. -/
def inputAhead (evs : List PollEvent) (id : SockId) : Prop :=
  ∃ ev ∈ evs, ev.handler = .socket id ∧ ev.events.input = true

/-- The batch has still to call `onWrite` of Socket `id`. -/
def outputAhead (evs : List PollEvent) (id : SockId) : Prop :=
  ∃ ev ∈ evs, ev.handler = .socket id ∧ ev.events.pollout = true

instance (evs : List PollEvent) (id : SockId) : Decidable (inputAhead evs id) :=
  inferInstanceAs (Decidable (∃ ev ∈ evs, _))

theorem inputAhead_of_cons {ev : PollEvent} (hev : ev.handler ≠ .socket id) :
    inputAhead (ev :: rest) id → inputAhead rest id := by
  rintro ⟨ev', hmem, hh, hin⟩
  rcases List.mem_cons.mp hmem with rfl | hmem
  · exact (hev hh).elim
  · exact ⟨ev', hmem, hh, hin⟩

theorem outputAhead_of_cons {ev : PollEvent} (hev : ev.handler ≠ .socket id) :
    outputAhead (ev :: rest) id → outputAhead rest id := by
  rintro ⟨ev', hmem, hh, hout⟩
  rcases List.mem_cons.mp hmem with rfl | hmem
  · exact (hev hh).elim
  · exact ⟨ev', hmem, hh, hout⟩

namespace State

/-- A Socket with an open descriptor in the epoll set. -/
def watches (s : State κ) (id : SockId) : Prop :=
  s.heap.live id = true ∧ s.heap.soc id ≠ INVALID_SOCKET ∧
    ∃ i ∈ s.interest, i.fd = s.heap.soc id ∧ i.handler = .socket id

/-- What Socket `id` waits for and the kernel has will be reported by an edge to come. -/
structure Wakeful (s : State κ) (id : SockId) : Prop where
  input : (s.heap.tok ⟨id, .read⟩).mode.pending → (conn id s.heap.log).readable →
    (conn id s.heap.log).inEdge = true
  output : (s.heap.tok ⟨id, .write⟩).mode = .all → 0 < (conn id s.heap.log).space →
    (conn id s.heap.log).outEdge = true

/-! ### Runs without a stranded end of stream -/

/-- A `::read` of `len` bytes takes the last bytes before the end of the stream, and nothing will
call `onRead` for it. -/
def strands (s : State κ) (id : SockId) (len : Int) (r : ReadResult) (rest : List PollEvent) :
    Prop :=
  0 < r.ret ∧ r.ret < len ∧ (conn id s.heap.log).eof = true ∧
    (conn id s.heap.log).inEdge = false ∧ ¬ inputAhead rest id

/-- The next step makes a read of a `readAll` that strands the end of the stream. -/
def strandsEof (s : State κ) : Action κ → Prop
  | .readAll id _ size _ _ r _ =>
    (s.heap.tok ⟨id, .read⟩).mode = .none ∧ s.strands id size r s.pc.waiting
  | .dispatch r _ =>
    match s.pc with
    | .event (ev :: rest) =>
      match ev.handler with
      | .socket id => ev.events.input = true ∧ (s.heap.tok ⟨id, .read⟩).mode = .all ∧
        s.strands id ((s.heap.tok ⟨id, .read⟩).bufSize - (s.heap.tok ⟨id, .read⟩).ioSize) r rest
      | .acceptor _ => False
    | _ => False
  | _ => False

instance (id : SockId) (len : Int) (r : ReadResult) (rest : List PollEvent) :
    Decidable (s.strands id len r rest) := inferInstanceAs (Decidable (_ ∧ _))

instance : Decidable (s.strandsEof act) := by
  apply @Action.casesOn κ _ act <;> (intros; dsimp only [strandsEof]; try infer_instance)
  generalize s.pc = p
  apply @Pc.casesOn _ p <;> (intros; try (dsimp only; infer_instance))
  rename_i evs
  apply @List.casesOn _ _ evs
  · dsimp only
    infer_instance
  · intro ev rest
    dsimp only
    generalize ev.handler = h
    apply @Handler.casesOn _ h <;> (intros; dsimp only; infer_instance)

end State

/-- The kernel answers as it can, and reports no error and no hang-up. -/
def kernelAnswers (s : State κ) (act : Action κ) : Prop :=
  noHangup s act ∧ ∀ s' ∈ s.step act, Plausible s'.heap.log

instance (s : State κ) (act : Action κ) : Decidable (kernelAnswers s act) :=
  inferInstanceAs (Decidable (_ ∧ _))

/-- In addition no end of a stream is stranded. -/
def kernelWakes (s : State κ) (act : Action κ) : Prop :=
  kernelAnswers s act ∧ ¬ s.strandsEof act

instance (s : State κ) (act : Action κ) : Decidable (kernelWakes s act) :=
  inferInstanceAs (Decidable (_ ∧ _))

/-! ### The tokens of one Socket -/

namespace Heap

def isOpen (h : Heap κ) (id : SockId) : Prop := h.live id = true ∧ h.soc id ≠ INVALID_SOCKET

/-- What the Socket waits for is reported by an edge to come, by `In` or by `Out`. -/
structure Awake (h : Heap κ) (id : SockId) (In Out : Prop) : Prop where
  input : (h.tok ⟨id, .read⟩).mode.pending → (conn id h.log).InputSafe In
  output : (h.tok ⟨id, .write⟩).mode = .all → (conn id h.log).OutputSafe Out

theorem isOpen_of_eq (hl : h'.live id = h.live id) (hs : h'.soc id = h.soc id)
    (ho : h'.isOpen id) : h.isOpen id := by
  rw [isOpen, hl, hs] at ho
  exact ho

theorem Noted.isOpen (hn : Noted h h') (ho : h'.isOpen id) : h.isOpen id := by
  refine isOpen_of_eq (hn.live id) ?_ ho
  rcases hn.soc id with hs | hs
  · exact hs
  · exact (ho.2 hs).elim

end Heap

section Events

variable {e : Event} {t u : TokenId} {c : Conn} {log log' : List Event}

theorem Event.isIo.unique (ht : e.isIo t) (hu : e.isIo u) : t = u := by
  cases e with
  | sysRead | sysWrite => exact Eq.trans ht (Eq.symm hu)
  | _ => exact ht.elim

theorem Event.isIo.ne_polled (ht : e.isIo t) (evs : List PollEvent) : e ≠ .polled evs := by
  rintro rfl
  exact ht

theorem Event.isIo.ne_created (ht : e.isIo t) (id : SockId) : e ≠ .created id := by
  rintro rfl
  exact ht

theorem Event.isIo.after_other (ht : e.isIo t) (hne : t.sock ≠ id) : c.after id e = c := by
  cases e with
  | sysRead i buf len r | sysWrite i buf len w bytes =>
    have hi : i ≠ id := by
      rintro rfl
      exact hne (congrArg TokenId.sock ht)
    simp [Conn.after, hi]
  | _ => exact ht.elim

theorem Event.isNote.ne_created (hn : e.isNote) (id : SockId) : e ≠ .created id := by
  rintro rfl
  exact hn

theorem Event.isNote.not_io (hn : e.isNote) : ¬ e.isIo t := by
  cases e <;> first | exact hn.elim | exact id

/-- At most one entry about the batch was added, and that is not a report. -/
def Unreported (log log' : List Event) : Prop :=
  batchLog log' = batchLog log ∨ ∃ e, (∀ l, e ≠ .polled l) ∧ batchLog log' = e :: batchLog log

theorem Unreported.cons (hb : batchLog log' = e :: batchLog log) (he : ∀ l, e ≠ .polled l) :
    Unreported log log' := .inr ⟨e, he, hb⟩

theorem not_polled {evs : List Event} (hlog : log' = evs ++ log) (hb : Unreported log log') :
    ∀ l, Event.polled l ∉ evs := by
  intro l hl
  have hmem : Event.polled l ∈ batchLog evs := List.mem_filter.mpr ⟨hl, rfl⟩
  have happ : batchLog log' = batchLog evs ++ batchLog log := by
    rw [hlog]
    exact List.filter_append _ _
  rcases hb with hb | ⟨e, he, hb⟩
  · rw [hb] at happ
    rw [List.self_eq_append_left.mp happ] at hmem
    cases hmem
  · rw [hb, ← List.singleton_append] at happ
    rw [← List.append_cancel_right happ] at hmem
    exact he l (List.mem_singleton.mp hmem).symm

end Events

namespace Heap

namespace Awake

theorem mono (ha : Awake h id In Out) (hi : In → In') (ho : Out → Out') : Awake h id In' Out' :=
  ⟨fun hp => (ha.input hp).mono hi, fun hm => (ha.output hm).mono ho⟩

/-- Tokens that keep waiting do it as before. -/
theorem frame (ha : Awake h id In Out) (hc : conn id h'.log = conn id h.log)
    (hm : ∀ d, (h'.tok ⟨id, d⟩).mode = (h.tok ⟨id, d⟩).mode ∨ (h'.tok ⟨id, d⟩).mode = .none) :
    Awake h' id In Out := by
  refine ⟨fun hp => ?_, fun hall => ?_⟩
  · rw [hc]
    rcases hm .read with h | h
    · exact ha.input (h ▸ hp)
    · exact (Mode.ne_none_of_pending hp h).elim
  · rw [hc]
    rcases hm .write with h | h
    · exact ha.output (h ▸ hall)
    · rw [hall] at h
      cases h

theorem noted (ha : Awake h id In Out) (hn : Noted h h') (hb : Unreported h.log h'.log) :
    Awake h' id In Out := by
  obtain ⟨evs, he, hlog⟩ := hn.log
  have hp := not_polled hlog hb
  have hkeep : ∀ {P : Conn → Prop}, (∀ e c, e ∈ evs → P c → P (c.after id e)) →
      P (conn id h.log) → P (conn id h'.log) := by
    intro P hstep h₀
    rw [hlog]
    clear hlog he hp
    induction evs with
    | nil => exact h₀
    | cons e evs ih =>
      exact hstep e _ List.mem_cons_self
        (ih fun e' c hmem => hstep e' c (List.mem_cons_of_mem e hmem))
  refine ⟨fun hpend => ?_, fun hall => ?_⟩
  · rw [hn.tok] at hpend
    refine hkeep (P := fun c => c.InputSafe In) (fun e c hmem hs => ?_) (ha.input hpend)
    exact hs.after (fun l hl => hp l (hl ▸ hmem)) ((he e hmem).ne_created id)
  · rw [hn.tok] at hall
    refine hkeep (P := fun c => c.OutputSafe Out) (fun e c hmem hs => ?_) (ha.output hall)
    exact hs.after (fun l hl => hp l (hl ▸ hmem)) ((he e hmem).ne_created id) (he e hmem).not_io

/-- The other direction of the Socket of a kernel call waits as before. -/
theorem input_of_io {e : Event} {t : TokenId} (ha : Awake h id In Out) (ht : e.isIo t)
    (hm : (h.tok ⟨id, .read⟩).mode.pending) : ((conn id h.log).after id e).InputSafe In :=
  (ha.input hm).after ht.ne_polled (ht.ne_created id)

theorem output_of_io {e : Event} {t : TokenId} (ha : Awake h id In Out) (ht : e.isIo t)
    (hne : t ≠ ⟨id, .write⟩) (hm : (h.tok ⟨id, .write⟩).mode = .all) :
    ((conn id h.log).after id e).OutputSafe Out :=
  (ha.output hm).after ht.ne_polled (ht.ne_created id) fun hw => hne (ht.unique hw)

/-- An operation waits after it is opened if its first kernel call found nothing more. -/
theorem opens {q : Request κ} {ok : Bool} (ha : Awake h id In Out) (ho : Opens h q (h', ok))
    (hk : Plausible h'.log)
    (heof : q.token = ⟨id, .read⟩ → q.mode = .all → ∀ buf len r,
      q.call h.mem = .sysRead id buf len r → 0 < r.ret →
      r.ret < len → (h.tok q.token).mode = .none → (conn id h.log).eof = true →
      (conn id h.log).inEdge = true ∨ In) : Awake h' id In Out := by
  -- what the kernel call does to a token that did not make it
  have hin : ∀ {e : Event} {h₁ : Heap κ}, Begun h q e h₁ → (⟨id, .read⟩ : TokenId) ≠ q.token →
      (h₁.tok ⟨id, .read⟩).mode.pending → (conn id h₁.log).InputSafe In := by
    intro e h₁ hs hne hp
    rw [hs.other _ hne] at hp
    rw [hs.log]
    exact ha.input_of_io hs.io hp
  have hout : ∀ {e : Event} {h₁ : Heap κ}, Begun h q e h₁ → (⟨id, .write⟩ : TokenId) ≠ q.token →
      (h₁.tok ⟨id, .write⟩).mode = .all → (conn id h₁.log).OutputSafe Out := by
    intro e h₁ hs hne hm
    rw [hs.other _ hne] at hm
    rw [hs.log]
    exact ha.output_of_io hs.io (Ne.symm hne) hm
  cases ho with
  | refused d hm =>
    refine ha.frame rfl fun d' => .inl ?_
    rw [tok_refuse]
    split
    · rename_i hu
      rw [hu]
    · rfl
  | finished hs hf =>
    refine ⟨fun hp => ?_, fun hm => ?_⟩
    · rw [tok_finish] at hp
      split at hp
      · exact (Mode.not_finished_of_pending hp hf).elim
      · rename_i hne
        rw [log_finish]
        exact hin hs hne hp
    · rw [tok_finish] at hm
      split at hm
      · dsimp only at hm
        rw [hm] at hf
        exact absurd hf (by decide)
      · rename_i hne
        rw [log_finish]
        exact hout hs hne hm
  | @parked e h₁ n hs hp he =>
    have hlog : conn id (h₁.park q.token n q.mode q.timeoutMsec q.clock).log = conn id h₁.log := by
      rcases log_park_cases h₁ q.token n q.mode q.timeoutMsec q.clock with h | ⟨tv, h⟩
      · rw [h]
      · rw [h]
        rfl
    have hpos : e.possible (.started q.token h.nextCall :: h.log) := by
      have hsuf : h₁.log <:+ (h₁.park q.token n q.mode q.timeoutMsec q.clock).log := by
        rcases log_park_cases h₁ q.token n q.mode q.timeoutMsec q.clock with h | ⟨tv, h⟩
        · exact ⟨[], by rw [List.nil_append, h]⟩
        · rw [h]
          exact List.suffix_cons _ _
      have hpl := hk.of_suffix hsuf
      rw [hs.log] at hpl
      exact hpl.1
    have hio := hs.io
    have hmade := hs.made
    refine ⟨fun hp' => ?_, fun hm => ?_⟩
    · rw [hlog]
      rw [tok_park] at hp'
      split at hp'
      · rename_i ht
        rw [hs.log]
        cases e with
        | sysRead i buf len r =>
          have hi : i = id := congrArg TokenId.sock (hio.symm.trans ht.symm)
          subst hi
          refine inputSafe_of_sysRead hpos (he.imp_right fun h => h.2) fun h0 hlt heof' => ?_
          have hall : q.mode = .all := by
            rcases he with hr | he
            · rw [hr] at h0
              exact absurd h0 (by decide)
            · exact he.1
          exact heof ht.symm hall buf len r hmade.symm h0 hlt hs.free heof'
        | sysWrite i buf len w bytes =>
          rw [← ht] at hio
          cases hio
        | _ => exact hio.elim
      · rename_i hne
        exact hin hs hne hp'
    · rw [hlog]
      rw [tok_park] at hm
      split at hm
      · rename_i ht
        rw [hs.log]
        cases e with
        | sysRead i buf len r =>
          rw [← ht] at hio
          cases hio
        | sysWrite i buf len w bytes =>
          have hi : i = id := congrArg TokenId.sock (hio.symm.trans ht.symm)
          subst hi
          exact outputSafe_of_sysWrite hpos he
        | _ => exact hio.elim
      · rename_i hne
        exact hout hs hne hm

/-- An event for another Socket. -/
theorem progresses_other {t : TokenId} (ha : Awake h id In Out) (hp : Progresses h t h')
    (hne : t.sock ≠ id) : Awake h' id In Out := by
  refine ha.frame ?_ fun d => .inl ?_
  · rcases hp.log with hl | ⟨e, he, hl⟩
    · rw [hl]
    · rw [hl]
      exact he.after_other hne
  · rw [hp.other]
    rintro rfl
    exact hne rfl

/-- After `onRead` the read waits again only for what comes, or for the end of the stream. -/
theorem onRead {r : ReadResult} (ha : Awake h id In Out) (hk : Plausible (h.onRead id r).log)
    (heof : (h.tok ⟨id, .read⟩).mode = .all → 0 < r.ret →
      r.ret < (h.tok ⟨id, .read⟩).bufSize - (h.tok ⟨id, .read⟩).ioSize →
      (conn id h.log).eof = true → (conn id h.log).inEdge = true ∨ In') :
    Awake (h.onRead id r) id In' Out := by
  refine ⟨fun hp => ?_, fun hm => ?_⟩
  · obtain ⟨buf, len, hlog, hx⟩ := onRead_waits hp
    rw [hlog] at hk ⊢
    refine inputSafe_of_sysRead hk.1 (hx.imp_right fun h => h.2.2) fun h0 hlt he => ?_
    rcases hx with hx | ⟨hall, rfl, -, -⟩
    · rw [hx] at h0
      exact absurd h0 (by decide)
    · exact heof hall h0 hlt he
  · have hpr : h.Progresses _ (h.onRead id r) := onRead_progresses
    rw [hpr.other (by simp)] at hm
    rcases hpr.log with hl | ⟨e, he, hl⟩
    · rw [hl]
      exact ha.output hm
    · rw [hl]
      exact ha.output_of_io he (by simp) hm

/-- After `onWrite` the write waits again only for space. -/
theorem onWrite {w : WriteResult} (ha : Awake h id In Out) (hk : Plausible (h.onWrite id w).log) :
    Awake (h.onWrite id w) id In Out' := by
  have hpr : h.Progresses _ (h.onWrite id w) := onWrite_progresses
  refine ⟨fun hp => ?_, fun hm => ?_⟩
  · rw [hpr.other (by simp)] at hp
    rcases hpr.log with hl | ⟨e, he, hl⟩
    · rw [hl]
      exact ha.input hp
    · rw [hl]
      exact ha.input_of_io he hp
  · generalize h.onWrite id w = h₁ at hpr hm hk
    cases hpr with
    | idle hno =>
      have hsome := (hno (.inr hm)).2
      rw [hm] at hsome
      cases hsome
    | @waits e _ _ hs he =>
      have hio := hs.io
      rw [hs.log] at hk ⊢
      cases e with
      | sysRead i buf len r => cases hio
      | sysWrite i buf len w bytes =>
        cases hio
        exact outputSafe_of_sysWrite hk.1 he
      | _ => exact hio.elim
    | finishes _ hs hf =>
      rw [tok_finish, if_pos rfl] at hm
      dsimp only at hm
      rw [hm] at hf
      exact absurd hf (by decide)

end Awake

end Heap

/-! ### Every step -/

namespace State

/-- The event whose `EPOLLOUT` is still looked at. -/
def inHandForOutput (s : State κ) : List PollEvent :=
  match s.pc with
  | .drainRead ev _ => if ev.handler ∈ s.deleted then [] else [ev]
  | .output ev _ => [ev]
  | _ => []

/-- Every open Socket has an edge to come for what it waits for, or an event of the batch. -/
def Watchful (s : State κ) : Prop :=
  ∀ id, s.heap.isOpen id → s.heap.Awake id (inputAhead s.pc.waiting id)
    (outputAhead (s.inHandForOutput ++ s.pc.waiting) id)

theorem conn_invoke {t : TokenId} {err : Error} {bytes : Int} {via : Via} :
    conn id (s.invoke t err bytes via).heap.log = conn id s.heap.log := by
  unfold invoke
  split <;> rfl

/-- What steps outside of the dispatches do to the tokens of an open Socket. -/
theorem awake_effect (he : Effect s act s') (hb : Unreported s.heap.log s'.heap.log)
    (hk : Plausible s'.heap.log) (hno : ¬ s.strandsEof act) (hup : ∀ j, ¬ s.hangsUp j)
    (hturn : ∀ t, ¬ Turn s s' t)
    (ha : s.heap.isOpen id → s.heap.Awake id (inputAhead s.pc.waiting id) Out)
    (ho : s'.heap.isOpen id) : s'.heap.Awake id (inputAhead s.pc.waiting id) Out := by
  cases he with
  | noted hn _ => exact (ha (hn.isOpen ho)).noted hn hb
  | @created j soc rtv wtv hl hn hpc =>
    by_cases hj : id = j
    · subst hj
      have hidle : ∀ d, (s'.heap.tok ⟨id, d⟩).mode = .none := by
        intro d
        rw [hn.tok, Heap.tok_create, if_pos rfl]
        rfl
      refine ⟨fun hp => (Mode.ne_none_of_pending hp (hidle _)).elim, fun hm => ?_⟩
      rw [hidle] at hm
      cases hm
    · have hopen : s.heap.isOpen id :=
        Heap.isOpen_of_eq (Heap.live_create hj _ _ _) (Heap.soc_create hj _ _ _) (hn.isOpen ho)
      refine Heap.Awake.noted ((ha hopen).frame ?_ fun d => .inl ?_) hn hb
      · exact if_neg (Ne.symm hj)
      · rw [Heap.tok_create, if_neg hj]
  | @opened q hq hl hop hpc =>
    refine (ha (Heap.isOpen_of_eq (hop.live id) (hop.soc id) ho)).opens hop hk ?_
    intro htok hall buf len r hcall h0 hlt hfree heof
    cases act with
    | readSome i b size cb ms r' now =>
      cases hq
      cases hall
    | readAll i b size cb ms r' now =>
      cases hq
      cases hcall
      cases htok
      by_contra hnot
      rw [not_or, Bool.not_eq_true] at hnot
      exact hno ⟨hfree, h0, hlt, heof, hnot⟩
    | writeAll i b size cb ms w now =>
      cases hq
      cases hcall
    | _ => cases hq
  | progressed hl hn hpr ht => exact (hturn _ ht).elim
  | @destroyed j h₁ hl hn heq hpc =>
    rw [heq] at ho
    have hj : id ≠ j := by
      rintro rfl
      have hdead := ho.1
      rw [Heap.live_release, if_pos rfl] at hdead
      cases hdead
    have hopen : h₁.isOpen id := by
      refine Heap.isOpen_of_eq ?_ ?_ ho
      · rw [Heap.live_release, if_neg hj, Heap.live_unlink]
      · rw [Heap.soc_release hj, Heap.soc_unlink]
    have hlog : s'.heap.log = .destroyed j :: h₁.log := by
      rw [heq]
      exact congrArg (Event.destroyed j :: ·) Heap.log_unlink
    rw [hlog] at hb
    refine ((ha (hn.isOpen hopen)).noted hn hb).frame ?_ fun d => .inl ?_
    · rw [hlog]
      rfl
    · rw [heq, Heap.tok_release, if_neg hj, Heap.tok_unlink]
  | @completed t rest hc hpc hq hl heq =>
    subst heq
    have hopen : s.heap.isOpen id := by
      refine Heap.isOpen_of_eq ?_ ?_ ho
      · rw [live_invoke, heap_onHeap, Heap.live_complete]
      · rw [soc_invoke, heap_onHeap, Heap.soc_complete]
    refine (ha hopen).frame conn_invoke fun d => ?_
    rw [tok_invoke, heap_onHeap, Heap.tok_complete]
    split
    · exact .inr rfl
    · exact .inl rfl
  | @fired t rest now hc hpc ht hl hlt heq =>
    subst heq
    have hopen : s.heap.isOpen id := by
      refine Heap.isOpen_of_eq ?_ ?_ ho
      · rw [live_invoke, heap_onHeap, Heap.live_expire]
      · rw [soc_invoke, heap_onHeap, Heap.soc_expire]
    refine (ha hopen).frame conn_invoke fun d => ?_
    rw [tok_invoke, heap_onHeap, Heap.tok_expire]
    split
    · exact .inr rfl
    · exact .inl rfl
  | @hungup j ev rest r w hact hc hpc hev hh hl _ => exact (hup j ⟨ev, rest, hpc, hev, hh, hl⟩).elim

/-- A handler that is removed is not open any more. -/
theorem not_open_of_removes (hs : s.step act = some s') (hr : s.removes act = some (.socket id)) :
    s'.pc.dead ∨ ¬ s'.heap.isOpen id := by
  cases act with
  | close j =>
    cases hr
    unfold step at hs
    obtain ⟨-, ⟨-, rfl⟩ | ⟨-, rfl⟩⟩ := user_cases hs
    · exact .inl trivial
    · right
      rintro ⟨-, hsoc⟩
      apply hsoc
      unfold closeSocket
      dsimp only
      split
      · rw [soc_setSoc, if_pos rfl]
      · rename_i hsoc
        rw [not_not] at hsoc
        rw [heap_removeHandler]
        exact hsoc
  | destroy j =>
    have hj : j = id := by
      simp only [removes] at hr
      split at hr
      · cases hr
        rfl
      · cases hr
    subst hj
    unfold step at hs
    obtain ⟨-, ⟨-, rfl⟩ | ⟨-, rfl⟩⟩ := user_cases hs
    · exact .inl trivial
    · right
      rintro ⟨hl, -⟩
      have hdead : (s.destroySocket j).heap.live j = false := by
        unfold destroySocket
        dsimp only
        rw [heap_onHeap, Heap.live_release, if_pos rfl]
      rw [hdead] at hl
      cases hl
  | destroyAcceptor a =>
    simp only [removes] at hr
    split at hr
    · cases hr
    · cases hr
  | _ => cases hr

theorem watchful_onRead {ev : PollEvent} {r : ReadResult} {w : WriteResult} (hi : s.Watchful)
    (hpl : Plausible s'.heap.log) (hno : ¬ s.strandsEof (.dispatch r w))
    (hpc : s.pc = .event (ev :: rest)) (hin : ev.events.input = true) (hh : ev.handler = .socket j)
    (hpc' : s'.pc = .drainRead ev rest) (hdel : s'.deleted = [])
    (hheap : s'.heap = (s.heap.emit (.dispatched ev.handler .onRead)).onRead j r) :
    s'.Watchful := by
  intro id ho
  have hpr : Heap.Progresses (s.heap.emit (.dispatched ev.handler .onRead)) _
      ((s.heap.emit (.dispatched ev.handler .onRead)).onRead j r) := Heap.onRead_progresses
  have hhand : s.inHandForOutput ++ s.pc.waiting = ev :: rest := by
    rw [inHandForOutput, hpc]
    rfl
  have hhand' : s'.inHandForOutput ++ s'.pc.waiting = ev :: rest := by
    rw [inHandForOutput, hpc', hdel]
    rfl
  rw [hheap] at ho hpl
  have ha := hi id (Heap.isOpen_of_eq (hpr.live id) (hpr.soc id) ho)
  have hnote : (s.heap.emit (.dispatched ev.handler .onRead)).Awake id (inputAhead (ev :: rest) id)
      (outputAhead (ev :: rest) id) := by
    rw [hhand, hpc] at ha
    exact ha.frame rfl fun _ => .inl rfl
  rw [hheap, hhand', hpc']
  by_cases hj : id = j
  · subst hj
    refine hnote.onRead hpl fun hall h0 hlt heof => ?_
    by_contra hnot
    rw [not_or, Bool.not_eq_true] at hnot
    apply hno
    simp only [strandsEof, hpc, hh]
    exact ⟨hin, hall, h0, hlt, heof, hnot⟩
  · have hev : ev.handler ≠ .socket id := by
      rw [hh]
      rintro h
      cases h
      exact hj rfl
    exact (hnote.progresses_other hpr (Ne.symm hj)).mono (inputAhead_of_cons hev) fun h => h

theorem watchful_onWrite {ev : PollEvent} {w : WriteResult} (hi : s.Watchful)
    (hpl : Plausible s'.heap.log) (hpc : s.pc = .output ev rest) (hh : ev.handler = .socket j)
    (hpc' : s'.pc = .drainWrite rest)
    (hheap : s'.heap = (s.heap.emit (.dispatched ev.handler .onWrite)).onWrite j w) :
    s'.Watchful := by
  intro id ho
  have hpr : Heap.Progresses (s.heap.emit (.dispatched ev.handler .onWrite)) _
      ((s.heap.emit (.dispatched ev.handler .onWrite)).onWrite j w) := Heap.onWrite_progresses
  have hhand : s.inHandForOutput ++ s.pc.waiting = ev :: rest := by
    rw [inHandForOutput, hpc]
    rfl
  have hhand' : s'.inHandForOutput ++ s'.pc.waiting = rest := by
    rw [inHandForOutput, hpc']
    rfl
  rw [hheap] at ho hpl
  have ha := hi id (Heap.isOpen_of_eq (hpr.live id) (hpr.soc id) ho)
  have hnote : (s.heap.emit (.dispatched ev.handler .onWrite)).Awake id (inputAhead rest id)
      (outputAhead (ev :: rest) id) := by
    rw [hhand, hpc] at ha
    exact ha.frame rfl fun _ => .inl rfl
  rw [hheap, hhand', hpc']
  by_cases hj : id = j
  · subst hj
    exact hnote.onWrite hpl
  · have hev : ev.handler ≠ .socket id := by
      rw [hh]
      rintro h
      cases h
      exact hj rfl
    exact (hnote.progresses_other hpr (Ne.symm hj)).mono (fun h => h) (outputAhead_of_cons hev)

theorem watchful_step (hr : (proactor κ).Reachable kernelWakes s) (hi : s.pc.dead ∨ s.Watchful)
    (hp : kernelWakes s act) (hs : s.step act = some s') : s'.pc.dead ∨ s'.Watchful := by
  have hctl := step_control hs
  rcases hi with hdead | hi
  · exact .inl (hctl.dead hdead)
  obtain ⟨⟨-, hk⟩, hno⟩ := hp
  have hpl : Plausible s'.heap.log := hk s' hs
  have hcalm : ∀ ev ∈ s.pc.waiting, ev.events.hangup = false :=
    waiting_of_reachable (fun _ _ h => h.1.1) hr
  have hup : ∀ j, ¬ s.hangsUp j := fun j => not_hangsUp_of_calm hcalm
  -- a step that reports nothing and calls no method of a Socket
  have hquiet : Unreported s.heap.log s'.heap.log → (∀ t, ¬ Turn s s' t) →
      (∀ id, s'.heap.isOpen id → (inputAhead s.pc.waiting id → inputAhead s'.pc.waiting id) ∧
        (outputAhead (s.inHandForOutput ++ s.pc.waiting) id →
          outputAhead (s'.inHandForOutput ++ s'.pc.waiting) id)) → s'.Watchful := by
    intro hb hturn hmono id ho
    exact (awake_effect (step_effect hs) hb hpl hno hup hturn (hi id) ho).mono (hmono id ho).1
      (hmono id ho).2
  -- a step between places from which no method is called
  have hmove : s'.batch = s.batch → (s.pc.looping ∨ ¬ s'.pc.draining) →
      (∀ ev ∈ s.pc.waiting,
        ev ∈ s'.pc.waiting ∨ ev ∈ s'.inHandForOutput ∧ ev.events.input = false) →
      (∀ ev ∈ s.inHandForOutput, ev.events.pollout = true → ev ∈ s'.inHandForOutput) →
      s'.pc.dead ∨ s'.Watchful := by
    intro hb hplace hwait hhand
    right
    refine hquiet (.inl hb) (fun t ht => ?_) fun id _ => ⟨?_, ?_⟩
    · rcases hplace with hl | hd
      · exact ht.not_looping hl
      · exact hd ht.draining
    · rintro ⟨ev, hev, hh, hin⟩
      rcases hwait ev hev with h | ⟨-, h⟩
      · exact ⟨ev, h, hh, hin⟩
      · rw [h] at hin
        cases hin
    · rintro ⟨ev, hev, hh, hout⟩
      rcases List.mem_append.mp hev with h | h
      · exact ⟨ev, List.mem_append_left _ (hhand ev h hout), hh, hout⟩
      · rcases hwait ev h with h | ⟨h, -⟩
        · exact ⟨ev, List.mem_append_right _ h, hh, hout⟩
        · exact ⟨ev, List.mem_append_left _ h, hh, hout⟩
  cases hctl with
  | stays hpc _ hq =>
    refine .inr (hquiet (.inl hq.1) (fun t ht => ?_) fun id _ => ?_)
    · exact ht.not_looping (hpc ▸ ht.draining.looping)
    · rw [inHandForOutput, inHandForOutput, hpc, hq.2]
      exact ⟨fun h => h, fun h => h⟩
  | @removes x hu hrem hpc _ hb hd =>
    by_cases hdead : s'.pc.dead
    · exact .inl hdead
    refine .inr (hquiet (.cons hb nofun) (fun t ht => ?_) fun id ho => ?_)
    · exact ht.not_looping (hpc ▸ ht.draining.looping)
    · rw [hpc]
      refine ⟨fun h => h, ?_⟩
      rintro ⟨ev, hev, hh, hout⟩
      have hx : x ≠ .socket id := by
        rintro rfl
        exact (not_open_of_removes hs hrem).elim hdead fun h => h ho
      refine ⟨ev, List.mem_append.mpr ((List.mem_append.mp hev).imp_left fun h => ?_), hh, hout⟩
      rw [inHandForOutput, hpc, hd]
      unfold inHandForOutput at h
      split at h
      · split at h
        · cases h
        · rename_i ev' rest _ hmem
          have hev' : ev' ∈ [ev'] := List.mem_singleton_self _
          rw [List.mem_singleton.mp h] at hh ⊢
          have hnot : ev'.handler ∉ s.deleted ++ [x] := by
            rw [List.mem_append, List.mem_singleton, hh]
            rintro (h | h)
            · exact hmem (hh ▸ h)
            · exact hx h.symm
          rw [if_neg hnot]
          exact hev'
      · exact h
      · cases h
  | dies hd _ _ => exact .inl hd
  | enters hpc hpc' _ hq | leaves hpc hpc' _ hq | idles hpc hpc' _ hq | times hpc hpc' _ hq
  | loops hpc hpc' _ hq =>
    refine hmove hq.1 (.inr (by rw [hpc']; exact id)) (fun ev hev => ?_) fun ev hev => ?_
    · rw [hpc] at hev
      cases hev
    · rw [inHandForOutput, hpc] at hev
      cases hev
  | @polls evs ha hpc hrep hpc' _ _ hheap =>
    right
    intro id ho
    rw [hheap] at hpl ho ⊢
    have hpoll : (Event.polled evs).possible s.heap.log := hpl.1
    have hsafe := safe_of_polled id hpoll
    have hnone : s.inHandForOutput ++ s.pc.waiting = [] := by
      rw [inHandForOutput, hpc]
      rfl
    have hawake := hi id ho
    rw [hnone, hpc] at hawake
    have hout : s'.inHandForOutput ++ s'.pc.waiting = evs := by
      rw [inHandForOutput, hpc']
      rfl
    rw [hout, hpc']
    exact ⟨fun hp => hsafe.1 ((hawake.input hp).mono fun ⟨ev, hev, _⟩ => by cases hev),
      fun hm => hsafe.2 ((hawake.output hm).mono fun ⟨ev, hev, _⟩ => by cases hev)⟩
  | @closes ev rest hpc hhup _ _ =>
    have hno := hcalm ev (by rw [hpc]; exact List.mem_cons_self)
    rw [hhup] at hno
    cases hno
  | @reads ev rest hpc hnohup hin hpc' _ hdel hb hheap =>
    by_cases hdead : s'.pc.dead
    · exact .inl hdead
    right
    cases hh : ev.handler with
    | acceptor a =>
      refine hquiet (.cons hb nofun) (fun t ht => ?_) fun id _ => ?_
      · cases ht with
        | read hpc₁ _ _ hh₁ _ =>
          rw [hpc] at hpc₁
          cases hpc₁
          rw [hh] at hh₁
          cases hh₁
        | write hpc₁ _ _ _ =>
          rw [hpc] at hpc₁
          cases hpc₁
      · have hev : ev.handler ≠ .socket id := by
          rw [hh]
          exact nofun
        have hwait : s'.pc.waiting = rest := by
          rcases hpc' with h | ⟨a', -, h⟩ | h
          · rw [h]
            rfl
          · rw [h]
            rfl
          · exact (hdead h).elim
        rw [inHandForOutput, hpc, hwait]
        refine ⟨inputAhead_of_cons hev, fun h => ?_⟩
        obtain ⟨ev', hmem, hrest⟩ := outputAhead_of_cons hev h
        exact ⟨ev', List.mem_append_right _ hmem, hrest⟩
    | socket j =>
      obtain ⟨r, w, rfl, heq⟩ := (hheap j hh).resolve_left hdead
      have hpc₁ : s'.pc = .drainRead ev rest := by
        rcases hpc' with h | ⟨a, ha, -⟩ | h
        · exact h
        · rw [hh] at ha
          cases ha
        · exact (hdead h).elim
      exact watchful_onRead hi hpl hno hpc hin hh hpc₁ hdel heq
  | @skips ev rest hpc _ hin hpc' _ hq =>
    refine hmove hq.1 (.inr (by rw [hpc']; exact id)) (fun ev' hev => ?_) fun ev' hev => ?_
    · rw [hpc] at hev
      rw [inHandForOutput, hpc']
      rcases List.mem_cons.mp hev with rfl | hev
      · exact .inr ⟨List.mem_singleton_self _, hin⟩
      · exact .inl hev
    · rw [inHandForOutput, hpc] at hev
      cases hev
  | @writes ev rest hpc hout hpc' _ hb hheap =>
    by_cases hdead : s'.pc.dead
    · exact .inl hdead
    right
    have hpc₁ := hpc'.resolve_right hdead
    cases hh : ev.handler with
    | acceptor a =>
      refine hquiet (.cons hb nofun) (fun t ht => ?_) fun id _ => ?_
      · cases ht with
        | read hpc₂ _ _ _ _ =>
          rw [hpc] at hpc₂
          cases hpc₂
        | write hpc₂ _ hh₂ _ =>
          rw [hpc] at hpc₂
          cases hpc₂
          rw [hh] at hh₂
          cases hh₂
      · have hev : ev.handler ≠ .socket id := by
          rw [hh]
          exact nofun
        rw [inHandForOutput, inHandForOutput, hpc, hpc₁]
        exact ⟨fun h => h, outputAhead_of_cons hev⟩
    | socket j =>
      obtain ⟨r, w, rfl, heq⟩ := (hheap j hh).resolve_left hdead
      exact watchful_onWrite hi hpl hpc hh hpc₁ heq
  | @passes ev rest hpc hout hpc' _ hq =>
    refine hmove hq.1 (.inr (by rw [hpc']; exact id)) (fun ev' hev => ?_) fun ev' hev ho => ?_
    · rw [hpc] at hev
      rw [hpc']
      exact .inl hev
    · rw [inHandForOutput, hpc] at hev
      rw [List.mem_singleton.mp hev, hout] at ho
      cases ho
  | @accepts a _ ev rest _ hpc hpc' hq =>
    refine hmove hq.1 (.inl (by rw [hpc]; trivial)) (fun ev' hev => ?_) fun ev' hev => ?_
    · rw [hpc] at hev
      rw [hpc']
      exact .inl hev
    · rw [inHandForOutput, hpc] at hev
      cases hev
  | @drops ev rest hpc hq₀ hdel hpc' _ hq =>
    refine hmove hq.1 (.inl (by rw [hpc]; trivial)) (fun ev' hev => ?_) fun ev' hev => ?_
    · rw [hpc] at hev
      rw [hpc']
      exact .inl hev
    · rw [inHandForOutput, hpc] at hev
      dsimp only at hev
      rw [if_pos hdel] at hev
      cases hev
  | @continues ev rest hpc hq₀ hdel hpc' _ hq =>
    refine hmove hq.1 (.inl (by rw [hpc]; trivial)) (fun ev' hev => ?_) fun ev' hev _ => ?_
    · rw [hpc] at hev
      rw [hpc']
      exact .inl hev
    · rw [inHandForOutput, hpc] at hev
      dsimp only at hev
      rw [if_neg hdel] at hev
      rw [inHandForOutput, hpc']
      exact hev
  | @ends rest hpc hq₀ hpc' _ hq =>
    refine hmove hq.1 (.inl (by rw [hpc]; trivial)) (fun ev' hev => ?_) fun ev' hev => ?_
    · rw [hpc] at hev
      rw [hpc']
      exact .inl hev
    · rw [inHandForOutput, hpc] at hev
      cases hev

end State

/-- At the call of `epoll_wait` an open and registered Socket sleeps only with an edge to come. -/
theorem wakeup_not_lost (hr : (proactor κ).Reachable kernelWakes s) (hpc : s.pc = .poll)
    (hw : s.watches id) : s.Wakeful id := by
  have hi : s.pc.dead ∨ s.Watchful := by
    apply hr.invariant (I := fun s => s.pc.dead ∨ s.Watchful)
    · rintro s₀ ⟨mem, rfl⟩
      right
      rintro id ⟨hl, -⟩
      cases hl
    · intro s₀ act s₁ hr₀ hi hp hs
      exact State.watchful_step hr₀ hi hp hs
  rcases hi with hdead | hi
  · rw [hpc] at hdead
    exact hdead.elim
  · have ha := hi id ⟨hw.1, hw.2.1⟩
    have hin : ¬ inputAhead s.pc.waiting id := by
      rw [hpc]
      rintro ⟨ev, hev, -⟩
      cases hev
    have hout : ¬ outputAhead (s.inHandForOutput ++ s.pc.waiting) id := by
      rw [State.inHandForOutput, hpc]
      rintro ⟨ev, hev, -⟩
      cases hev
    exact ⟨fun hp hrd => (ha.input hp hrd).resolve_right hin,
      fun hm hsp => ((ha.output hm).2 hsp).resolve_right hout⟩

/-- Socket `0`, registered, has started to read before `run` polls. -/
def reader (start : Action Unit) : List (Action Unit) :=
  [.epollCreate 3 0, .create 0 5 ⟨0, 0⟩ ⟨0, 0⟩ 0, .environment (.space 0 4096), start, .run]

theorem wakeup_not_lost_arrival : ∃ s : State Unit, (proactor Unit).Reachable kernelWakes s ∧
    s.pc = .poll ∧ (s.heap.tok ⟨0, .read⟩).mode.pending ∧ (conn 0 s.heap.log).unread = 3 ∧
    (conn 0 s.heap.log).inEdge = true := by
  obtain ⟨s, hr, hf⟩ := Machine.exists_of_exec (M := proactor Unit) (p := kernelWakes)
    (s := State.initial fun _ _ => 0)
    (l := reader (.readSome 0 ⟨1, 0⟩ 8 () 0 (.fail EAGAIN) ⟨10, 0⟩) ++
      [.environment (.arrived 0 [1, 2, 3])])
    (f := fun s => (s.pc, s.heap.live 0, s.heap.soc 0, s.interest, (s.heap.tok ⟨0, .read⟩).mode,
      (conn 0 s.heap.log).unread))
    (b := (.poll, true, 5, [⟨5, .socket 0, ⟨true, false, true, false, false⟩⟩], .some, 3))
    ⟨_, rfl⟩ rfl
  simp only [Prod.mk.injEq] at hf
  obtain ⟨hpc, hl, hsoc, hint, hm, hun⟩ := hf
  have hw : s.watches 0 := by
    refine ⟨hl, by rw [hsoc]; decide, ?_⟩
    rw [hint, hsoc]
    exact ⟨_, List.mem_singleton_self _, rfl, rfl⟩
  have hawake := wakeup_not_lost hr hpc hw
  exact ⟨s, hr, hpc, .inl hm, hun, hawake.input (.inl hm) (.inl (by rw [hun]; decide))⟩

/-- A peer sends three bytes and ends its stream while ten are awaited: the one event reads the
bytes, and nothing reports the end of the stream. -/
theorem wakeup_lost_at_eof : ∃ s : State Unit, (proactor Unit).Reachable kernelAnswers s ∧
    s.pc = .poll ∧ s.watches 0 ∧ ¬ s.Wakeful 0 := by
  obtain ⟨s, hr, hf⟩ := Machine.exists_of_exec (M := proactor Unit) (p := kernelAnswers)
    (s := State.initial fun _ _ => 0)
    (l := reader (.readAll 0 ⟨1, 0⟩ 10 () 0 (.fail EAGAIN) ⟨10, 0⟩) ++
      [.environment (.arrived 0 [1, 2, 3]), .environment (.eof 0),
        .epollWait (.events [⟨5, .socket 0, ⟨true, false, true, false, false⟩⟩]),
        .dispatch (.got [1, 2, 3]) (.accepted 0), .processCompletion,
        .dispatch (.got []) (.accepted 0), .processCompletion, .startTimer ⟨11, 0⟩, .processTimer])
    (f := fun s => (s.pc, s.heap.live 0, s.heap.soc 0, s.interest, (s.heap.tok ⟨0, .read⟩).mode,
      (conn 0 s.heap.log).eof, (conn 0 s.heap.log).inEdge))
    (b := (.poll, true, 5, [⟨5, .socket 0, ⟨true, false, true, false, false⟩⟩], .all, true, false))
    ⟨_, rfl⟩ rfl
  simp only [Prod.mk.injEq] at hf
  obtain ⟨hpc, hl, hsoc, hint, hm, heof, hedge⟩ := hf
  refine ⟨s, hr, hpc, ⟨hl, by rw [hsoc]; decide, ?_⟩, fun hawake => ?_⟩
  · rw [hint, hsoc]
    exact ⟨_, List.mem_singleton_self _, rfl, rfl⟩
  · have hin := hawake.input (.inr hm) (.inr heof)
    rw [hedge] at hin
    cases hin

end EchoBenchmark.Proactor
