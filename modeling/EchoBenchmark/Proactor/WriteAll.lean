import EchoBenchmark.Proactor.WholeBuffer

/-! A `writeAll` that is left alone sends its buffer once and in order. -/

namespace EchoBenchmark.Proactor

open History (Adds Each)

variable {κ : Type} {s s' s'' : State κ} {act : Action κ} {id : SockId} {i : Nat} {buf : Ptr}
  {size : Int} {past log : List Event} {w : WriteResult} {mem mem' : Mem} {sent : List UInt8}

/-- `::write` of `len` bytes accepts at least one and at most `len`, or fails with an errno. -/
def WriteResult.regular (len : Int) : WriteResult → Prop
  | .accepted n => 0 < n ∧ (n : Int) ≤ len
  | .fail errno => errno ≠ 0

/-- The kernel treats the writes to Socket `id` so. -/
def Event.regularFor (id : SockId) : Event → Prop
  | .sysWrite j _ len w _ => j = id → w.regular len
  | _ => True

instance (len : Int) (w : WriteResult) : Decidable (w.regular len) := by
  apply @WriteResult.casesOn _ w <;> (intros; dsimp only [WriteResult.regular]; infer_instance)

instance (id : SockId) (e : Event) : Decidable (e.regularFor id) := by
  apply @Event.casesOn _ e <;> (intros; dsimp only [Event.regularFor]; infer_instance)

/-- Nothing stored into the buffer. -/
def Intact (buf : Ptr) (size : Int) (past : List Event) : Prop :=
  ∀ e ∈ past, ¬ e.storesIn buf size.toNat

instance (buf : Ptr) (size : Int) (past : List Event) : Decidable (Intact buf size past) :=
  inferInstanceAs (Decidable (∀ e ∈ past, _))

/-- The next step leaves the write alone, and the kernel is regular. -/
def State.writesAlone (id : SockId) (i : Nat) (s : State κ) (act : Action κ) : Prop :=
  s.leavesAlone ⟨id, .write⟩ act ∧
    ∀ s' ∈ s.step act, ∀ e ∈ sinceCall ⟨id, .write⟩ i s'.heap.log, e.regularFor id

instance (id : SockId) (i : Nat) (s : State κ) (act : Action κ) :
    Decidable (s.writesAlone id i act) := inferInstanceAs (Decidable (_ ∧ _))

theorem bounded_of_regular (hs : ∀ e ∈ past, e.regularFor id) :
    ∀ e ∈ past, e.bounded ⟨id, .write⟩ := by
  intro e he
  have hreg := hs e he
  cases e with
  | sysWrite j q len w bytes =>
    intro hj
    cases hj
    have hreg := hreg rfl
    cases w with
    | accepted n =>
      have hlen := hreg.2
      simp only [WriteResult.count]
      omega
    | fail errno => exact Nat.zero_le _
  | sysRead =>
    intro hd
    cases hd
  | _ => trivial

/-! ### The bytes sent -/

/-- While nothing stores into it the buffer holds `bytes`, and what was sent is what it starts
with. -/
def Sends (t : TokenId) (buf : Ptr) (size : Int) (bytes : List UInt8) (mem : Mem)
    (past : List Event) : Prop :=
  Intact buf size past → mem.load buf size.toNat = bytes ∧
    carried t past = bytes.take (carried t past).length

theorem Sends.adds {t : TokenId} (hh : Sends t buf size sent mem past)
    (ha : Adds (fun e => ¬ e.isIo t) past log)
    (hmem : Intact buf size log → mem'.load buf size.toNat = mem.load buf size.toNat) :
    Sends t buf size sent mem' log := by
  intro hun
  obtain ⟨hload, hsent⟩ := hh fun e he => hun e (ha.suffix.subset he)
  rw [carried_adds ha, hmem hun]
  exact ⟨hload, hsent⟩

/-- A write that fits sends the bytes behind those sent so far. -/
theorem Sends.write (hh : Sends ⟨id, .write⟩ buf size sent mem past) (w : WriteResult) (q : Ptr)
    (len : Int)
    (hfits : ((carried ⟨id, .write⟩ (.sysWrite id q len w
      (mem.load (buf.add (carried ⟨id, .write⟩ past).length) w.count) :: past)).length : Int) ≤
        size) :
    Sends ⟨id, .write⟩ buf size sent mem (.sysWrite id q len w
      (mem.load (buf.add (carried ⟨id, .write⟩ past).length) w.count) :: past) := by
  intro hun
  obtain ⟨hload, hold⟩ := hh fun e he => hun e (List.mem_cons_of_mem _ he)
  refine ⟨hload, ?_⟩
  have hcarried : carried ⟨id, .write⟩ (.sysWrite id q len w
      (mem.load (buf.add (carried ⟨id, .write⟩ past).length) w.count) :: past) =
      carried ⟨id, .write⟩ past ++
        mem.load (buf.add (carried ⟨id, .write⟩ past).length) w.count := by
    simp [carried, Event.carries]
  rw [hcarried, List.length_append, Mem.length_load] at hfits ⊢
  rw [← hload] at hold ⊢
  rw [Mem.take_load (by omega)] at hold
  rw [Mem.take_load (by omega), Mem.load_add, ← hold]

/-- The invariant of a `writeAll` that is left alone. -/
structure State.writingAll (s : State κ) (id : SockId) (i : Nat) (buf : Ptr) (size : Int)
    (sent : List UInt8) : Prop where
  whole : s.wholeBuffer ⟨id, .write⟩ i buf size
  regular : ∀ e ∈ sinceCall ⟨id, .write⟩ i s.heap.log, e.regularFor id
  sends : Sends ⟨id, .write⟩ buf size sent s.heap.mem (sinceCall ⟨id, .write⟩ i s.heap.log)

theorem State.writingAll_step (hb : Consistent s) (hd : s.heap.Delivers)
    (hi : s.writingAll id i buf size sent) (hg : s.writesAlone id i act)
    (hs : s.step act = some s') : s'.writingAll id i buf size sent := by
  have hk := hg.2 s' hs
  have hwhole := hi.whole.step hb hd hg.1 hs (bounded_of_regular hk)
  refine ⟨hwhole, hk, ?_⟩
  cases hi.whole.alone hb hd hg.1 hs with
  | quiet hlog hno =>
    rw [hlog, sinceCall_append fun e he => (hno e he).2]
    refine hi.sends.adds ⟨_, rfl, fun e he => (hno e he).1⟩ fun hun => ?_
    exact State.load_of_step hs hlog fun e he => hun e (List.mem_append_left _ he)
  | read hdir => cases hdir
  | @wrote ev w _ hlog =>
    have hsince : sinceCall ⟨id, .write⟩ i s'.heap.log =
        .sysWrite id (buf.add (carried ⟨id, .write⟩ (sinceCall ⟨id, .write⟩ i s.heap.log)).length)
          (size - (carried ⟨id, .write⟩ (sinceCall ⟨id, .write⟩ i s.heap.log)).length) w
          (s.heap.mem.load
            (buf.add (carried ⟨id, .write⟩ (sinceCall ⟨id, .write⟩ i s.heap.log)).length)
            w.count) ::
        .dispatched ev .onWrite :: sinceCall ⟨id, .write⟩ i s.heap.log := by
      rw [hlog, sinceCall, History.since_cons (by simp), History.since_cons (by simp)]
    have hsame : carried ⟨id, .write⟩
        (.dispatched ev .onWrite :: sinceCall ⟨id, .write⟩ i s.heap.log) =
        carried ⟨id, .write⟩ (sinceCall ⟨id, .write⟩ i s.heap.log) := List.append_nil _
    have hnote : Sends ⟨id, .write⟩ buf size sent s.heap.mem
        (.dispatched ev .onWrite :: sinceCall ⟨id, .write⟩ i s.heap.log) :=
      hi.sends.adds ⟨[_], rfl, by simp [Event.isIo]⟩ fun _ => rfl
    have hfits := hwhole.fits
    have hmem : Intact buf size (sinceCall ⟨id, .write⟩ i s'.heap.log) →
        s'.heap.mem.load buf size.toNat = s.heap.mem.load buf size.toNat := by
      intro hun
      rw [hsince] at hun
      have hlog' : s'.heap.log = [_, _] ++ s.heap.log := hlog
      refine State.load_of_step hs hlog' fun e he => hun e ?_
      have hmem : e ∈ [_, _] ++ sinceCall ⟨id, .write⟩ i s.heap.log := List.mem_append_left _ he
      exact hmem
    rw [hsince] at hfits hmem ⊢
    rw [← hsame] at hfits hmem ⊢
    exact (hnote.write _ _ _ hfits).adds Adds.refl hmem

theorem State.writingAll_of_call {ms : Int} {cb : κ} {now : Timeval}
    (hl : s.heap.live id = true) (hfree : (s.heap.tok ⟨id, .write⟩).mode = .none)
    (hsize : 0 < size) (hs : s.step (.writeAll id buf size cb ms w now) = some s')
    (hk : ∀ e ∈ sinceCall ⟨id, .write⟩ s.heap.nextCall s'.heap.log, e.regularFor id) :
    s'.writingAll id s.heap.nextCall buf size (s.heap.mem.load buf size.toNat) := by
  have ho := State.opens_of_request (q := ⟨⟨id, .write⟩, cb, ms, now, .all,
    fun mem => .sysWrite id buf size w (mem.load buf w.count)⟩) rfl hl hs
  unfold State.step at hs
  have hs' := State.user_live (h := .socket id) hl hs
  have hmem : s'.heap.mem = s.heap.mem := by
    rw [hs']
    exact Heap.mem_writeAll
  obtain ⟨tv, htok⟩ := Heap.tok_writeAll buf size cb ms w now hfree
  have htok : s'.heap.tok ⟨id, .write⟩ = _ :=
    (congrArg (fun s : State κ => s.heap.tok ⟨id, .write⟩) hs').trans htok
  have hzero : buf.add 0 = buf := by simp [Ptr.add]
  obtain ⟨evs, harmed, hlog⟩ := ho.log_eq hfree
  have hlen : w.count ≤ size.toNat := by
    refine bounded_of_regular hk
      (.sysWrite id buf size w (s.heap.mem.load buf w.count)) ?_ rfl
    rw [hlog, sinceCall, History.since_append, History.since_cons (by simp)]
    · exact List.mem_append_right _ List.mem_cons_self
    · intro e hmem
      obtain ⟨tv, rfl⟩ := harmed e hmem
      simp
  obtain ⟨hwhole, evs, harmed, hsince⟩ := wholeBuffer_of_call ho hfree hsize htok (if_pos rfl)
    (by simp [Event.carries]) (fun _ => ⟨hsize, by simp [carried, hzero], by simp [carried]⟩)
    (by rw [WriteResult.count_io]; omega)
  refine ⟨hwhole, hk, ?_⟩
  have hone : Sends ⟨id, .write⟩ buf size (s.heap.mem.load buf size.toNat) s'.heap.mem
      [.sysWrite id buf size w (s.heap.mem.load buf w.count)] := by
    have hnil : Sends ⟨id, .write⟩ buf size (s.heap.mem.load buf size.toNat) s.heap.mem [] :=
      fun _ => ⟨rfl, rfl⟩
    have hbase : buf.add (carried ⟨id, .write⟩ []).length = buf := hzero
    have hwrite := hnil.write w buf size (by simp [carried, Event.carries]; omega)
    rw [hmem]
    rwa [hbase] at hwrite
  rw [hsince]
  refine hone.adds ⟨evs, rfl, fun e he => ?_⟩ fun _ => rfl
  obtain ⟨tv, rfl⟩ := harmed e he
  exact fun h => h

theorem State.writingAll_of_steps (hr : (proactor κ).Reachable Machine.free s)
    (hi : s.writingAll id i buf size sent)
    (hst : (proactor κ).Steps (State.writesAlone id i) s s') :
    s'.writingAll id i buf size sent := by
  induction hst with
  | refl => exact hi
  | tail hst hm ih =>
    obtain ⟨act, hg, hs⟩ := hm
    have hr := hr.steps (Machine.Steps.mono (q := Machine.free) (fun _ _ _ => trivial) hst)
    exact State.writingAll_step (consistent_of_reachable hr) (State.delivers_of_reachable hr) ih hg
      hs

/-- A regular kernel neither accepts nothing nor fails without an errno. -/
theorem regular_results (hs : ∀ e ∈ past, e.regularFor id) :
    .moved 0 ∉ results ⟨id, .write⟩ past ∧ .fail 0 ∉ results ⟨id, .write⟩ past := by
  have hno : ∀ r ∈ results ⟨id, .write⟩ past, r ≠ .moved 0 ∧ r ≠ .fail 0 := by
    intro r hr
    obtain ⟨e, he, hio⟩ := List.mem_filterMap.mp hr
    have hreg := hs e he
    cases e with
    | sysWrite j q len w bytes =>
      have hj : (⟨id, .write⟩ : TokenId) = ⟨j, .write⟩ := Event.ioOf_eq_some hio
      cases hj
      cases (Option.some.inj ((if_pos rfl).symm.trans hio) : w.io = r)
      have hreg := hreg rfl
      cases w with
      | accepted n =>
        refine ⟨fun h => ?_, nofun⟩
        cases h
        exact lt_irrefl 0 hreg.1
      | fail errno =>
        refine ⟨nofun, fun h => ?_⟩
        cases h
        exact hreg rfl
    | sysRead j q len r => cases (Event.ioOf_eq_some hio : (⟨id, .write⟩ : TokenId) = ⟨j, .read⟩)
    | _ => cases hio
  exact ⟨fun h => (hno _ h).1 rfl, fun h => (hno _ h).2 rfl⟩

/-- A `writeAll` that is left alone sends the start of its buffer and goes on behind it; its
callback gets code 0 only for the whole buffer, and else an error and no bytes. -/
theorem writeAll_sends_once {ms : Int} {cb : κ} {now : Timeval}
    (hr : (proactor κ).Reachable Machine.free s) (hl : s.heap.live id = true)
    (hfree : (s.heap.tok ⟨id, .write⟩).mode = .none) (hsize : 0 < size)
    (hs : s.step (.writeAll id buf size cb ms w now) = some s')
    (hk : ∀ e ∈ sinceCall ⟨id, .write⟩ s.heap.nextCall s'.heap.log, e.regularFor id)
    (hst : (proactor κ).Steps (State.writesAlone id s.heap.nextCall) s' s'')
    (hpast : past = sinceCall ⟨id, .write⟩ s.heap.nextCall s''.heap.log) :
    ((carried ⟨id, .write⟩ past).length : Int) ≤ size ∧
    (Intact buf size past → carried ⟨id, .write⟩ past =
      (s.heap.mem.load buf size.toNat).take (carried ⟨id, .write⟩ past).length) ∧
    Each (goesOn ⟨id, .write⟩ buf size) past ∧
    ∀ via code n, (via, code, n) ∈ calls ⟨id, .write⟩ s.heap.nextCall past →
      (code = 0 ∧ n = size ∧ (carried ⟨id, .write⟩ past).length = size ∨ code ≠ 0 ∧ n = 0) ∧
      (∀ errno, errno ≠ EAGAIN → .fail errno ∈ results ⟨id, .write⟩ past → code = errno) ∧
      (via = .timer → code = ETIMEDOUT) := by
  have hi := State.writingAll_of_steps (hr.step (a := .writeAll id buf size cb ms w now) trivial hs)
    (State.writingAll_of_call hl hfree hsize hs hk) hst
  subst hpast
  refine ⟨hi.whole.fits, fun hun => (hi.sends hun).2, hi.whole.inPlace, fun via code n hc => ?_⟩
  have hends := hi.whole.ends hc
  obtain ⟨hzero, hno⟩ := regular_results hi.regular
  have hwaits : ∀ {rs : List IoResult}, (∀ r ∈ rs, r.waits) →
      ∀ errno, errno ≠ EAGAIN → .fail errno ∉ rs := fun hw errno he h => he (hw _ h)
  cases hends with
  | timeout hw =>
    exact ⟨.inr ⟨by decide, rfl⟩, fun e he h => (hwaits hw e he h).elim, fun _ => rfl⟩
  | @failed rs' _ h he hw =>
    rw [h] at hno ⊢
    refine ⟨.inr ⟨fun hz => ?_, rfl⟩, fun e he' hmem => ?_, nofun⟩
    · subst hz
      exact hno List.mem_cons_self
    · rcases List.mem_cons.mp hmem with hmem | hmem
      · cases hmem
        rfl
      · exact (hwaits hw e he' hmem).elim
  | nothing h _ _ =>
    rw [h] at hzero
    exact (hzero List.mem_cons_self).elim
  | whole hw hlen =>
    exact ⟨.inl ⟨rfl, rfl, hlen⟩, fun e he h => (hwaits hw e he h).elim, nofun⟩

/-- A `writeAll` of three bytes of which the first is accepted at once. -/
def writeThree : Action Unit := .writeAll 0 ⟨1, 0⟩ 3 () 5000 (.accepted 1) ⟨10, 0⟩

/-- The other two are accepted when there is space. -/
def restOfWrite : List (Action Unit) :=
  [.run, .epollWait (.events [⟨5, .socket 0, ⟨false, false, true, false, false⟩⟩]),
    .dispatch (.got []) (.accepted 0), .dispatch (.got []) (.accepted 2), .processCompletion]

theorem writeAll_sends_once_three : ∃ s'' : State Unit,
    calls ⟨0, .write⟩ 0 (sinceCall ⟨0, .write⟩ 0 s''.heap.log) = [(.completion, 0, 3)] ∧
    Each (goesOn ⟨0, .write⟩ ⟨1, 0⟩ 3) (sinceCall ⟨0, .write⟩ 0 s''.heap.log) ∧
    carried ⟨0, .write⟩ (sinceCall ⟨0, .write⟩ 0 s''.heap.log) = [65, 66, 67] := by
  obtain ⟨s, hr, hf⟩ := Machine.exists_of_exec (M := proactor Unit) (p := Machine.free)
    (s := State.initial fun _ i => UInt8.ofNat (65 + i.toNat))
    (l := [.epollCreate 3 0, .create 0 5 ⟨0, 0⟩ ⟨0, 0⟩ 0])
    (f := fun s => (s.heap.live 0, (s.heap.tok ⟨0, .write⟩).mode, s.heap.nextCall,
      s.heap.mem.load ⟨1, 0⟩ 3,
      (s.step writeThree).map fun s' : State Unit => (decide
          (∀ e ∈ sinceCall ⟨0, .write⟩ 0 s'.heap.log, e.regularFor 0),
        ((proactor Unit).exec (State.writesAlone 0 0) s' restOfWrite).map
          fun s'' => (calls ⟨0, .write⟩ 0 (sinceCall ⟨0, .write⟩ 0 s''.heap.log),
            decide (Intact ⟨1, 0⟩ 3 (sinceCall ⟨0, .write⟩ 0 s''.heap.log))))))
    (b := (true, .none, 0, [65, 66, 67], some (true, some ([(.completion, 0, 3)], true))))
    ⟨_, rfl⟩ rfl
  simp only [Prod.mk.injEq] at hf
  obtain ⟨hl, hm, hn, hmem, hcall⟩ := hf
  obtain ⟨s', hs, hcall⟩ := Option.map_eq_some_iff.mp hcall
  simp only [Prod.mk.injEq, decide_eq_true_eq] at hcall
  obtain ⟨hk, hrest⟩ := hcall
  obtain ⟨s'', hst, hend⟩ := Option.map_eq_some_iff.mp hrest
  simp only [Prod.mk.injEq, decide_eq_true_eq] at hend
  obtain ⟨hcalls, hun⟩ := hend
  have hk' : ∀ e ∈ sinceCall ⟨0, .write⟩ s.heap.nextCall s'.heap.log, e.regularFor 0 := by
    rw [hn]
    exact hk
  have hst' : (proactor Unit).Steps (State.writesAlone 0 s.heap.nextCall) s' s'' := by
    rw [hn]
    exact Machine.exec_steps hst
  obtain ⟨-, hsent, hplace, hends⟩ := writeAll_sends_once hr hl hm (by decide) hs hk' hst' rfl
  rw [hn] at hsent hplace hends
  obtain ⟨⟨-, -, hlen⟩ | ⟨hno, -⟩, -, -⟩ :=
    hends .completion 0 3 (by rw [hcalls]; exact List.mem_singleton.mpr rfl)
  · have hall := hsent hun
    rw [Int.ofNat_inj.mp hlen] at hall
    exact ⟨s'', hcalls, hplace, hall.trans (congrArg (List.take 3) hmem)⟩
  · exact (hno rfl).elim

end EchoBenchmark.Proactor
