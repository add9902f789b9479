import EchoBenchmark.Proactor.WholeBuffer

/-! A `readAll` that is left alone delivers the next bytes of the stream, however it is served. -/

namespace EchoBenchmark.Proactor

open History (Adds Each)

variable {κ : Type} {s s' s'' : State κ} {act : Action κ} {id : SockId} {i : Nat} {buf : Ptr}
  {size : Int} {stream : List UInt8} {past : List Event} {r : ReadResult}

/-- A read stores the next bytes of the stream, no more than it has room for, and none only at the
end. -/
def serves (id : SockId) (stream : List UInt8) (past : List Event) : Event → Prop
  | .sysRead j _ len r => j = id → carried ⟨id, .read⟩ past ++ r.bytes <+: stream ∧
      (r.bytes.length : Int) ≤ len ∧ (r = .got [] → carried ⟨id, .read⟩ past = stream)
  | _ => True

instance (id : SockId) (stream : List UInt8) (past : List Event) (e : Event) :
    Decidable (serves id stream past e) := by
  apply @Event.casesOn _ e <;> (intros; dsimp only [serves]; infer_instance)

/-- Nothing but the operation of token `t` stored into the buffer. -/
def Untouched (t : TokenId) (buf : Ptr) (size : Int) (past : List Event) : Prop :=
  ∀ e ∈ past, e.storesIn buf size.toNat → e.token = some t

instance (t : TokenId) (buf : Ptr) (size : Int) (past : List Event) :
    Decidable (Untouched t buf size past) := inferInstanceAs (Decidable (∀ e ∈ past, _))

/-- The next step leaves the read alone, and the kernel serves the stream. -/
def State.readsAlone (id : SockId) (i : Nat) (stream : List UInt8) (s : State κ)
    (act : Action κ) : Prop :=
  s.leavesAlone ⟨id, .read⟩ act ∧
    ∀ s' ∈ s.step act, Each (serves id stream) (sinceCall ⟨id, .read⟩ i s'.heap.log)

instance (id : SockId) (i : Nat) (stream : List UInt8) (s : State κ) (act : Action κ) :
    Decidable (s.readsAlone id i stream act) := inferInstanceAs (Decidable (_ ∧ _))

theorem bounded_of_serves (hs : Each (serves id stream) past) :
    ∀ e ∈ past, e.bounded ⟨id, .read⟩ := by
  induction past with
  | nil => exact fun e he => (List.not_mem_nil he).elim
  | cons e past ih =>
    refine List.forall_mem_cons.mpr ⟨?_, ih hs.2⟩
    cases e with
    | sysRead j q len r =>
      intro hj
      cases hj
      have hlen := (hs.1 rfl).2.1
      omega
    | sysWrite => exact nofun
    | _ => trivial

/-- The bytes stored are those that the stream starts with. -/
theorem isPrefix_of_serves (hs : Each (serves id stream) past) :
    carried ⟨id, .read⟩ past <+: stream := by
  induction past with
  | nil => exact List.nil_prefix
  | cons e past ih =>
    by_cases he : e.isIo ⟨id, .read⟩
    · cases e with
      | sysRead j q len r =>
        cases he
        simpa [carried, Event.carries] using (hs.1 rfl).1
      | sysWrite => cases he
      | _ => exact he.elim
    · rw [carried, Event.carries_eq_nil he, List.append_nil]
      exact ih hs.2

/-- The read that found the end of the stream came after all of its bytes. -/
theorem carried_of_eof {rs : List IoResult} (hs : Each (serves id stream) past)
    (heof : results ⟨id, .read⟩ past = .moved 0 :: rs) : carried ⟨id, .read⟩ past = stream := by
  induction past with
  | nil => cases heof
  | cons e past ih =>
    by_cases he : e.isIo ⟨id, .read⟩
    · cases e with
      | sysRead j q len r =>
        cases he
        have hhead : results ⟨id, .read⟩ (.sysRead id q len r :: past) =
            r.io :: results ⟨id, .read⟩ past := List.filterMap_cons_some (if_pos rfl)
        rw [hhead] at heof
        obtain ⟨hr, -⟩ := List.cons.inj heof
        have hnil : r = .got [] := by
          cases r with
          | got bytes => rw [List.length_eq_zero_iff.mp (IoResult.moved.inj hr)]
          | fail errno => cases hr
        subst hnil
        simpa [carried, Event.carries, ReadResult.bytes] using (hs.1 rfl).2.2 rfl
      | sysWrite => cases he
      | _ => exact he.elim
    · have hskip : results ⟨id, .read⟩ (e :: past) = results ⟨id, .read⟩ past :=
        List.filterMap_cons_none (Event.ioOf_eq_none he)
      rw [hskip] at heof
      rw [carried, Event.carries_eq_nil he, List.append_nil]
      exact ih hs.2 heof

/-! ### The contents of the buffer -/

/-- An undisturbed buffer starts with the bytes stored so far. -/
def Holds (t : TokenId) (buf : Ptr) (size : Int) (mem : Mem) (past : List Event) : Prop :=
  Untouched t buf size past →
    (mem.load buf size.toNat).take (carried t past).length = carried t past

/-- The invariant of a `readAll` that is left alone. -/
structure State.readingAll (s : State κ) (id : SockId) (i : Nat) (buf : Ptr) (size : Int)
    (stream : List UInt8) : Prop where
  whole : s.wholeBuffer ⟨id, .read⟩ i buf size
  served : Each (serves id stream) (sinceCall ⟨id, .read⟩ i s.heap.log)
  holds : Holds ⟨id, .read⟩ buf size s.heap.mem (sinceCall ⟨id, .read⟩ i s.heap.log)

/-- A read that fits stores behind the bytes that are there. -/
theorem Holds.read {mem : Mem} (hh : Holds ⟨id, .read⟩ buf size mem past) (r : ReadResult) (q : Ptr)
    (len : Int)
    (hfits : ((carried ⟨id, .read⟩ (.sysRead id q len r :: past)).length : Int) ≤ size) :
    Holds ⟨id, .read⟩ buf size
      (mem.store (buf.add (carried ⟨id, .read⟩ past).length) r.bytes)
      (.sysRead id q len r :: past) := by
  intro hun
  have hold := hh fun e he => hun e (List.mem_cons_of_mem _ he)
  have hcarried : carried ⟨id, .read⟩ (.sysRead id q len r :: past) =
      carried ⟨id, .read⟩ past ++ r.bytes := by simp [carried, Event.carries]
  rw [hcarried, List.length_append] at hfits
  rw [Mem.take_load (by omega)] at hold
  rw [hcarried, List.length_append, Mem.take_load (by omega), Mem.load_store_add, hold]

theorem Holds.adds {mem : Mem} {t : TokenId} {log : List Event} (hh : Holds t buf size mem past)
    (ha : Adds (fun e => ¬ e.isIo t) past log) : Holds t buf size mem log := by
  intro hun
  rw [carried_adds ha]
  exact hh fun e he => hun e (ha.suffix.subset he)

/-- Steps that do not read for the operation keep an undisturbed buffer. -/
theorem Holds.quiet {t : TokenId} {evs : List Event}
    (hh : Holds t buf size s.heap.mem past) (hs : s.step act = some s') (ht : t.dir = .read)
    (hlog : s'.heap.log = evs ++ s.heap.log) (hno : ∀ e ∈ evs, ¬ e.isIo t) :
    Holds t buf size s'.heap.mem (evs ++ past) := by
  intro hun
  have hsame : carried t (evs ++ past) = carried t past := carried_adds ⟨evs, rfl, hno⟩
  rw [hsame, State.load_of_step hs hlog ?_]
  · exact hh fun e he => hun e (List.mem_append_right _ he)
  · intro e he hstores
    have htok := hun e (List.mem_append_left _ he) hstores
    cases e with
    | sysRead j q len r =>
      cases htok
      exact hno _ he rfl
    | copied => cases htok
    | _ => exact hstores

theorem State.readingAll_step (hb : Consistent s) (hd : s.heap.Delivers)
    (hi : s.readingAll id i buf size stream) (hg : s.readsAlone id i stream act)
    (hs : s.step act = some s') : s'.readingAll id i buf size stream := by
  have hk := hg.2 s' hs
  have hwhole := hi.whole.step hb hd hg.1 hs (bounded_of_serves hk)
  refine ⟨hwhole, hk, ?_⟩
  cases hi.whole.alone hb hd hg.1 hs with
  | quiet hlog hno =>
    rw [hlog, sinceCall_append fun e he => (hno e he).2]
    exact hi.holds.quiet hs rfl hlog fun e he => (hno e he).1
  | @read ev r _ hlog hmem =>
    have hsince : sinceCall ⟨id, .read⟩ i s'.heap.log =
        .sysRead id (buf.add (carried ⟨id, .read⟩ (sinceCall ⟨id, .read⟩ i s.heap.log)).length)
          (size - (carried ⟨id, .read⟩ (sinceCall ⟨id, .read⟩ i s.heap.log)).length) r ::
        .dispatched ev .onRead :: sinceCall ⟨id, .read⟩ i s.heap.log := by
      rw [hlog, sinceCall, History.since_cons (by simp), History.since_cons (by simp)]
    have hsame : carried ⟨id, .read⟩
        (.dispatched ev .onRead :: sinceCall ⟨id, .read⟩ i s.heap.log) =
        carried ⟨id, .read⟩ (sinceCall ⟨id, .read⟩ i s.heap.log) := List.append_nil _
    have hnote : Holds ⟨id, .read⟩ buf size s.heap.mem
        (.dispatched ev .onRead :: sinceCall ⟨id, .read⟩ i s.heap.log) :=
      hi.holds.adds ⟨[_], rfl, by simp [Event.isIo]⟩
    have hfits := hwhole.fits
    rw [hsince] at hfits
    rw [hsince, hmem, ← hsame]
    rw [← hsame] at hfits
    exact hnote.read _ _ _ hfits
  | wrote hdir => cases hdir

theorem State.readingAll_of_call {ms : Int} {cb : κ} {now : Timeval}
    (hl : s.heap.live id = true) (hfree : (s.heap.tok ⟨id, .read⟩).mode = .none)
    (hsize : 0 < size) (hs : s.step (.readAll id buf size cb ms r now) = some s')
    (hk : Each (serves id stream) (sinceCall ⟨id, .read⟩ s.heap.nextCall s'.heap.log)) :
    s'.readingAll id s.heap.nextCall buf size stream := by
  have ho := State.opens_of_request
    (q := ⟨⟨id, .read⟩, cb, ms, now, .all, fun _ => .sysRead id buf size r⟩) rfl hl hs
  unfold State.step at hs
  have hs' := State.user_live (h := .socket id) hl hs
  have hmem : s'.heap.mem = s.heap.mem.store buf r.bytes := by
    rw [hs']
    exact Heap.mem_readAll hfree
  obtain ⟨tv, htok⟩ := Heap.tok_readAll buf size cb ms r now hfree
  have htok : s'.heap.tok ⟨id, .read⟩ = _ :=
    (congrArg (fun s : State κ => s.heap.tok ⟨id, .read⟩) hs').trans htok
  have hzero : buf.add 0 = buf := by simp [Ptr.add]
  obtain ⟨evs, harmed, hlog⟩ := ho.log_eq hfree
  have hlen : r.bytes.length ≤ size.toNat := by
    refine bounded_of_serves hk (.sysRead id buf size r) ?_ rfl
    rw [hlog, sinceCall, History.since_append, History.since_cons (by simp)]
    · exact List.mem_append_right _ List.mem_cons_self
    · intro e hmem
      obtain ⟨tv, rfl⟩ := harmed e hmem
      simp
  obtain ⟨hwhole, evs, harmed, hsince⟩ := wholeBuffer_of_call ho hfree hsize htok (if_pos rfl)
    (by simp [Event.carries]) (fun _ => ⟨hsize, by simp [carried, hzero], by simp [carried]⟩)
    (by rw [ReadResult.count_io]; omega)
  refine ⟨hwhole, hk, ?_⟩
  have hone : Holds ⟨id, .read⟩ buf size s'.heap.mem [.sysRead id buf size r] := by
    have hnil : Holds ⟨id, .read⟩ buf size s.heap.mem [] := fun _ => rfl
    have hread := hnil.read r buf size (by simp [carried, Event.carries]; omega)
    rw [hmem]
    rwa [show buf.add (carried ⟨id, .read⟩ []).length = buf from hzero] at hread
  rw [hsince]
  refine hone.adds ⟨evs, rfl, fun e he => ?_⟩
  obtain ⟨tv, rfl⟩ := harmed e he
  exact fun h => h

theorem State.readingAll_of_steps (hr : (proactor κ).Reachable Machine.free s)
    (hi : s.readingAll id i buf size stream)
    (hst : (proactor κ).Steps (State.readsAlone id i stream) s s') :
    s'.readingAll id i buf size stream := by
  induction hst with
  | refl => exact hi
  | tail hst hm ih =>
    obtain ⟨act, hg, hs⟩ := hm
    have hr := hr.steps (Machine.Steps.mono (q := Machine.free) (fun _ _ _ => trivial) hst)
    exact State.readingAll_step (consistent_of_reachable hr) (State.delivers_of_reachable hr) ih hg
      hs

/-- A `readAll` that is left alone reads on in its buffer, and its callback gets all bytes of the
buffer or none: the next bytes of the stream, the end of the stream, the errno or the timeout. -/
theorem readAll_next_bytes {ms : Int} {cb : κ} {now : Timeval}
    (hr : (proactor κ).Reachable Machine.free s) (hl : s.heap.live id = true)
    (hfree : (s.heap.tok ⟨id, .read⟩).mode = .none) (hsize : 0 < size)
    (hs : s.step (.readAll id buf size cb ms r now) = some s')
    (hk : Each (serves id stream) (sinceCall ⟨id, .read⟩ s.heap.nextCall s'.heap.log))
    (hst : (proactor κ).Steps (State.readsAlone id s.heap.nextCall stream) s' s'')
    (hpast : past = sinceCall ⟨id, .read⟩ s.heap.nextCall s''.heap.log) :
    Each (goesOn ⟨id, .read⟩ buf size) past ∧
    ∀ via code n, (via, code, n) ∈ calls ⟨id, .read⟩ s.heap.nextCall past →
      (code = 0 → 0 < n → n = size ∧ size ≤ stream.length ∧
        carried ⟨id, .read⟩ past = stream.take size.toNat ∧
        (Untouched ⟨id, .read⟩ buf size past →
          s''.heap.mem.load buf size.toNat = stream.take size.toNat)) ∧
      (.moved 0 ∈ results ⟨id, .read⟩ past → code = 0 ∧ n = 0) ∧
      (∀ errno, errno ≠ EAGAIN → .fail errno ∈ results ⟨id, .read⟩ past → code = errno ∧ n = 0) ∧
      (via = .timer → code = ETIMEDOUT ∧ n = 0) ∧
      (via ≠ .timer → (∀ errno, errno ≠ EAGAIN → .fail errno ∉ results ⟨id, .read⟩ past) →
        code = 0 ∧ n = if size ≤ stream.length then size else 0) := by
  have hi : s''.readingAll id s.heap.nextCall buf size stream :=
    State.readingAll_of_steps (hr.step (a := .readAll id buf size cb ms r now) trivial hs)
      (State.readingAll_of_call hl hfree hsize hs hk) hst
  subst hpast
  refine ⟨hi.whole.inPlace, fun via code n hc => ?_⟩
  have hends := hi.whole.ends hc
  have hprefix := isPrefix_of_serves hi.served
  have hwaits : ∀ {rs : List IoResult}, (∀ r ∈ rs, r.waits) → .moved 0 ∉ rs ∧
      ∀ errno, errno ≠ EAGAIN → .fail errno ∉ rs :=
    fun hw => ⟨fun h => lt_irrefl 0 (hw _ h), fun errno he h => he (hw _ h)⟩
  generalize hrs :
    results ⟨id, .read⟩ (sinceCall ⟨id, .read⟩ s.heap.nextCall s''.heap.log) = rs at *
  cases hends with
  | timeout hw =>
    obtain ⟨hgot, hfail⟩ := hwaits hw
    exact ⟨fun h => absurd h (by decide), fun h => (hgot h).elim, fun e he h => (hfail e he h).elim,
      fun _ => ⟨rfl, rfl⟩, fun h => (h rfl).elim⟩
  | @failed errno rs' h he hw =>
    subst h
    obtain ⟨hgot, hfail⟩ := hwaits hw
    refine ⟨fun _ h => (lt_irrefl _ h).elim, fun h => ?_, fun e he' h => ?_, nofun,
      fun _ h => (h _ he List.mem_cons_self).elim⟩
    · rcases List.mem_cons.mp h with h | h
      · cases h
      · exact (hgot h).elim
    · rcases List.mem_cons.mp h with h | h
      · cases h
        exact ⟨rfl, rfl⟩
      · exact (hfail e he' h).elim
  | @nothing rs' h hw hshort =>
    obtain ⟨hgot, hfail⟩ := hwaits hw
    have hend := carried_of_eof hi.served (hrs.trans h)
    subst h
    rw [hend] at hshort
    refine ⟨fun _ h => (lt_irrefl _ h).elim, fun _ => ⟨rfl, rfl⟩, fun e he' h => ?_,
      nofun, fun _ _ => ⟨rfl, ?_⟩⟩
    · rcases List.mem_cons.mp h with h | h
      · cases h
      · exact (hfail e he' h).elim
    · rw [if_neg (not_le.mpr hshort)]
  | whole hw hlen =>
    obtain ⟨hgot, hfail⟩ := hwaits hw
    have hle := hprefix.length_le
    have hsize' : size ≤ stream.length := by omega
    have htake : carried ⟨id, .read⟩ (sinceCall ⟨id, .read⟩ s.heap.nextCall s''.heap.log) =
        stream.take size.toNat := by
      rw [List.prefix_iff_eq_take.mp hprefix]
      congr 1
      omega
    refine ⟨fun _ _ => ⟨rfl, hsize', htake, fun hun => ?_⟩, fun h => (hgot h).elim,
      fun e he h => (hfail e he h).elim, nofun, fun _ _ => ⟨rfl, ?_⟩⟩
    · have hold := hi.holds hun
      rw [List.take_of_length_le (by simp; omega)] at hold
      rw [hold, htake]
    · rw [if_pos hsize']

/-- A `readAll` of three bytes that gets the first at once. -/
def readThree : Action Unit := .readAll 0 ⟨1, 0⟩ 3 () 5000 (.got [65]) ⟨10, 0⟩

/-- The other two come with an event, and a fourth stays in the stream. -/
def restOfThree : List (Action Unit) :=
  [.run, .epollWait (.events [⟨5, .socket 0, ⟨true, false, false, false, false⟩⟩]),
    .dispatch (.got [66, 67]) (.accepted 0), .processCompletion]

theorem readAll_next_bytes_three : ∃ s'' : State Unit,
    calls ⟨0, .read⟩ 0 (sinceCall ⟨0, .read⟩ 0 s''.heap.log) = [(.completion, 0, 3)] ∧
    Each (goesOn ⟨0, .read⟩ ⟨1, 0⟩ 3) (sinceCall ⟨0, .read⟩ 0 s''.heap.log) ∧
    s''.heap.mem.load ⟨1, 0⟩ 3 = [65, 66, 67] := by
  obtain ⟨s, hr, hf⟩ := Machine.exists_of_exec (M := proactor Unit) (p := Machine.free)
    (s := State.initial fun _ _ => 0) (l := [.epollCreate 3 0, .create 0 5 ⟨0, 0⟩ ⟨0, 0⟩ 0])
    (f := fun s => (s.heap.live 0, (s.heap.tok ⟨0, .read⟩).mode, s.heap.nextCall,
      (s.step readThree).map fun s' => (decide (Each (serves 0 [65, 66, 67, 68])
          (sinceCall ⟨0, .read⟩ 0 s'.heap.log)),
        ((proactor Unit).exec (State.readsAlone 0 0 [65, 66, 67, 68]) s' restOfThree).map
          fun s'' => (calls ⟨0, .read⟩ 0 (sinceCall ⟨0, .read⟩ 0 s''.heap.log),
            decide (Untouched ⟨0, .read⟩ ⟨1, 0⟩ 3 (sinceCall ⟨0, .read⟩ 0 s''.heap.log))))))
    (b := (true, .none, 0, some (true, some ([(.completion, 0, 3)], true)))) ⟨_, rfl⟩ rfl
  simp only [Prod.mk.injEq] at hf
  obtain ⟨hl, hm, hn, hcall⟩ := hf
  obtain ⟨s', hs, hcall⟩ := Option.map_eq_some_iff.mp hcall
  simp only [Prod.mk.injEq, decide_eq_true_eq] at hcall
  obtain ⟨hk, hrest⟩ := hcall
  obtain ⟨s'', hst, hend⟩ := Option.map_eq_some_iff.mp hrest
  simp only [Prod.mk.injEq, decide_eq_true_eq] at hend
  obtain ⟨hcalls, hun⟩ := hend
  have hk' : Each (serves 0 [65, 66, 67, 68])
      (sinceCall ⟨0, .read⟩ s.heap.nextCall s'.heap.log) := by
    rw [hn]
    exact hk
  have hst' : (proactor Unit).Steps (State.readsAlone 0 s.heap.nextCall [65, 66, 67, 68]) s'
      s'' := by
    rw [hn]
    exact Machine.exec_steps hst
  obtain ⟨hplace, hends⟩ := readAll_next_bytes hr hl hm (by decide) hs hk' hst' rfl
  rw [hn] at hplace hends
  obtain ⟨hget, -⟩ := hends .completion 0 3 (by rw [hcalls]; exact List.mem_singleton.mpr rfl)
  obtain ⟨-, -, -, hmem⟩ := hget rfl (by decide)
  exact ⟨s'', hcalls, hplace, hmem hun⟩

end EchoBenchmark.Proactor
