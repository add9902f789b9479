import EchoBenchmark.Echo.Moves
import EchoBenchmark.Proactor.WholeBuffer

/-!
The bytes of a connection: what the server has read and sent, which of it is still to be sent, and
what a `::read` or a `::write` for the client makes of that.
-/

namespace EchoBenchmark.Echo

open EchoBenchmark.Proactor
open History (Adds since)

variable {h h' : Heap Fn} {c j : ClientId} {e : Event} {log log' : List Event} {t : TokenId}
  {r : ReadResult} {w : WriteResult} {q : Ptr} {len : Int} {bytes rest : List UInt8} {m n : Nat}

/-! ### What the history says of a connection -/

/-- The bytes that the server has read from the client since it was created. -/
def received (c : ClientId) (log : List Event) : List UInt8 :=
  carried ⟨c, .read⟩ (since (.created c) log)

/-- The bytes that the kernel has accepted for the client since it was created. -/
def sent (c : ClientId) (log : List Event) : List UInt8 :=
  carried ⟨c, .write⟩ (since (.created c) log)

/-- The kernel moved no more bytes than it was asked for. -/
def fits : Event → Prop
  | .sysRead _ _ len r => r.bytes.length ≤ len.toNat
  | .sysWrite _ _ len w _ => w.count ≤ len.toNat
  | _ => True

instance (e : Event) : Decidable (fits e) := by
  apply @Event.casesOn _ e <;> (intros; dsimp only [fits]; infer_instance)

/-- The `len` places from `p` on have indices below `BUFSIZE` in the array at `buf`. -/
def Within (p : Ptr) (len : Int) (buf : Ptr) : Prop :=
  ∀ i : Nat, (i : Int) < len → ∃ k < BUFSIZE, p.add i = buf.add k

/-- What the entry used of memory lies in the buffers: a `::read` may store into all of the place
it was given, a `::write` may load from it, and a copy does both. -/
def inBuffers : Event → Prop
  | .sysRead c buf len _ => Within buf len (recvBuf c)
  | .sysWrite c buf len _ _ => Within buf len (sendBuf c)
  | .copied dst src n => ∃ c, Within dst n (sendBuf c) ∧ Within src n (recvBuf c)
  | _ => True

theorem within_self (hn : len ≤ BUFSIZE) (buf : Ptr) : Within buf len buf :=
  fun i hi => ⟨i, by omega, rfl⟩

theorem within_add (hn : n ≤ BUFSIZE) (buf : Ptr) : Within (buf.add m) (n - m) buf := by
  intro i hi
  refine ⟨m + i, by omega, ?_⟩
  have hoff : buf.off + (m : Int) + i = buf.off + ((m + i : Nat) : Int) := by omega
  exact congrArg (Ptr.mk buf.base) hoff

/-- The entry neither moves bytes of the client nor creates it. -/
def aside (c : ClientId) (e : Event) : Prop := e ≠ .created c ∧ ∀ d, ¬ e.isIo ⟨c, d⟩

/-- The entry moves no bytes at all and creates no client. -/
def quiet (e : Event) : Prop := (∀ c, aside c e) ∧ ¬ copies e

theorem inBuffers_of_quiet (he : quiet e) : inBuffers e := by
  cases e with
  | sysRead c => exact ((he.1 c).2 .read rfl).elim
  | sysWrite c => exact ((he.1 c).2 .write rfl).elim
  | copied => exact (he.2 trivial).elim
  | _ => trivial

theorem quiet_of_isNote (he : e.isNote) (hc : ¬ copies e) : quiet e := by
  cases e <;> first | exact he.elim | exact ⟨fun _ => ⟨nofun, fun _ => id⟩, hc⟩

theorem Calm.quiet (hc : Calm h h') : Adds quiet h.log h'.log := by
  obtain ⟨evs, hn, hlog⟩ := hc.noted.log
  obtain ⟨evs', hlog', hcopy⟩ := hc.uncopied
  obtain rfl : evs = evs' := List.append_cancel_right (hlog.symm.trans hlog')
  exact ⟨evs, hlog, fun e he => quiet_of_isNote (hn e he) (hcopy e he)⟩

theorem received_of_adds (ha : Adds (aside c) log log') : received c log' = received c log :=
  carried_adds ((ha.since fun _ he => he.1).mono fun _ he => he.2 .read)

theorem sent_of_adds (ha : Adds (aside c) log log') : sent c log' = sent c log :=
  carried_adds ((ha.since fun _ he => he.1).mono fun _ he => he.2 .write)

theorem received_sysRead :
    received c (.sysRead c q len r :: log) = received c log ++ r.bytes := by
  rw [received, History.since_cons (by simp), carried]
  simp [received, Event.carries]

theorem sent_sysRead : sent c (.sysRead c q len r :: log) = sent c log := by
  rw [sent, History.since_cons (by simp), carried]
  simp [sent, Event.carries]

theorem received_sysWrite :
    received c (.sysWrite c q len w bytes :: log) = received c log := by
  rw [received, History.since_cons (by simp), carried]
  simp [received, Event.carries]

theorem sent_sysWrite : sent c (.sysWrite c q len w bytes :: log) = sent c log ++ bytes := by
  rw [sent, History.since_cons (by simp), carried]
  simp [sent, Event.carries]

/-! ### What is still to be sent -/

/-- Of what was read from the client all but `bytes` has been sent. -/
def Owes (c : ClientId) (log : List Event) (bytes : List UInt8) : Prop :=
  received c log = sent c log ++ bytes

namespace Owes

theorem isPrefix (ho : Owes c log bytes) : sent c log <+: received c log := by
  rw [ho]
  exact List.prefix_append _ _

theorem adds (ho : Owes c log bytes) (ha : Adds (aside c) log log') : Owes c log' bytes := by
  unfold Owes
  rw [received_of_adds ha, sent_of_adds ha]
  exact ho

/-- What is read when nothing is owed is owed then. -/
theorem read (ho : Owes c log []) : Owes c (.sysRead c q len r :: log) r.bytes := by
  unfold Owes at ho ⊢
  rw [received_sysRead, sent_sysRead, ho, List.append_nil]

theorem write (ho : Owes c log (bytes ++ rest)) :
    Owes c (.sysWrite c q len w bytes :: log) rest := by
  unfold Owes at ho ⊢
  rw [received_sysWrite, sent_sysWrite, ho, List.append_assoc]

theorem created (log : List Event) : Owes c (.created c :: log) [] := by
  unfold Owes received sent
  rw [History.since_cons_self]
  rfl

end Owes

/-- What the operations of the client have still to send, by their tokens and buffers. -/
structure Operating (h : Heap Fn) (c : ClientId) : Prop where
  reads : (h.tok ⟨c, .read⟩).mode.pending → (h.tok ⟨c, .read⟩).mode = .some ∧
    (h.tok ⟨c, .read⟩).buf = recvBuf c ∧ (h.tok ⟨c, .read⟩).bufSize = BUFSIZE ∧ Owes c h.log []
  filled : (h.tok ⟨c, .read⟩).mode.finished → ∃ n : Nat, (h.tok ⟨c, .read⟩).ioSize = n ∧
    n ≤ BUFSIZE ∧ Owes c h.log (h.mem.load (recvBuf c) n)
  writes : (h.tok ⟨c, .write⟩).mode = .all → ∃ m n : Nat, (h.tok ⟨c, .write⟩).buf = sendBuf c ∧
    (h.tok ⟨c, .write⟩).ioSize = m ∧ (h.tok ⟨c, .write⟩).bufSize = n ∧ m < n ∧ n ≤ BUFSIZE ∧
    Owes c h.log (h.mem.load ((sendBuf c).add m) (n - m))
  emptied : (h.tok ⟨c, .write⟩).mode.finished → 0 < (h.tok ⟨c, .write⟩).ioSize → Owes c h.log []

/-- What the running function has still to do with the bytes of its client. -/
def Handling (h : Heap Fn) : List Stmt → Prop
  | [.startRecv c] => Owes c h.log []
  | [.memcpy c bytes, .writeAll _ _] => ∃ n : Nat, bytes = n ∧ n ≤ BUFSIZE ∧
    Owes c h.log (h.mem.load (recvBuf c) n)
  | [.writeAll c bytes] => ∃ n : Nat, bytes = n ∧ n ≤ BUFSIZE ∧
    Owes c h.log (h.mem.load (sendBuf c) n)
  | _ => True

/-- The buffers of the client hold the same. -/
def SameBuffers (h h' : Heap Fn) (c : ClientId) : Prop :=
  h'.mem (recvBuf c).base = h.mem (recvBuf c).base ∧
    h'.mem (sendBuf c).base = h.mem (sendBuf c).base

theorem load_of_block {mem mem' : Mem} {p : Ptr} (hm : mem' p.base = mem p.base) :
    mem'.load p n = mem.load p n :=
  Mem.load_congr fun _ _ => by rw [hm]

theorem store_of_ne {mem : Mem} {p : Ptr} {b : Nat} (hb : b ≠ p.base) :
    mem.store p bytes b = mem b :=
  funext fun _ => if_neg fun hin => hb hin.1

/-- A client whose operations ended or were only given an error. -/
theorem Operating.frame (ho : Operating h c)
    (htok : ∀ d, (h'.tok ⟨c, d⟩).mode = .none ∨
      ∃ err, h'.tok ⟨c, d⟩ = { h.tok ⟨c, d⟩ with err := err })
    (hlog : Adds (aside c) h.log h'.log) (hmem : SameBuffers h h' c) : Operating h' c := by
  have hload : ∀ k, h'.mem.load (recvBuf c) k = h.mem.load (recvBuf c) k := fun _ =>
    load_of_block hmem.1
  have hsend : ∀ m k : Nat, h'.mem.load ((sendBuf c).add m) k = h.mem.load ((sendBuf c).add m) k :=
    fun _ _ => load_of_block hmem.2
  constructor
  · intro hp
    rcases htok .read with hd | ⟨err, hd⟩
    · exact (Mode.ne_none_of_pending hp hd).elim
    · rw [hd] at hp ⊢
      obtain ⟨hm, hb, hs, howes⟩ := ho.reads hp
      exact ⟨hm, hb, hs, howes.adds hlog⟩
  · intro hf
    rcases htok .read with hd | ⟨err, hd⟩
    · exact (Mode.ne_none_of_finished hf hd).elim
    · rw [hd] at hf ⊢
      obtain ⟨n, hn, hle, howes⟩ := ho.filled hf
      exact ⟨n, hn, hle, by rw [hload]; exact howes.adds hlog⟩
  · intro hm
    rcases htok .write with hd | ⟨err, hd⟩
    · rw [hd] at hm
      cases hm
    · rw [hd] at hm ⊢
      obtain ⟨m, n, hb, hi, hs, hlt, hle, howes⟩ := ho.writes hm
      exact ⟨m, n, hb, hi, hs, hlt, hle, by rw [hsend]; exact howes.adds hlog⟩
  · intro hf hpos
    rcases htok .write with hd | ⟨err, hd⟩
    · exact (Mode.ne_none_of_finished hf hd).elim
    · rw [hd] at hf hpos
      exact (ho.emptied hf hpos).adds hlog

theorem operating_of_idle (hi : Idle h c) : Operating h c where
  reads hp := (Mode.ne_none_of_pending hp (hi .read)).elim
  filled hf := (Mode.ne_none_of_finished hf (hi .read)).elim
  writes hm := by
    rw [hi .write] at hm
    cases hm
  emptied hf := (Mode.ne_none_of_finished hf (hi .write)).elim

theorem Handling.quiet {todo : List Stmt} (hh : Handling h todo) (hlog : Adds quiet h.log h'.log)
    (hmem : h'.mem = h.mem) : Handling h' todo := by
  have hadds : ∀ c, Adds (aside c) h.log h'.log := fun c => hlog.mono fun _ he => he.1 c
  unfold Handling at hh ⊢
  split at hh
  · exact hh.adds (hadds _)
  · obtain ⟨n, hn, hle, howes⟩ := hh
    exact ⟨n, hn, hle, by rw [hmem]; exact howes.adds (hadds _)⟩
  · obtain ⟨n, hn, hle, howes⟩ := hh
    exact ⟨n, hn, hle, by rw [hmem]; exact howes.adds (hadds _)⟩
  · trivial

/-! ### A `::read` for the client -/

/-- `h'` follows from `h` by a `::read` into the whole buffer of the client. -/
structure Fetches (c : ClientId) (r : ReadResult) (h h' : Heap Fn) : Prop where
  other : ∀ u, u ≠ ⟨c, .read⟩ → h'.tok u = h.tok u
  mem : h'.mem = h.mem.store (recvBuf c) r.bytes
  log : ∃ past, Adds quiet h.log past ∧
    Adds quiet (.sysRead c (recvBuf c) BUFSIZE r :: past) h'.log
  tok : (h'.tok ⟨c, .read⟩).mode = .some ∧ (h'.tok ⟨c, .read⟩).buf = recvBuf c ∧
      (h'.tok ⟨c, .read⟩).bufSize = BUFSIZE ∧ r.bytes = [] ∨
    (h'.tok ⟨c, .read⟩).mode.finished ∧ (h'.tok ⟨c, .read⟩).ioSize = r.bytes.length

theorem quiet_started {i : Nat} : quiet (.started t i) :=
  ⟨fun _ => ⟨nofun, fun _ => id⟩, id⟩

theorem quiet_armed {tv : Timeval} : quiet (.armed t tv) :=
  ⟨fun _ => ⟨nofun, fun _ => id⟩, id⟩

theorem adds_park {k : Int} {mode : Mode} {ms : Int} {now : Timeval} (hlog : Adds quiet log h.log) :
    Adds quiet log (h.park t k mode ms now).log := by
  rcases Heap.log_park_cases h t k mode ms now with hp | ⟨tv, hp⟩
  · rw [hp]
    exact hlog
  · rw [hp]
    exact hlog.cons quiet_armed

theorem fetches_readSome (cb : Fn) (ms : Int) (r : ReadResult) (now : Timeval)
    (hm : (h.tok ⟨c, .read⟩).mode = .none) :
    Fetches c r h (h.readSome c (recvBuf c) BUFSIZE cb ms r now).1 := by
  have hstart : (h.startRead c (recvBuf c) BUFSIZE cb r).log =
      .sysRead c (recvBuf c) BUFSIZE r :: .started ⟨c, .read⟩ h.nextCall :: h.log := by
    simp [Heap.startRead]
  have hmem : (h.startRead c (recvBuf c) BUFSIZE cb r).mem =
      h.mem.store (recvBuf c) r.bytes := by simp [Heap.startRead]
  have hadds : Adds quiet h.log (.started ⟨c, .read⟩ h.nextCall :: h.log) :=
    Adds.refl.cons quiet_started
  cases r with
  | got bytes =>
    rw [Heap.readSome_got hm]
    refine ⟨fun u hu => ?_, hmem, ⟨_, hadds, ?_⟩, .inr ⟨?_, ?_⟩⟩
    · rw [Heap.tok_finish, if_neg hu, Heap.tok_startRead, if_neg hu]
    · rw [Heap.log_finish, hstart]
      exact .refl
    · rw [Heap.tok_finish, if_pos rfl]
      exact .inl rfl
    · rw [Heap.tok_finish, if_pos rfl]
      rfl
  | fail errno =>
    by_cases he : errno = EAGAIN
    · subst he
      rw [Heap.readSome_again hm]
      refine ⟨fun u hu => ?_, Heap.mem_park.trans hmem, ⟨_, hadds, ?_⟩, .inl ⟨?_, ?_, ?_, rfl⟩⟩
      · rw [Heap.tok_park, if_neg hu, Heap.tok_startRead, if_neg hu]
      · rw [← hstart]
        exact adds_park .refl
      · rw [Heap.tok_park, if_pos rfl]
      · rw [Heap.tok_park, if_pos rfl, Heap.tok_startRead, if_pos rfl]
        rfl
      · rw [Heap.tok_park, if_pos rfl, Heap.tok_startRead, if_pos rfl]
        rfl
    · rw [Heap.readSome_fail hm he]
      refine ⟨fun u hu => ?_, hmem, ⟨_, hadds, ?_⟩, .inr ⟨?_, ?_⟩⟩
      · rw [Heap.tok_finish, if_neg hu, Heap.tok_startRead, if_neg hu]
      · rw [Heap.log_finish, hstart]
        exact .refl
      · rw [Heap.tok_finish, if_pos rfl]
        exact .inr rfl
      · rw [Heap.tok_finish, if_pos rfl]
        rfl

theorem fetches_onRead (hm : (h.tok ⟨c, .read⟩).mode = .some)
    (hb : (h.tok ⟨c, .read⟩).buf = recvBuf c) (hs : (h.tok ⟨c, .read⟩).bufSize = BUFSIZE) :
    Fetches c r h (h.onRead c r) := by
  cases r with
  | got bytes =>
    rw [Heap.onRead_some_got hm, hb, hs]
    refine ⟨fun u hu => ?_, Heap.mem_read, ⟨_, .refl, ?_⟩, .inr ⟨?_, ?_⟩⟩
    · rw [Heap.tok_finish, if_neg hu, Heap.tok_read, if_neg hu]
    · rw [Heap.log_finish, Heap.log_read]
      exact .refl
    · rw [Heap.tok_finish, if_pos rfl]
      exact .inl rfl
    · rw [Heap.tok_finish, if_pos rfl]
      rfl
  | fail errno =>
    by_cases he : errno = EAGAIN
    · subst he
      rw [Heap.onRead_some_again hm, hb, hs]
      refine ⟨fun u hu => ?_, Heap.mem_read, ⟨_, .refl, ?_⟩, .inl ?_⟩
      · rw [Heap.tok_read, if_neg hu]
      · rw [Heap.log_read]
        exact .refl
      · rw [Heap.tok_read, if_pos rfl]
        exact ⟨hm, hb, hs, rfl⟩
    · rw [Heap.onRead_some_fail hm he, hb, hs]
      refine ⟨fun u hu => ?_, Heap.mem_read, ⟨_, .refl, ?_⟩, .inr ⟨?_, ?_⟩⟩
      · rw [Heap.tok_finish, if_neg hu, Heap.tok_read, if_neg hu]
      · rw [Heap.log_finish, Heap.log_read]
        exact .refl
      · rw [Heap.tok_finish, if_pos rfl]
        exact .inr rfl
      · rw [Heap.tok_finish, if_pos rfl]
        rfl

/-- What comes when nothing is owed lies in the buffer, and the read token says how much. -/
theorem Fetches.operating (hf : Fetches c r h h') (howes : Owes c h.log [])
    (hlen : r.bytes.length ≤ BUFSIZE) (hidle : (h.tok ⟨c, .write⟩).mode = .none) :
    Owes c h'.log r.bytes ∧ Operating h' c := by
  obtain ⟨past, hpast, hlog⟩ := hf.log
  have howes' : Owes c h'.log r.bytes :=
    ((howes.adds (hpast.mono fun _ he => he.1 c)).read).adds (hlog.mono fun _ he => he.1 c)
  have hidle' : (h'.tok ⟨c, .write⟩).mode = .none := by
    rw [hf.other _ (by simp)]
    exact hidle
  refine ⟨howes', fun hp => ?_, fun hfin => ?_, fun hm => ?_, fun hfin => ?_⟩
  · obtain ⟨hm, hb, hs, hnil⟩ | ⟨hfin, -⟩ := hf.tok
    · rw [hnil] at howes'
      exact ⟨hm, hb, hs, howes'⟩
    · exact (Mode.not_finished_of_pending hp hfin).elim
  · obtain ⟨hm, -⟩ | ⟨-, hsize⟩ := hf.tok
    · exact (Mode.not_finished_of_pending (.inl hm) hfin).elim
    · refine ⟨_, hsize, hlen, ?_⟩
      rw [hf.mem, Mem.load_store]
      exact howes'
  · rw [hidle'] at hm
    cases hm
  · exact (Mode.ne_none_of_finished hfin hidle').elim

/-! ### A `::write` for the client -/

/-- `h'` follows from `h` by a `::write` of what is left of the first `n` bytes in the buffer of
the client when `m` of them are sent. -/
structure Sends (c : ClientId) (m n : Nat) (w : WriteResult) (h h' : Heap Fn) : Prop where
  other : ∀ u, u ≠ ⟨c, .write⟩ → h'.tok u = h.tok u
  mem : h'.mem = h.mem
  log : ∃ past, Adds quiet h.log past ∧ Adds quiet (.sysWrite c ((sendBuf c).add m) (n - m) w
    (h.mem.load ((sendBuf c).add m) w.count) :: past) h'.log
  tok : ∃ (k : Token Fn) (tv : Timeval), k.buf = sendBuf c ∧ k.ioSize = m ∧ k.bufSize = n ∧
    h'.tok ⟨c, .write⟩ = { k.goOn .write w.io with tv := tv }

/-- A token that goes on waiting has counted what was moved. -/
theorem goOn_waits {k : Token Fn} {d : Dir} {io : IoResult} (hroom : k.ioSize < k.bufSize)
    (hm : (k.goOn d io).mode = .all) : (k.goOn d io).buf = k.buf ∧
      (k.goOn d io).bufSize = k.bufSize ∧ (k.goOn d io).ioSize = k.ioSize + io.count ∧
      k.ioSize + io.count < k.bufSize := by
  cases io with
  | moved i =>
    by_cases hi : i = 0
    · rw [Token.goOn, if_pos hi] at hm
      cases d <;> cases hm
    · rw [Token.goOn, if_neg hi] at hm ⊢
      by_cases hs : k.ioSize + (i : Int) < k.bufSize
      · exact ⟨rfl, rfl, rfl, hs⟩
      · rw [if_neg hs] at hm
        cases hm
  | fail errno =>
    by_cases he : errno = EAGAIN
    · rw [Token.goOn, if_pos he]
      have hzero : k.ioSize = k.ioSize + (IoResult.fail errno).count := (Int.add_zero _).symm
      exact ⟨rfl, rfl, hzero, hzero ▸ hroom⟩
    · rw [Token.goOn, if_neg he] at hm
      cases hm

/-- A token that ends with a count has moved all. -/
theorem goOn_ends {k : Token Fn} {d : Dir} {io : IoResult} (hf : (k.goOn d io).mode.finished)
    (hpos : 0 < (k.goOn d io).ioSize) : k.bufSize ≤ k.ioSize + io.count := by
  cases io with
  | moved i =>
    by_cases hi : i = 0
    · rw [Token.goOn, if_pos hi] at hpos
      exact (lt_irrefl _ hpos).elim
    · rw [Token.goOn, if_neg hi] at hf
      by_cases hs : k.ioSize + (i : Int) < k.bufSize
      · rw [if_pos hs] at hf
        exact (Mode.not_finished_of_pending (.inr rfl) hf).elim
      · exact not_lt.mp hs
  | fail errno =>
    by_cases he : errno = EAGAIN
    · rw [Token.goOn, if_pos he] at hf
      exact (Mode.not_finished_of_pending (.inr rfl) hf).elim
    · rw [Token.goOn, if_neg he] at hpos
      exact (lt_irrefl _ hpos).elim

theorem sends_writeAll (n : Nat) (cb : Fn) (ms : Int) (w : WriteResult) (now : Timeval)
    (hm : (h.tok ⟨c, .write⟩).mode = .none) :
    Sends c 0 n w h (h.writeAll c (sendBuf c) n cb ms w now).1 := by
  have ho : h.Opens _ (h.writeAll c (sendBuf c) n cb ms w now) := Heap.writeAll_opens
  obtain ⟨tv, htok⟩ := Heap.tok_writeAll (sendBuf c) n cb ms w now hm
  have hstart : ∃ evs, (∀ e ∈ evs, ∃ tv, e = .armed ⟨c, .write⟩ tv) ∧
      (h.writeAll c (sendBuf c) n cb ms w now).1.log =
        evs ++ .sysWrite c (sendBuf c) n w (h.mem.load (sendBuf c) w.count) ::
          .started ⟨c, .write⟩ h.nextCall :: h.log := ho.log_eq hm
  obtain ⟨evs, harmed, hlog⟩ := hstart
  refine ⟨fun u hu => ho.other hu, Heap.mem_writeAll, ?_, ⟨_, tv, rfl, rfl, rfl, htok⟩⟩
  refine ⟨.started ⟨c, .write⟩ h.nextCall :: h.log, Adds.refl.cons quiet_started, evs, ?_,
    fun e he => ?_⟩
  · rw [hlog]
    simp [Ptr.add]
  · obtain ⟨tv, rfl⟩ := harmed e he
    exact quiet_armed

theorem sends_onWrite (hm : (h.tok ⟨c, .write⟩).mode = .all)
    (hb : (h.tok ⟨c, .write⟩).buf = sendBuf c) (hi : (h.tok ⟨c, .write⟩).ioSize = m)
    (hs : (h.tok ⟨c, .write⟩).bufSize = n) : Sends c m n w h (h.onWrite c w) := by
  have hlog := Heap.onWrite_all_io (w := w) hm
  rw [hb, hi, hs] at hlog
  refine ⟨fun u hu => Heap.onWrite_progresses.other hu, Heap.mem_onWrite, ⟨_, .refl, ?_⟩,
    ⟨_, _, hb, hi, hs, Heap.tok_onWrite_all hm⟩⟩
  rw [hlog]
  exact .refl

/-- What was owed, the bytes behind those sent, is owed but for those that are sent now. -/
theorem Sends.operating (hw : Sends c m n w h h') (hmn : m < n) (hn : n ≤ BUFSIZE)
    (howes : Owes c h.log (h.mem.load ((sendBuf c).add m) (n - m))) (hlen : m + w.count ≤ n)
    (hidle : (h.tok ⟨c, .read⟩).mode = .none) :
    sent c h'.log <+: received c h'.log ∧ Operating h' c := by
  obtain ⟨past, hpast, hlog⟩ := hw.log
  obtain ⟨k, tv, hb, hi, hs, htok⟩ := hw.tok
  have hsplit : h.mem.load ((sendBuf c).add m) (n - m) =
      h.mem.load ((sendBuf c).add m) w.count ++
        h'.mem.load ((sendBuf c).add (m + w.count : Nat)) (n - (m + w.count)) := by
    have hadd : n - m = w.count + (n - (m + w.count)) := by omega
    have hptr : ((sendBuf c).add m).add w.count = (sendBuf c).add (m + w.count : Nat) :=
      congrArg (Ptr.mk _) (by simp only [Ptr.add]; omega)
    rw [hadd, Mem.load_add, hptr, hw.mem]
  have howes' : Owes c h'.log
      (h'.mem.load ((sendBuf c).add (m + w.count : Nat)) (n - (m + w.count))) := by
    rw [hsplit] at howes
    exact ((howes.adds (hpast.mono fun _ he => he.1 c)).write).adds (hlog.mono fun _ he => he.1 c)
  have hidle' : (h'.tok ⟨c, .read⟩).mode = .none := by
    rw [hw.other _ (by simp)]
    exact hidle
  refine ⟨howes'.isPrefix, fun hp => ?_, fun hfin => ?_, fun hm => ?_, fun hfin hpos => ?_⟩
  · exact (Mode.ne_none_of_pending hp hidle').elim
  · exact (Mode.ne_none_of_finished hfin hidle').elim
  · rw [htok] at hm ⊢
    obtain ⟨hbuf, hsize, hio, hroom⟩ := goOn_waits (by omega) hm
    rw [WriteResult.count_io] at hio hroom
    refine ⟨m + w.count, n, hbuf.trans hb, ?_, hsize.trans hs, by omega, hn, howes'⟩
    exact hio.trans (by omega)
  · rw [htok] at hfin hpos
    have hall := goOn_ends hfin hpos
    rw [WriteResult.count_io] at hall
    have hnone : n - (m + w.count) = 0 := by omega
    rw [hnone] at howes'
    exact howes'

end EchoBenchmark.Echo
