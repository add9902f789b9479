import EchoBenchmark.Proactor.Memory
import EchoBenchmark.Proactor.Tokens

/-!
Operations that want the whole buffer, `readAll` and `writeAll`, while nothing else is asked of
their token: each kernel call goes on where the last one ended, and how the callback is called.
-/

namespace EchoBenchmark.Proactor

open History (Adds Each since)

variable {κ : Type}

/-! ### Kernel calls of a token -/

/-- The result of a `::read` or a `::write`, but for the bytes. -/
inductive IoResult
  | moved (n : Nat)
  | fail (errno : Int)
  deriving DecidableEq

def IoResult.count : IoResult → Nat
  | .moved n => n
  | .fail _ => 0

/-- The operation goes on waiting after such a call. -/
def IoResult.waits : IoResult → Prop
  | .moved n => 0 < n
  | .fail errno => errno = EAGAIN

def ReadResult.io : ReadResult → IoResult
  | .got bytes => .moved bytes.length
  | .fail errno => .fail errno

def WriteResult.io : WriteResult → IoResult
  | .accepted n => .moved n
  | .fail errno => .fail errno

@[simp] theorem ReadResult.count_io (r : ReadResult) : r.io.count = r.bytes.length := by
  cases r <;> rfl

@[simp] theorem WriteResult.count_io (w : WriteResult) : w.io.count = w.count := by
  cases w <;> rfl

/-- The result of an entry that is a kernel call for token `t`. -/
def Event.ioOf (t : TokenId) : Event → Option IoResult
  | .sysRead id _ _ r => if t = ⟨id, .read⟩ then some r.io else none
  | .sysWrite id _ _ w _ => if t = ⟨id, .write⟩ then some w.io else none
  | _ => none

/-- The results of the kernel calls for token `t`, latest first. -/
def results (t : TokenId) (log : List Event) : List IoResult := log.filterMap (Event.ioOf t)

/-- The bytes that an entry stored or sent for token `t`. -/
def Event.carries (t : TokenId) : Event → List UInt8
  | .sysRead id _ _ r => if t = ⟨id, .read⟩ then r.bytes else []
  | .sysWrite id _ _ _ bytes => if t = ⟨id, .write⟩ then bytes else []
  | _ => []

/-- The bytes stored or sent for token `t`, in order. -/
def carried (t : TokenId) : List Event → List UInt8
  | [] => []
  | e :: past => carried t past ++ e.carries t

/-- A kernel call for `len` bytes at `q` goes on after the first `n` of `size` bytes at `buf`. -/
def Continues (buf : Ptr) (size : Int) (n : Nat) (q : Ptr) (len : Int) : Prop :=
  (n : Int) < size ∧ q = buf.add n ∧ len = size - n

instance (buf : Ptr) (size : Int) (n : Nat) (q : Ptr) (len : Int) :
    Decidable (Continues buf size n q len) := inferInstanceAs (Decidable (_ ∧ _))

/-- The kernel calls for token `t` go on where the bytes before them end. -/
def goesOn (t : TokenId) (buf : Ptr) (size : Int) (past : List Event) : Event → Prop
  | .sysRead id q len _ => t = ⟨id, .read⟩ → Continues buf size (carried t past).length q len
  | .sysWrite id q len _ _ => t = ⟨id, .write⟩ → Continues buf size (carried t past).length q len
  | _ => True

/-- The kernel moves no more bytes than asked for. -/
def Event.bounded (t : TokenId) : Event → Prop
  | .sysRead id _ len r => t = ⟨id, .read⟩ → r.bytes.length ≤ len.toNat
  | .sysWrite id _ len w _ => t = ⟨id, .write⟩ → w.count ≤ len.toNat
  | _ => True

/-- The history since call `i` took token `t`. -/
abbrev sinceCall (t : TokenId) (i : Nat) (log : List Event) : List Event := since (.started t i) log

/-- How the callback can be called after the results `rs` have moved `n` bytes. -/
inductive AllEnds (size : Int) (n : Nat) (rs : List IoResult) : Via × Int × Int → Prop
  | timeout : (∀ r ∈ rs, r.waits) → AllEnds size n rs (.timer, ETIMEDOUT, 0)
  | failed {errno : Int} {rs' : List IoResult} : rs = .fail errno :: rs' → errno ≠ EAGAIN →
      (∀ r ∈ rs', r.waits) → AllEnds size n rs (.completion, errno, 0)
  | nothing {rs' : List IoResult} : rs = .moved 0 :: rs' → (∀ r ∈ rs', r.waits) →
      (n : Int) < size → AllEnds size n rs (.completion, 0, 0)
  | whole : (∀ r ∈ rs, r.waits) → (n : Int) = size → AllEnds size n rs (.completion, 0, size)

/-! ### What a kernel call makes of the token -/

/-- The call that errors of a direction name. -/
def Dir.call : Dir → Call
  | .read => .recv
  | .write => .send

/-- How a kernel call that moves nothing ends the operation. -/
def Dir.nothing : Dir → Mode
  | .read => .done
  | .write => .err

/-- The token of a `readAll` or `writeAll` after a kernel call for the rest of its buffer. -/
def Token.goOn (d : Dir) (k : Token κ) : IoResult → Token κ
  | .moved n =>
    if n = 0 then { k with err := Error.new, ioSize := 0, mode := d.nothing }
    else
      { k with
        err := Error.new
        ioSize := k.ioSize + n
        mode := if k.ioSize + n < k.bufSize then .all else .done }
  | .fail errno =>
    if errno = EAGAIN then { k with err := ⟨errno, .fail d.call errno⟩, mode := .all }
    else { k with err := ⟨errno, .fail d.call errno⟩, ioSize := 0, mode := .err }

namespace Heap

variable {h : Heap κ} {id : SockId} {buf : Ptr} {size ms : Int} {cb : κ} {now : Timeval}
  {r : ReadResult} {w : WriteResult}

theorem tok_onRead_all (hm : (h.tok ⟨id, .read⟩).mode = .all) :
    (h.onRead id r).tok ⟨id, .read⟩ = (h.tok ⟨id, .read⟩).goOn .read r.io := by
  cases r with
  | got bytes =>
    by_cases hb : bytes = []
    · subst hb
      rw [onRead_all_eof hm, tok_finish, if_pos rfl, tok_continueRead, if_pos rfl]
      rfl
    · rw [ReadResult.io, Token.goOn, if_neg (List.length_pos_iff.mpr hb).ne']
      by_cases hs : (h.tok ⟨id, .read⟩).ioSize + bytes.length < (h.tok ⟨id, .read⟩).bufSize
      · rw [onRead_all_part hm hb hs, tok_modify_self, tok_continueRead, if_pos rfl, if_pos hs,
          ← hm]
        rfl
      · rw [onRead_all_whole hm hb hs, tok_finish, if_pos rfl, tok_modify_self, tok_continueRead,
          if_pos rfl, if_neg hs]
        rfl
  | fail errno =>
    by_cases he : errno = EAGAIN
    · subst he
      rw [onRead_all_again hm, tok_continueRead, if_pos rfl, ReadResult.io, Token.goOn, if_pos rfl,
        ← hm]
      rfl
    · rw [onRead_all_fail hm he, tok_finish, if_pos rfl, tok_continueRead, if_pos rfl,
        ReadResult.io, Token.goOn, if_neg he]
      rfl

theorem tok_onWrite_all (hm : (h.tok ⟨id, .write⟩).mode = .all) :
    (h.onWrite id w).tok ⟨id, .write⟩ = (h.tok ⟨id, .write⟩).goOn .write w.io := by
  cases w with
  | accepted n =>
    rcases Nat.eq_zero_or_pos n with rfl | hpos
    · rw [onWrite_zero hm, tok_finish, if_pos rfl, tok_continueWrite, if_pos rfl]
      rfl
    · rw [WriteResult.io, Token.goOn, if_neg hpos.ne']
      by_cases hs : (h.tok ⟨id, .write⟩).ioSize + n < (h.tok ⟨id, .write⟩).bufSize
      · rw [onWrite_part hm hpos hs, tok_modify_self, tok_continueWrite, if_pos rfl, if_pos hs,
          ← hm]
        rfl
      · rw [onWrite_whole hm hpos hs, tok_finish, if_pos rfl, tok_modify_self, tok_continueWrite,
          if_pos rfl, if_neg hs]
        rfl
  | fail errno =>
    by_cases he : errno = EAGAIN
    · subst he
      rw [onWrite_again hm, tok_continueWrite, if_pos rfl, WriteResult.io, Token.goOn, if_pos rfl,
        ← hm]
      rfl
    · rw [onWrite_fail hm he, tok_finish, if_pos rfl, tok_continueWrite, if_pos rfl,
        WriteResult.io, Token.goOn, if_neg he]
      rfl

/-- The entry and the store of the `::read` that goes on with a `readAll`. -/
theorem onRead_all_io (hm : (h.tok ⟨id, .read⟩).mode = .all) :
    (h.onRead id r).log = .sysRead id ((h.tok ⟨id, .read⟩).buf.add (h.tok ⟨id, .read⟩).ioSize)
      ((h.tok ⟨id, .read⟩).bufSize - (h.tok ⟨id, .read⟩).ioSize) r :: h.log ∧
    (h.onRead id r).mem =
      h.mem.store ((h.tok ⟨id, .read⟩).buf.add (h.tok ⟨id, .read⟩).ioSize) r.bytes := by
  have hio : (h.continueRead id r).log =
        .sysRead id ((h.tok ⟨id, .read⟩).buf.add (h.tok ⟨id, .read⟩).ioSize)
          ((h.tok ⟨id, .read⟩).bufSize - (h.tok ⟨id, .read⟩).ioSize) r :: h.log ∧
      (h.continueRead id r).mem =
        h.mem.store ((h.tok ⟨id, .read⟩).buf.add (h.tok ⟨id, .read⟩).ioSize) r.bytes :=
    ⟨log_read, mem_read⟩
  cases r with
  | got bytes =>
    by_cases hb : bytes = []
    · subst hb
      rw [onRead_all_eof hm]
      exact hio
    · by_cases hs : (h.tok ⟨id, .read⟩).ioSize + bytes.length < (h.tok ⟨id, .read⟩).bufSize
      · rw [onRead_all_part hm hb hs]
        exact hio
      · rw [onRead_all_whole hm hb hs]
        exact hio
  | fail errno =>
    by_cases he : errno = EAGAIN
    · subst he
      rw [onRead_all_again hm]
      exact hio
    · rw [onRead_all_fail hm he]
      exact hio

/-- The entry of the `::write` that goes on with a `writeAll`. -/
theorem onWrite_all_io (hm : (h.tok ⟨id, .write⟩).mode = .all) : (h.onWrite id w).log =
    .sysWrite id ((h.tok ⟨id, .write⟩).buf.add (h.tok ⟨id, .write⟩).ioSize)
      ((h.tok ⟨id, .write⟩).bufSize - (h.tok ⟨id, .write⟩).ioSize) w
      (h.mem.load ((h.tok ⟨id, .write⟩).buf.add (h.tok ⟨id, .write⟩).ioSize) w.count) :: h.log := by
  cases w with
  | accepted n =>
    rcases Nat.eq_zero_or_pos n with rfl | hpos
    · rw [onWrite_zero hm]
      exact log_write
    · by_cases hs : (h.tok ⟨id, .write⟩).ioSize + n < (h.tok ⟨id, .write⟩).bufSize
      · rw [onWrite_part hm hpos hs]
        exact log_write
      · rw [onWrite_whole hm hpos hs]
        exact log_write
  | fail errno =>
    by_cases he : errno = EAGAIN
    · subst he
      rw [onWrite_again hm]
      exact log_write
    · rw [onWrite_fail hm he]
      exact log_write

/-- The first `::read` of a `readAll` treats the fresh token as a later one does, but for the
deadline of a token that has to wait. -/
theorem tok_readAll (buf : Ptr) (size : Int) (cb : κ) (ms : Int) (r : ReadResult) (now : Timeval)
    (hm : (h.tok ⟨id, .read⟩).mode = .none) :
    ∃ tv, (h.readAll id buf size cb ms r now).1.tok ⟨id, .read⟩ =
      { ((h.tok ⟨id, .read⟩).init buf size ⟨h.nextCall, cb⟩).goOn .read r.io with tv := tv } := by
  cases r with
  | got bytes =>
    by_cases hb : bytes = []
    · subst hb
      rw [readAll_whole hm (.inl rfl), tok_finish, if_pos rfl, tok_startRead, if_pos rfl]
      exact ⟨_, rfl⟩
    · rw [ReadResult.io, Token.goOn, if_neg (List.length_pos_iff.mpr hb).ne']
      have hzero :
          ((h.tok ⟨id, .read⟩).init buf size ⟨h.nextCall, cb⟩).ioSize + (bytes.length : Int) =
          bytes.length := Int.zero_add _
      have hsz : ((h.tok ⟨id, .read⟩).init buf size ⟨h.nextCall, cb⟩).bufSize = size := rfl
      rw [hzero, hsz]
      by_cases hs : (bytes.length : Int) < size
      · rw [readAll_part hm hb hs, tok_park, if_pos rfl, tok_startRead, if_pos rfl, if_pos hs]
        exact ⟨_, rfl⟩
      · rw [readAll_whole hm (.inr (not_lt.mp hs)), tok_finish, if_pos rfl, tok_startRead,
          if_pos rfl, if_neg hs]
        exact ⟨_, rfl⟩
  | fail errno =>
    by_cases he : errno = EAGAIN
    · subst he
      rw [readAll_again hm, tok_park, if_pos rfl, tok_startRead, if_pos rfl, ReadResult.io,
        Token.goOn, if_pos rfl]
      exact ⟨_, rfl⟩
    · rw [readAll_fail hm he, tok_finish, if_pos rfl, tok_startRead, if_pos rfl, ReadResult.io,
        Token.goOn, if_neg he]
      exact ⟨_, rfl⟩

theorem tok_writeAll (buf : Ptr) (size : Int) (cb : κ) (ms : Int) (w : WriteResult)
    (now : Timeval) (hm : (h.tok ⟨id, .write⟩).mode = .none) :
    ∃ tv, (h.writeAll id buf size cb ms w now).1.tok ⟨id, .write⟩ =
      { ((h.tok ⟨id, .write⟩).init buf size ⟨h.nextCall, cb⟩).goOn .write w.io with tv := tv } := by
  cases w with
  | accepted n =>
    rcases Nat.eq_zero_or_pos n with rfl | hpos
    · rw [writeAll_zero hm, tok_finish, if_pos rfl, tok_startWrite, if_pos rfl]
      exact ⟨_, rfl⟩
    · rw [WriteResult.io, Token.goOn, if_neg hpos.ne']
      have hzero : ((h.tok ⟨id, .write⟩).init buf size ⟨h.nextCall, cb⟩).ioSize + (n : Int) = n :=
        Int.zero_add _
      have hsz : ((h.tok ⟨id, .write⟩).init buf size ⟨h.nextCall, cb⟩).bufSize = size := rfl
      rw [hzero, hsz]
      by_cases hs : (n : Int) < size
      · rw [writeAll_part hm hpos hs, tok_park, if_pos rfl, tok_startWrite, if_pos rfl, if_pos hs]
        exact ⟨_, rfl⟩
      · rw [writeAll_whole hm hpos (not_lt.mp hs), tok_finish, if_pos rfl, tok_startWrite,
          if_pos rfl, if_neg hs]
        exact ⟨_, rfl⟩
  | fail errno =>
    by_cases he : errno = EAGAIN
    · subst he
      rw [writeAll_again hm, tok_park, if_pos rfl, tok_startWrite, if_pos rfl, WriteResult.io,
        Token.goOn, if_pos rfl]
      exact ⟨_, rfl⟩
    · rw [writeAll_fail hm he, tok_finish, if_pos rfl, tok_startWrite, if_pos rfl, WriteResult.io,
        Token.goOn, if_neg he]
      exact ⟨_, rfl⟩

theorem mem_readAll (hm : (h.tok ⟨id, .read⟩).mode = .none) :
    (h.readAll id buf size cb ms r now).1.mem = h.mem.store buf r.bytes := by
  cases r with
  | got bytes =>
    by_cases hs : bytes = [] ∨ size ≤ bytes.length
    · rw [readAll_whole hm hs]
      simp [startRead]
    · push Not at hs
      rw [readAll_part hm hs.1 hs.2]
      simp [startRead]
  | fail errno =>
    by_cases he : errno = EAGAIN
    · subst he
      rw [readAll_again hm]
      simp [startRead]
    · rw [readAll_fail hm he]
      simp [startRead]

end Heap

/-! ### The stages of an operation -/

/-- The token of an operation that is not over, whatever its mode. -/
structure AllOpen (i : Nat) (buf : Ptr) (size : Int) (k : Token κ) (n : Nat)
    (rs : List IoResult) : Prop where
  buf : k.buf = buf
  bufSize : k.bufSize = size
  ioSize : k.ioSize = n
  room : (n : Int) < size
  cb : ∃ fn, k.cb = some ⟨i, fn⟩
  waits : ∀ r ∈ rs, r.waits

/-- Where an operation stands, by its token, what was moved and the calls of its callback. -/
inductive AllStage (i : Nat) (buf : Ptr) (size : Int) (k : Token κ) (n : Nat)
    (rs : List IoResult) (cs : List (Via × Int × Int)) : Prop
  | waiting : k.mode = .all → AllOpen i buf size k n rs → cs = [] →
      AllStage i buf size k n rs cs
  | due {fn : κ} : k.mode.finished → k.cb = some ⟨i, fn⟩ →
      AllEnds size n rs (.completion, k.err.code, k.ioSize) → cs = [] →
      AllStage i buf size k n rs cs
  | ended : k.mode = .none → (∀ c ∈ cs, AllEnds size n rs c) → AllStage i buf size k n rs cs

section Stages

variable {i n : Nat} {buf : Ptr} {size : Int} {k k' : Token κ} {r : IoResult}
  {rs : List IoResult} {cs : List (Via × Int × Int)} {d : Dir}

/-- A kernel call that moved no more than there is room for leads on. -/
theorem AllOpen.goOn (ho : AllOpen i buf size k n rs) (hlen : (r.count : Int) ≤ size - n)
    (tv : Timeval) :
    AllStage i buf size { k.goOn d r with tv := tv } (n + r.count) (r :: rs) [] := by
  obtain ⟨fn, hcb⟩ := ho.cb
  have hwaits : r.waits → ∀ r' ∈ r :: rs, r'.waits := fun hr =>
    List.forall_mem_cons.mpr ⟨hr, ho.waits⟩
  cases r with
  | moved m =>
    rcases Nat.eq_zero_or_pos m with rfl | hpos
    · rw [Token.goOn, if_pos rfl]
      refine .due ?_ hcb (.nothing rfl ho.waits ho.room) rfl
      cases d
      · exact .inl rfl
      · exact .inr rfl
    · rw [Token.goOn, if_neg hpos.ne', ho.ioSize, ho.bufSize]
      have hlen : (m : Int) ≤ size - n := hlen
      by_cases hs : (n : Int) + m < size
      · refine .waiting (if_pos hs) ?_ rfl
        exact ⟨ho.buf, rfl, rfl, hs, ⟨fn, hcb⟩, hwaits hpos⟩
      · have hall : (n : Int) + m = size := by omega
        refine .due (.inl (if_neg hs)) hcb ?_ rfl
        change AllEnds size _ _ (.completion, 0, (n : Int) + m)
        rw [hall]
        exact .whole (hwaits hpos) hall
  | fail errno =>
    by_cases he : errno = EAGAIN
    · rw [Token.goOn, if_pos he]
      refine .waiting rfl ?_ rfl
      exact ⟨ho.buf, ho.bufSize, ho.ioSize, ho.room, ⟨fn, hcb⟩, hwaits he⟩
    · rw [Token.goOn, if_neg he]
      exact .due (.inr rfl) hcb (.failed rfl he ho.waits) rfl

/-- A stage with a token that no longer holds the operation. -/
theorem AllStage.remade (hst : AllStage i buf size k n rs cs) (hm : k'.mode = .none) :
    AllStage i buf size k' n rs cs := by
  refine .ended hm fun c hc => ?_
  cases hst with
  | waiting _ _ h | due _ _ _ h =>
    rw [h] at hc
    cases hc
  | ended _ h => exact h c hc

end Stages

/-! ### An operation left alone -/

/-- The next step dispatches a hang-up to Socket `id`. -/
def State.hangupDue (s : State κ) (id : SockId) : Action κ → Prop
  | .dispatch _ _ =>
    match s.pc with
    | .event (ev :: _) => ev.events.hangup = true ∧ ev.handler = .socket id
    | _ => False
  | _ => False

instance (s : State κ) (id : SockId) (act : Action κ) : Decidable (s.hangupDue id act) := by
  apply @Action.casesOn κ _ act <;> (intros; dsimp only [State.hangupDue]; try infer_instance)
  generalize s.pc = p
  apply @Pc.casesOn _ p <;> (intros; try (dsimp only; infer_instance))
  rename_i evs
  apply @List.casesOn _ _ evs <;> (intros; dsimp only; infer_instance)

theorem State.hangupDue_of_hangsUp {s : State κ} {id : SockId} {r : ReadResult} {w : WriteResult}
    (hh : s.hangsUp id) : s.hangupDue id (.dispatch r w) := by
  obtain ⟨ev, rest, hpc, hup, hev, -⟩ := hh
  unfold State.hangupDue
  rw [hpc]
  exact ⟨hup, hev⟩

/-- The next step makes no other call on the token and dispatches no hang-up to its Socket. -/
def State.leavesAlone (t : TokenId) (s : State κ) (act : Action κ) : Prop :=
  (∀ q ∈ act.request, q.token ≠ t) ∧ ¬ s.hangupDue t.sock act

instance (t : TokenId) (s : State κ) (act : Action κ) : Decidable (s.leavesAlone t act) :=
  inferInstanceAs (Decidable (_ ∧ _))

/-- The invariant of an operation that is left alone. -/
structure WholeBuffer (t : TokenId) (i : Nat) (buf : Ptr) (size : Int) (k : Token κ)
    (past : List Event) : Prop where
  inPlace : Each (goesOn t buf size) past
  fits : ((carried t past).length : Int) ≤ size
  stage : AllStage i buf size k (carried t past).length (results t past) (calls t i past)

theorem WholeBuffer.ends {t : TokenId} {i : Nat} {buf : Ptr} {size : Int} {k : Token κ}
    {past : List Event} {c : Via × Int × Int} (hi : WholeBuffer t i buf size k past)
    (hc : c ∈ calls t i past) : AllEnds size (carried t past).length (results t past) c := by
  cases hi.stage with
  | waiting _ _ h | due _ _ _ h =>
    rw [h] at hc
    cases hc
  | ended _ h => exact h c hc

section Run

variable {s s' : State κ} {act : Action κ} {i : Nat} {buf : Ptr} {size : Int}
  {past log log' : List Event} {t : TokenId} {e : Event} {k k' : Token κ}

theorem Event.ioOf_eq_some {r : IoResult} (he : e.ioOf t = some r) : e.isIo t := by
  cases e with
  | sysRead | sysWrite =>
    simp only [Event.ioOf] at he
    split at he
    · assumption
    · cases he
  | _ => cases he

theorem Event.ioOf_eq_none (he : ¬ e.isIo t) : e.ioOf t = none := by
  cases e with
  | sysRead | sysWrite => exact if_neg he
  | _ => rfl

theorem Event.carries_eq_nil (he : ¬ e.isIo t) : e.carries t = [] := by
  cases e with
  | sysRead | sysWrite => exact if_neg he
  | _ => rfl

theorem goesOn_of_not_isIo (he : ¬ e.isIo t) : goesOn t buf size past e := by
  cases e with
  | sysRead | sysWrite => exact fun h => (he h).elim
  | _ => trivial

theorem not_isIo_of_token (he : e.token ≠ some t) : ¬ e.isIo t := fun h => he h.token_eq

theorem Event.isIo.ne_started (he : e.isIo t) (u : TokenId) (i : Nat) : e ≠ .started u i := by
  rintro rfl
  exact he

theorem carried_adds (ha : Adds (fun e => ¬ e.isIo t) log log') : carried t log' = carried t log :=
  ha.rule (R := fun l => carried t l = carried t log) rfl fun e l he hl => by
    rw [carried, Event.carries_eq_nil he, List.append_nil, hl]

theorem results_adds (ha : Adds (fun e => ¬ e.isIo t) log log') : results t log' = results t log :=
  ha.filterMap_eq fun _ he => Event.ioOf_eq_none he

theorem callOf_of_token (he : e.token ≠ some t) : e.callOf t i = none := by
  cases e with
  | called u j code n via => exact if_neg fun hu => he (by rw [hu.1]; rfl)
  | _ => rfl

theorem calls_of_elsewhere (ha : Elsewhere t log log') : calls t i log' = calls t i log :=
  ha.filterMap_eq fun _ he => callOf_of_token he

theorem calls_cons_called {code n : Int} {via : Via} :
    calls t i (.called t i code n via :: log) = (via, code, n) :: calls t i log :=
  List.filterMap_cons_some (if_pos ⟨rfl, rfl⟩)

theorem ne_started_of_token (he : e.token ≠ some t) : e ≠ .started t i := by
  rintro rfl
  exact he rfl

theorem elsewhere_sinceCall (i : Nat) (ha : Elsewhere t log log') :
    Elsewhere t (sinceCall t i log) (sinceCall t i log') :=
  Adds.since ha fun _ he => ne_started_of_token he

/-- Entries that are no kernel calls of the token keep what these say. -/
theorem WholeBuffer.grow (hi : WholeBuffer t i buf size k past)
    (ha : Adds (fun e => ¬ e.isIo t) past log)
    (hst : AllStage i buf size k' (carried t past).length (results t past) (calls t i log)) :
    WholeBuffer t i buf size k' log where
  inPlace := hi.inPlace.adds ha fun _ _ he => goesOn_of_not_isIo he
  fits := by
    rw [carried_adds ha]
    exact hi.fits
  stage := by
    rw [carried_adds ha, results_adds ha]
    exact hst

/-- A kernel call of the operation. -/
theorem WholeBuffer.goOn {r : IoResult} {d : Dir} (tv : Timeval)
    (hi : WholeBuffer t i buf size k past)
    (ho : AllOpen i buf size k' (carried t past).length (results t past))
    (hcs : calls t i past = []) (he : e.ioOf t = some r)
    (hbytes : (e.carries t).length = r.count)
    (hplace : goesOn t buf size past e) (hlen : (r.count : Int) ≤ size - (carried t past).length) :
    WholeBuffer t i buf size { k'.goOn d r with tv := tv } (e :: past) := by
  have hcount : (carried t (e :: past)).length = (carried t past).length + r.count := by
    rw [carried, List.length_append, hbytes]
  refine ⟨⟨hplace, hi.inPlace⟩, ?_, ?_⟩
  · rw [hcount]
    omega
  · have hres : results t (e :: past) = r :: results t past := List.filterMap_cons_some he
    have hcalls : calls t i (e :: past) = [] := by
      rw [← hcs]
      refine List.filterMap_cons_none ?_
      cases e with
      | sysRead | sysWrite => rfl
      | _ => cases he
    rw [hcount, hres, hcalls]
    exact ho.goOn hlen tv

/-- The invariant in a state that has made the call. -/
abbrev State.wholeBuffer (s : State κ) (t : TokenId) (i : Nat) (buf : Ptr) (size : Int) : Prop :=
  WholeBuffer t i buf size (s.heap.tok t) (sinceCall t i s.heap.log)

theorem WholeBuffer.elsewhere (hi : s.wholeBuffer t i buf size)
    (ha : Elsewhere t s.heap.log s'.heap.log)
    (hm : s'.heap.tok t = s.heap.tok t ∨ (s'.heap.tok t).mode = .none) :
    s'.wholeBuffer t i buf size := by
  have hsince := elsewhere_sinceCall i ha
  refine hi.grow (hsince.mono fun e he => not_isIo_of_token he) ?_
  rw [calls_of_elsewhere hsince]
  rcases hm with hm | hm
  · rw [hm]
    exact hi.stage
  · exact hi.stage.remade hm

/-- The call of the callback is the end of the operation. -/
theorem WholeBuffer.called {code n : Int} {via : Via} (hi : s.wholeBuffer t i buf size)
    (hlog : s'.heap.log = .called t i code n via :: s.heap.log)
    (hm : (s'.heap.tok t).mode = .none) (hcs : calls t i (sinceCall t i s.heap.log) = [])
    (he : AllEnds size (carried t (sinceCall t i s.heap.log)).length
      (results t (sinceCall t i s.heap.log)) (via, code, n)) :
    s'.wholeBuffer t i buf size := by
  have hsince : sinceCall t i s'.heap.log = .called t i code n via :: sinceCall t i s.heap.log := by
    rw [hlog]
    exact History.since_cons (by simp)
  unfold State.wholeBuffer
  rw [hsince]
  refine hi.grow ⟨[_], rfl, by simp [Event.isIo]⟩ (.ended hm fun c hc => ?_)
  rw [calls_cons_called, hcs] at hc
  rw [List.mem_singleton.mp hc]
  exact he

/-- An event goes on with the operation, by a kernel call `e`. -/
theorem WholeBuffer.turn {ev : Handler} {m : Method} {r : IoResult} {d : Dir}
    (hi : s.wholeBuffer t i buf size)
    (ho : AllOpen i buf size (s.heap.tok t) (carried t (sinceCall t i s.heap.log)).length
      (results t (sinceCall t i s.heap.log)))
    (hcs : calls t i (sinceCall t i s.heap.log) = [])
    (htok : s'.heap.tok t = (s.heap.tok t).goOn d r)
    (hlog : s'.heap.log = e :: .dispatched ev m :: s.heap.log) (he : e.ioOf t = some r)
    (hbytes : (e.carries t).length = r.count)
    (hplace : goesOn t buf size (sinceCall t i s.heap.log) e)
    (hlen : (r.count : Int) ≤ size - (carried t (sinceCall t i s.heap.log)).length) :
    s'.wholeBuffer t i buf size := by
  have hsince : sinceCall t i s'.heap.log = e :: .dispatched ev m :: sinceCall t i s.heap.log := by
    rw [hlog, sinceCall, History.since_cons ((Event.ioOf_eq_some he).ne_started t i),
      History.since_cons (by simp)]
  have hadds : Adds (fun e => ¬ e.isIo t) (sinceCall t i s.heap.log)
      (.dispatched ev m :: sinceCall t i s.heap.log) := ⟨[_], rfl, by simp [Event.isIo]⟩
  have hcalls : calls t i (.dispatched ev m :: sinceCall t i s.heap.log) =
      calls t i (sinceCall t i s.heap.log) := List.filterMap_cons_none rfl
  have hnote : WholeBuffer t i buf size (s.heap.tok t) _ := hi.grow hadds (hcalls ▸ hi.stage)
  have hcarried := carried_adds hadds
  unfold State.wholeBuffer
  rw [hsince, htok]
  refine hnote.goOn ((s.heap.tok t).goOn d r).tv ?_ (hcalls.trans hcs) he hbytes ?_ ?_
  · rw [hcarried, results_adds hadds]
    exact ho
  · cases e with
    | sysRead | sysWrite =>
      intro ht
      rw [hcarried]
      exact hplace ht
    | _ => cases he
  · rw [hcarried]
    exact hlen

/-- What one step does to an operation that it leaves alone. -/
theorem WholeBuffer.step (hb : Consistent s) (hd : s.heap.Delivers)
    (hi : s.wholeBuffer t i buf size) (hg : s.leavesAlone t act) (hs : s.step act = some s')
    (hk : ∀ e ∈ sinceCall t i s'.heap.log, e.bounded t) : s'.wholeBuffer t i buf size := by
  obtain ⟨hreq, hup⟩ := hg
  have hnote : ∀ {ev : Handler} {m : Method}, s'.heap = s.heap.emit (.dispatched ev m) →
      s'.wholeBuffer t i buf size := by
    intro ev m he
    refine hi.elsewhere ?_ (.inl ?_)
    · rw [he]
      exact Adds.refl.cons (by simp [Event.token])
    · rw [he]
      rfl
  have hhead : ∀ {e : Event} {ev : Handler} {m : Method} {r : IoResult},
      s'.heap.log = e :: .dispatched ev m :: s.heap.log → e.ioOf t = some r → e.bounded t := by
    intro e ev m r hlog he
    refine hk e ?_
    rw [hlog, sinceCall, History.since_cons ((Event.ioOf_eq_some he).ne_started t i)]
    exact List.mem_cons_self
  cases step_token hb hd hs t with
  | aside htok hlog => exact hi.elsewhere hlog (.inl htok)
  | remade htok hlog =>
    refine hi.elsewhere hlog (.inr ?_)
    rw [htok]
    rfl
  | opened hq ht _ _ => exact (hreq _ hq ht).elim
  | @read ev r hdir _ he =>
    obtain ⟨id, d⟩ := t
    cases hdir
    by_cases hpend : (s.heap.tok ⟨id, .read⟩).mode.pending
    · cases hi.stage with
      | waiting hm ho hcs =>
        have hm' : ((s.heap.emit (.dispatched ev .onRead)).tok ⟨id, .read⟩).mode = .all := hm
        obtain ⟨hlog, -⟩ := Heap.onRead_all_io (r := r) hm'
        rw [Heap.tok_emit, ho.buf, ho.ioSize, ho.bufSize] at hlog
        rw [← he] at hlog
        have htok := Heap.tok_onRead_all (r := r) hm'
        rw [← he] at htok
        have hlen := hhead (r := r.io) hlog (if_pos rfl) rfl
        exact hi.turn ho hcs htok hlog (if_pos rfl) (by simp [Event.carries])
          (fun _ => ⟨ho.room, rfl, rfl⟩) (by rw [ReadResult.count_io]; have := ho.room; omega)
      | due hfin _ _ _ => exact (Mode.not_finished_of_pending hpend hfin).elim
      | ended hm _ => exact (Mode.ne_none_of_pending hpend hm).elim
    · exact hnote (he.trans (Heap.onRead_idle hpend))
  | @wrote ev w hdir _ he =>
    obtain ⟨id, d⟩ := t
    cases hdir
    by_cases hall : (s.heap.tok ⟨id, .write⟩).mode = .all
    · cases hi.stage with
      | waiting hm ho hcs =>
        have hm' : ((s.heap.emit (.dispatched ev .onWrite)).tok ⟨id, .write⟩).mode = .all := hm
        have hlog := Heap.onWrite_all_io (w := w) hm'
        rw [Heap.tok_emit, ho.buf, ho.ioSize, ho.bufSize] at hlog
        rw [← he] at hlog
        have htok := Heap.tok_onWrite_all (w := w) hm'
        rw [← he] at htok
        have hlen := hhead (r := w.io) hlog (if_pos rfl) rfl
        exact hi.turn ho hcs htok hlog (if_pos rfl) (by simp [Event.carries])
          (fun _ => ⟨ho.room, rfl, rfl⟩) (by rw [WriteResult.count_io]; have := ho.room; omega)
      | due hfin _ _ _ => exact (Mode.not_finished_of_pending (.inr hall) hfin).elim
      | ended hm _ => exact (Mode.ne_none_of_pending (.inr hall) hm).elim
    · exact hnote (he.trans (Heap.onWrite_idle hall))
  | completed hfin hcb htok hlog =>
    cases hi.stage with
    | waiting hm _ _ =>
      rw [hm] at hfin
      rcases hfin with h | h <;> cases h
    | due _ hcb' hends hcs =>
      cases hcb.symm.trans hcb'
      refine hi.called hlog ?_ hcs hends
      rw [htok]
    | ended hm _ => exact (Mode.ne_none_of_finished hfin hm).elim
  | fired hpend hcb htok hlog =>
    cases hi.stage with
    | waiting _ ho hcs =>
      obtain ⟨fn, hcb'⟩ := ho.cb
      cases hcb.symm.trans hcb'
      refine hi.called hlog ?_ hcs (.timeout ho.waits)
      rw [htok]
    | due hfin _ _ _ => exact (Mode.not_finished_of_pending hpend hfin).elim
    | ended hm _ => exact (Mode.ne_none_of_pending hpend hm).elim
  | hungup ha hh =>
    subst ha
    exact (hup (State.hangupDue_of_hangsUp hh)).elim

/-- The kernel calls and stores of a step that leaves the operation alone. -/
inductive AloneStep (s s' : State κ) (t : TokenId) (i : Nat) (buf : Ptr) (size : Int) (n : Nat) :
    Prop
  | quiet {evs : List Event} : s'.heap.log = evs ++ s.heap.log →
      (∀ e ∈ evs, ¬ e.isIo t ∧ e ≠ .started t i) → AloneStep s s' t i buf size n
  | read {ev : Handler} {r : ReadResult} : t.dir = .read →
      s'.heap.log =
        .sysRead t.sock (buf.add n) (size - n) r :: .dispatched ev .onRead :: s.heap.log →
      s'.heap.mem = s.heap.mem.store (buf.add n) r.bytes → AloneStep s s' t i buf size n
  | wrote {ev : Handler} {w : WriteResult} : t.dir = .write →
      s'.heap.log = .sysWrite t.sock (buf.add n) (size - n) w
        (s.heap.mem.load (buf.add n) w.count) :: .dispatched ev .onWrite :: s.heap.log →
      AloneStep s s' t i buf size n

theorem WholeBuffer.alone (hb : Consistent s) (hd : s.heap.Delivers)
    (hi : s.wholeBuffer t i buf size) (hg : s.leavesAlone t act) (hs : s.step act = some s') :
    AloneStep s s' t i buf size (carried t (sinceCall t i s.heap.log)).length := by
  obtain ⟨hreq, hup⟩ := hg
  have hopen : (s.heap.tok t).mode = .all → AllOpen i buf size (s.heap.tok t)
      (carried t (sinceCall t i s.heap.log)).length (results t (sinceCall t i s.heap.log)) := by
    intro hm
    cases hi.stage with
    | waiting _ ho _ => exact ho
    | due hf _ _ _ => exact (Mode.not_finished_of_pending (.inr hm) hf).elim
    | ended h _ =>
      rw [hm] at h
      cases h
  have hnote : ∀ {ev : Handler} {m : Method}, s'.heap = s.heap.emit (.dispatched ev m) →
      AloneStep s s' t i buf size (carried t (sinceCall t i s.heap.log)).length := by
    intro ev m he
    have hlog : s'.heap.log = [.dispatched ev m] ++ s.heap.log := by
      rw [he]
      rfl
    exact .quiet hlog (by simp [Event.isIo])
  have hquiet : Elsewhere t s.heap.log s'.heap.log →
      AloneStep s s' t i buf size (carried t (sinceCall t i s.heap.log)).length := by
    rintro ⟨evs, hlog, he⟩
    exact .quiet hlog fun e hm => ⟨not_isIo_of_token (he e hm), ne_started_of_token (he e hm)⟩
  cases step_token hb hd hs t with
  | aside _ hlog | remade _ hlog => exact hquiet hlog
  | opened hq ht _ _ => exact (hreq _ hq ht).elim
  | @read ev r hdir _ he =>
    obtain ⟨id, d⟩ := t
    cases hdir
    by_cases hpend : (s.heap.tok ⟨id, .read⟩).mode.pending
    · have hm : (s.heap.tok ⟨id, .read⟩).mode = .all := by
        cases hi.stage with
        | waiting hm _ _ => exact hm
        | due hf _ _ _ => exact (Mode.not_finished_of_pending hpend hf).elim
        | ended h _ => exact (Mode.ne_none_of_pending hpend h).elim
      have ho := hopen hm
      have hm' : ((s.heap.emit (.dispatched ev .onRead)).tok ⟨id, .read⟩).mode = .all := hm
      obtain ⟨hlog, hmem⟩ := Heap.onRead_all_io (r := r) hm'
      rw [Heap.tok_emit, ho.buf, ho.ioSize, ho.bufSize, ← he] at hlog
      rw [Heap.tok_emit, ho.buf, ho.ioSize, ← he] at hmem
      exact .read rfl hlog hmem
    · exact hnote (he.trans (Heap.onRead_idle hpend))
  | @wrote ev w hdir _ he =>
    obtain ⟨id, d⟩ := t
    cases hdir
    by_cases hall : (s.heap.tok ⟨id, .write⟩).mode = .all
    · have ho := hopen hall
      have hm' : ((s.heap.emit (.dispatched ev .onWrite)).tok ⟨id, .write⟩).mode = .all := hall
      have hlog := Heap.onWrite_all_io (w := w) hm'
      rw [Heap.tok_emit, ho.buf, ho.ioSize, ho.bufSize, ← he] at hlog
      exact .wrote rfl hlog
    · exact hnote (he.trans (Heap.onWrite_idle hall))
  | completed _ _ _ hlog | fired _ _ _ hlog =>
    exact .quiet (hlog.trans List.singleton_append.symm) (by simp [Event.isIo])
  | hungup ha hh =>
    subst ha
    exact (hup (State.hangupDue_of_hangsUp hh)).elim

theorem sinceCall_append {evs : List Event} (he : ∀ e ∈ evs, e ≠ .started t i) :
    sinceCall t i (evs ++ log) = evs ++ sinceCall t i log :=
  History.since_append he

/-- The call makes its first kernel call, as a later one is made. -/
theorem wholeBuffer_of_call {q : Request κ} {r : IoResult} {h' : Heap κ} {ok : Bool} {tv : Timeval}
    {d : Dir} (ho : s.heap.Opens q (h', ok)) (hfree : (s.heap.tok q.token).mode = .none)
    (hsize : 0 < size)
    (htok : h'.tok q.token =
      { ((s.heap.tok q.token).init buf size ⟨s.heap.nextCall, q.fn⟩).goOn d r with tv := tv })
    (he : (q.call s.heap.mem).ioOf q.token = some r)
    (hbytes : ((q.call s.heap.mem).carries q.token).length = r.count)
    (hplace : goesOn q.token buf size [] (q.call s.heap.mem)) (hlen : (r.count : Int) ≤ size) :
    WholeBuffer q.token s.heap.nextCall buf size (h'.tok q.token)
        (sinceCall q.token s.heap.nextCall h'.log) ∧
      ∃ evs, (∀ e ∈ evs, ∃ tv, e = .armed q.token tv) ∧
        sinceCall q.token s.heap.nextCall h'.log = evs ++ [q.call s.heap.mem] := by
  obtain ⟨evs, harmed, hlog⟩ := ho.log_eq hfree
  have hsince : sinceCall q.token s.heap.nextCall h'.log = evs ++ [q.call s.heap.mem] := by
    rw [hlog, sinceCall, History.since_append,
      History.since_cons ((Event.ioOf_eq_some he).ne_started _ _), History.since_cons_self]
    intro e hmem
    obtain ⟨tv, rfl⟩ := harmed e hmem
    simp
  refine ⟨?_, evs, harmed, hsince⟩
  have hopen : AllOpen s.heap.nextCall buf size
      ((s.heap.tok q.token).init buf size ⟨s.heap.nextCall, q.fn⟩) (carried q.token []).length
      (results q.token []) :=
    ⟨rfl, rfl, rfl, hsize, ⟨q.fn, rfl⟩, fun r hr => (List.not_mem_nil hr).elim⟩
  have hnil : WholeBuffer q.token s.heap.nextCall buf size (s.heap.tok q.token) [] :=
    ⟨trivial, hsize.le, .ended hfree fun c hc => (List.not_mem_nil hc).elim⟩
  have hone := hnil.goOn (d := d) tv hopen rfl he hbytes hplace
    (hlen.trans_eq (Int.sub_zero size).symm)
  rw [hsince, htok]
  have harm : Adds (fun e => ¬ e.isIo q.token ∧ e.callOf q.token s.heap.nextCall = none)
      [q.call s.heap.mem] (evs ++ [q.call s.heap.mem]) := by
    refine ⟨evs, rfl, fun e hmem => ?_⟩
    obtain ⟨tv, rfl⟩ := harmed e hmem
    exact ⟨id, rfl⟩
  refine hone.grow (harm.mono fun _ h => h.1) ?_
  rw [calls, harm.filterMap_eq fun _ h => h.2]
  exact hone.stage

end Run

end EchoBenchmark.Proactor
