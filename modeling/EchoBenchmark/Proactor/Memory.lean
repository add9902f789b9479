import EchoBenchmark.Proactor.Steps

/-! The memory of the buffers: what is loaded after a store, and what a step leaves as it was. -/

namespace EchoBenchmark.Proactor

variable {κ : Type}

/-- The `n` places from `p` on and the `k` places from `q` on have one in common. -/
def Ptr.meets (p : Ptr) (n : Nat) (q : Ptr) (k : Nat) : Prop :=
  ∃ i < n, ∃ j < k, p.add i = q.add j

instance (p : Ptr) (n : Nat) (q : Ptr) (k : Nat) : Decidable (p.meets n q k) :=
  inferInstanceAs (Decidable (∃ i < n, _))

namespace Mem

variable {m m' : Mem} {p q : Ptr} {n k : Nat} {bytes : List UInt8}

@[simp] theorem length_load : (m.load p n).length = n := by simp [load]

theorem load_congr (h : ∀ i : Nat, i < n → m' p.base (p.off + i) = m p.base (p.off + i)) :
    m'.load p n = m.load p n := by
  refine List.map_congr_left fun i hi => ?_
  exact h i (List.mem_range.mp hi)

theorem load_add : m.load p (n + k) = m.load p n ++ m.load (p.add n) k := by
  unfold load
  rw [List.range_add, List.map_append, List.map_map]
  refine congrArg _ (List.map_congr_left fun i _ => ?_)
  have hoff : p.off + ((n + i : Nat) : Int) = p.off + n + i := by omega
  simp only [Function.comp_apply, Ptr.add, hoff]

theorem take_load (h : k ≤ n) : (m.load p n).take k = m.load p k := by
  obtain ⟨j, rfl⟩ := Nat.exists_eq_add_of_le h
  rw [load_add, List.take_left' length_load]

theorem load_store : (m.store p bytes).load p bytes.length = bytes := by
  refine List.ext_getElem (by simp) fun i h₁ h₂ => ?_
  have hat : (p.off + (i : Int) - p.off).toNat = i := by omega
  have hstored : m.store p bytes p.base (p.off + i) = bytes[i] := by
    unfold store
    rw [if_pos ⟨rfl, by omega, by omega⟩, hat]
    exact (List.getElem_eq_getD 0).symm
  simpa only [load, List.getElem_map, List.getElem_range] using hstored

theorem load_store_of_not_meets (h : ¬ q.meets bytes.length p n) :
    (m.store q bytes).load p n = m.load p n := by
  refine load_congr fun i hi => if_neg ?_
  rintro ⟨hb, hlo, hhi⟩
  refine h ⟨(p.off + i - q.off).toNat, by omega, i, hi, ?_⟩
  have hoff : q.off + ((p.off + i - q.off).toNat : Int) = p.off + i := by omega
  simp only [Ptr.add, hoff, hb]

/-- The bytes stored right behind a range lengthen what is loaded from its start. -/
theorem load_store_add : (m.store (p.add n) bytes).load p (n + bytes.length) =
    m.load p n ++ bytes := by
  rw [load_add, load_store, load_store_of_not_meets]
  rintro ⟨i, hi, j, hj, he⟩
  have hoff := congrArg Ptr.off he
  simp only [Ptr.add] at hoff
  omega

end Mem

/-- The entry stores into the `n` places from `p` on. -/
def Event.storesIn (p : Ptr) (n : Nat) : Event → Prop
  | .sysRead _ q _ r => q.meets r.bytes.length p n
  | .copied dst _ k => dst.meets k p n
  | _ => False

instance (p : Ptr) (n : Nat) (e : Event) : Decidable (e.storesIn p n) := by
  unfold Event.storesIn
  split <;> infer_instance

/-- How the memory follows from the one before, with the entry that says so. -/
inductive Heap.Stores (h h' : Heap κ) : Prop
  | kept : h'.mem = h.mem → Stores h h'
  | stored {q : Ptr} {bytes : List UInt8} {e : Event} {evs : List Event} :
      h'.mem = h.mem.store q bytes → h'.log = evs ++ h.log → e ∈ evs →
      (∀ p n, ¬ e.storesIn p n → ¬ q.meets bytes.length p n) → Stores h h'

namespace Heap

variable {h h' : Heap κ} {id : SockId} {buf : Ptr} {size ms : Int} {cb : κ} {now : Timeval}
  {r : ReadResult} {w : WriteResult} {t : TokenId} {n : Int} {m : Mode}

theorem stores_of_sysRead {evs : List Event} (hm : h'.mem = h.mem.store buf r.bytes)
    (hlog : h'.log = evs ++ h.log) (hmem : Event.sysRead id buf size r ∈ evs) : Stores h h' :=
  .stored hm hlog hmem fun _ _ hno => hno

/-- A call of `readSome` or `readAll` that takes the token stores what its `::read` got. -/
theorem Stores.startRead_finish :
    Stores h ((h.startRead id buf size cb r).finish ⟨id, .read⟩ n m) :=
  have hlog : ((h.startRead id buf size cb r).finish ⟨id, .read⟩ n m).log =
      [.sysRead id buf size r, .started ⟨id, .read⟩ h.nextCall] ++ h.log := by simp [startRead]
  stores_of_sysRead (by simp [startRead]) hlog List.mem_cons_self

theorem Stores.startRead_park :
    Stores h ((h.startRead id buf size cb r).park ⟨id, .read⟩ n m ms now) := by
  have hmem : ((h.startRead id buf size cb r).park ⟨id, .read⟩ n m ms now).mem =
      h.mem.store buf r.bytes := by simp [startRead]
  have hstart : (h.startRead id buf size cb r).log =
      [.sysRead id buf size r, .started ⟨id, .read⟩ h.nextCall] ++ h.log := by simp [startRead]
  rcases log_park_cases (h.startRead id buf size cb r) ⟨id, .read⟩ n m ms now with hlog | ⟨tv, hlog⟩
  · exact stores_of_sysRead hmem (hlog.trans hstart) List.mem_cons_self
  · rw [hstart, ← List.cons_append] at hlog
    exact stores_of_sysRead hmem hlog (List.mem_cons_of_mem _ List.mem_cons_self)

theorem readSome_stores : Stores h (h.readSome id buf size cb ms r now).1 := by
  by_cases hm : (h.tok ⟨id, .read⟩).mode = .none
  · cases r with
    | got bytes =>
      rw [readSome_got hm]
      exact .startRead_finish
    | fail errno =>
      by_cases he : errno = EAGAIN
      · subst he
        rw [readSome_again hm]
        exact .startRead_park
      · rw [readSome_fail hm he]
        exact .startRead_finish
  · rw [readSome_busy hm]
    exact .kept rfl

theorem readAll_stores : Stores h (h.readAll id buf size cb ms r now).1 := by
  by_cases hm : (h.tok ⟨id, .read⟩).mode = .none
  · cases r with
    | got bytes =>
      by_cases hs : bytes = [] ∨ size ≤ bytes.length
      · rw [readAll_whole hm hs]
        exact .startRead_finish
      · push Not at hs
        rw [readAll_part hm hs.1 hs.2]
        exact .startRead_park
    | fail errno =>
      by_cases he : errno = EAGAIN
      · subst he
        rw [readAll_again hm]
        exact .startRead_park
      · rw [readAll_fail hm he]
        exact .startRead_finish
  · rw [readAll_busy hm]
    exact .kept rfl

/-- `onRead` reads once, into the token's buffer, or not at all. -/
theorem onRead_mem (h : Heap κ) (id : SockId) (r : ReadResult) :
    (h.onRead id r).mem = h.mem ∨ ∃ q len,
    (h.onRead id r).mem = h.mem.store q r.bytes ∧
    (h.onRead id r).log = .sysRead id q len r :: h.log := by
  by_cases hp : (h.tok ⟨id, .read⟩).mode.pending
  · refine .inr ?_
    rcases hp with hm | hm
    · cases r with
      | got bytes =>
        rw [onRead_some_got hm]
        exact ⟨_, _, by simp, log_read⟩
      | fail errno =>
        by_cases he : errno = EAGAIN
        · subst he
          rw [onRead_some_again hm]
          exact ⟨_, _, mem_read, log_read⟩
        · rw [onRead_some_fail hm he]
          exact ⟨_, _, by simp, log_read⟩
    · cases r with
      | got bytes =>
        by_cases hb : bytes = []
        · subst hb
          rw [onRead_all_eof hm]
          exact ⟨_, _, by simp [continueRead], log_read⟩
        · by_cases hs : (h.tok ⟨id, .read⟩).ioSize + bytes.length < (h.tok ⟨id, .read⟩).bufSize
          · rw [onRead_all_part hm hb hs]
            exact ⟨_, _, by simp [continueRead], log_read⟩
          · rw [onRead_all_whole hm hb hs]
            exact ⟨_, _, by simp [continueRead], log_read⟩
      | fail errno =>
        by_cases he : errno = EAGAIN
        · subst he
          rw [onRead_all_again hm]
          exact ⟨_, _, mem_read, log_read⟩
        · rw [onRead_all_fail hm he]
          exact ⟨_, _, by simp [continueRead], log_read⟩
  · rw [onRead_idle hp]
    exact .inl rfl

theorem mem_writeAll : (h.writeAll id buf size cb ms w now).1.mem = h.mem := by
  unfold writeAll
  dsimp only
  split
  · rfl
  · split
    · split <;> simp
    · split <;> simp

theorem mem_onWrite : (h.onWrite id w).mem = h.mem := by
  unfold onWrite
  dsimp only
  split
  · split
    · split <;> simp
    · split <;> simp
  · rfl

@[simp] theorem mem_unlink : (h.unlink id).mem = h.mem := by
  unfold unlink
  dsimp only
  split <;> split <;> rfl

end Heap

namespace State

variable {s s' : State κ} {act : Action κ} {h : Handler} {id : SockId} {a : AccId}
  {acceptor : Bool} {ctl : Int} {t : TokenId} {err : Error} {bytes : Int} {via : Via}

theorem mem_register : (s.register h acceptor ctl).1.heap.mem = s.heap.mem := by
  unfold register
  split
  · rfl
  · dsimp only
    split <;> rfl

theorem mem_closeSocket : (s.closeSocket id).heap.mem = s.heap.mem := by
  have hr : (s.removeHandler (.socket id)).heap.mem = s.heap.mem := by rw [heap_removeHandler]; rfl
  unfold closeSocket
  dsimp only
  split <;> exact hr

theorem mem_destroySocket : (s.destroySocket id).heap.mem = s.heap.mem := by
  unfold destroySocket
  dsimp only
  split
  · exact Heap.mem_unlink.trans mem_closeSocket
  · exact Heap.mem_unlink

theorem mem_closeAcceptor : (s.closeAcceptor a).heap.mem = s.heap.mem := by
  have hr : (s.removeHandler (.acceptor a)).heap.mem = s.heap.mem := by
    rw [heap_removeHandler]
    rfl
  unfold closeAcceptor
  dsimp only
  split <;> exact hr

theorem mem_destroyAcceptor : (s.destroyAcceptor a).heap.mem = s.heap.mem := by
  unfold destroyAcceptor
  dsimp only
  split
  · exact mem_closeAcceptor
  · rfl

theorem mem_listen (cb : κ) (r : ListenResult) : (s.listen a cb r).1.heap.mem = s.heap.mem := by
  have hl : (s.listenSocket a r).1.heap.mem = s.heap.mem := by
    obtain ⟨s₁, c, he, rfl | ⟨fd, rfl⟩⟩ := listenSocket_shape (s := s) (a := a) r
    · rw [he]
      rfl
    · rw [he]
      rfl
  rcases listen_shape (s := s) (a := a) cb r with he | ⟨c, he⟩
  · rw [he]
    exact hl
  · rw [he]
    exact mem_register.trans hl

@[simp] theorem mem_invoke : (s.invoke t err bytes via).heap.mem = s.heap.mem := by
  unfold invoke
  split <;> rfl

theorem mem_invokeAccept (soc : Int) : (s.invokeAccept a err soc).heap.mem = s.heap.mem := by
  unfold invokeAccept
  split <;> rfl

theorem mem_onCloseSocket : (s.onCloseSocket id).heap.mem = s.heap.mem :=
  onCloseSocket_rule (P := fun s' => s'.heap.mem = s.heap.mem) rfl fun _ _ => mem_invoke

theorem mem_closeHandle : s.closeHandle.heap.mem = s.heap.mem := by
  unfold closeHandle
  split <;> rfl

theorem user_stores {f : State κ → State κ} (hs : s.user h f = some s')
    (hf : s.heap.Stores (f s).heap) : s.heap.Stores s'.heap := by
  obtain ⟨-, ⟨-, rfl⟩ | ⟨-, rfl⟩⟩ := user_cases hs
  · exact .kept rfl
  · exact hf

theorem dispatch_stores {r : ReadResult} {w : WriteResult} (hs : s.dispatch r w = some s') :
    s.heap.Stores s'.heap := by
  cases dispatch_cases hs with
  | closeSocket _ _ _ _ he =>
    rw [he]
    exact .kept mem_onCloseSocket
  | closeAcceptor _ _ _ _ he =>
    rw [he]
    exact .kept (mem_invokeAccept _)
  | @readSocket ev _ id _ _ _ _ _ he =>
    rw [he]
    obtain hm | ⟨q, len, hm, hlog⟩ := Heap.onRead_mem
      (s.heap.emit (.dispatched ev.handler .onRead)) id r
    · exact .kept hm
    · exact Heap.stores_of_sysRead hm (hlog.trans (List.append_assoc [_] [_] _))
        List.mem_cons_self
  | writeSocket _ _ _ _ he =>
    rw [he]
    exact .kept Heap.mem_onWrite
  | closeLost _ _ he | readLost _ _ _ he | readAcceptor _ _ _ _ he | skips _ _ _ he
  | writeLost _ _ he | writeAcceptor _ _ _ he | passes _ _ he =>
    rw [he]
    exact .kept rfl

theorem mem_accept {r : AcceptResult} (hs : s.accept r = some s') :
    s'.heap.mem = s.heap.mem := by
  have hopened : ∀ {s₁ : State κ} {a : AccId},
      (s₁ = s ∨ ∃ fd, s₁ = s.emit (.opened a .accept fd)) → s₁.heap.mem = s.heap.mem := by
    rintro s₁ a (rfl | ⟨fd, rfl⟩) <;> rfl
  cases accept_cases hs with
  | lost _ he =>
    rw [he]
    rfl
  | returns _ h₁ he =>
    have hm := hopened h₁
    rw [he]
    exact hm
  | failed _ h₁ he =>
    have hm := hopened h₁
    rw [he]
    exact (mem_invokeAccept _).trans hm
  | passed _ he =>
    rw [he]
    exact mem_invokeAccept _

theorem mem_processCompletion (hs : s.processCompletion = some s') :
    s'.heap.mem = s.heap.mem := by
  cases processCompletion_cases hs with
  | ends _ _ _ _ he => rw [he]
  | faults _ _ _ he =>
    rw [he]
    rfl
  | completes _ _ _ he =>
    rw [he]
    exact mem_invoke

theorem mem_processTimer (hs : s.processTimer = some s') : s'.heap.mem = s.heap.mem := by
  cases processTimer_cases hs with
  | ends _ he => rw [he]
  | faults _ _ _ he =>
    rw [he]
    rfl
  | expires _ _ _ _ he =>
    rw [he]
    exact mem_invoke

theorem mem_epollWait {r : PollResult} (hs : s.epollWait r = some s') :
    s'.heap.mem = s.heap.mem := by
  cases epollWait_cases hs with
  | leaves he =>
    rw [he]
    exact mem_closeHandle
  | idles he => rw [he]
  | polls _ _ he =>
    rw [he]
    rfl

/-- A step stores where one of its entries says so, or nowhere. -/
theorem step_stores (hs : s.step act = some s') : s.heap.Stores s'.heap := by
  cases act with
  | readSome id buf size cb ms r now =>
    unfold step at hs
    exact user_stores hs Heap.readSome_stores
  | readAll id buf size cb ms r now =>
    unfold step at hs
    exact user_stores hs Heap.readAll_stores
  | dispatch r w => exact dispatch_stores (library_some hs).2
  | memcpy dst src n =>
    dsimp only [step] at hs
    split at hs
    · cases hs
      refine .stored (e := .copied dst src n) rfl (List.singleton_append).symm
        List.mem_cons_self fun p k hno => ?_
      rw [Mem.length_load]
      exact hno
    · cases hs
  | writeAll id buf size cb ms w now =>
    unfold step at hs
    exact user_stores hs (.kept Heap.mem_writeAll)
  | close id =>
    unfold step at hs
    exact user_stores hs (.kept mem_closeSocket)
  | destroy id =>
    unfold step at hs
    exact user_stores hs (.kept mem_destroySocket)
  | listen a cb r =>
    unfold step at hs
    exact user_stores hs (.kept (mem_listen cb r))
  | closeAcceptor a =>
    unfold step at hs
    exact user_stores hs (.kept mem_closeAcceptor)
  | destroyAcceptor a =>
    unfold step at hs
    exact user_stores hs (.kept mem_destroyAcceptor)
  | epollCreate fd errno =>
    dsimp only [step] at hs
    split at hs
    · split at hs <;> (cases hs; exact .kept rfl)
    · cases hs
  | create id soc rtv wtv ctl =>
    dsimp only [step] at hs
    split at hs
    · cases hs
      exact .kept mem_register
    · cases hs
  | createUnbound id rtv wtv =>
    dsimp only [step] at hs
    split at hs
    · cases hs
      exact .kept rfl
    · cases hs
  | createAcceptor a soc =>
    dsimp only [step] at hs
    split at hs
    · cases hs
      exact .kept rfl
    · cases hs
  | stop | environment e =>
    cases hs
    exact .kept rfl
  | ret =>
    dsimp only [step] at hs
    split at hs
    · cases hs
      exact .kept rfl
    · cases hs
  | run =>
    obtain ⟨-, hs⟩ := library_some hs
    split at hs
    · cases hs
      exact .kept rfl
    · cases hs
  | epollWait r =>
    obtain ⟨-, hs⟩ := library_some hs
    split at hs
    · exact .kept (mem_epollWait hs)
    · cases hs
  | accept r => exact .kept (mem_accept (library_some hs).2)
  | processCompletion => exact .kept (mem_processCompletion (library_some hs).2)
  | startTimer now =>
    obtain ⟨-, hs⟩ := library_some hs
    unfold startTimer at hs
    split at hs
    · cases hs
      exact .kept rfl
    · cases hs
  | processTimer => exact .kept (mem_processTimer (library_some hs).2)

/-- What no entry of a step stores into, the step leaves as it was. -/
theorem load_of_step {p : Ptr} {n : Nat} {evs : List Event} (hs : s.step act = some s')
    (hlog : s'.heap.log = evs ++ s.heap.log) (hno : ∀ e ∈ evs, ¬ e.storesIn p n) :
    s'.heap.mem.load p n = s.heap.mem.load p n := by
  cases step_stores hs with
  | kept hm => rw [hm]
  | stored hm hlog' hmem hq =>
    rw [hlog] at hlog'
    rw [hm, Mem.load_store_of_not_meets]
    exact hq p n (hno _ (List.append_cancel_right hlog' ▸ hmem))

end State

end EchoBenchmark.Proactor
