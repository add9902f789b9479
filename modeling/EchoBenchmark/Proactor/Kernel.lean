import EchoBenchmark.Proactor.Steps

/-!
The kernel's side of a connection, read off the history: what it holds for the Socket, and which
edges of the edge-triggered registration it has not reported yet.
-/

namespace EchoBenchmark.Proactor

variable {κ : Type}

/-- Unread bytes, end of the stream, free space to send, whether a call failed for want of space,
and the edges that `epoll_wait` has still to report. -/
structure Conn where
  unread : Nat
  eof : Bool
  space : Nat
  nospace : Bool
  inEdge : Bool
  outEdge : Bool
  deriving DecidableEq

namespace Conn

def fresh : Conn := ⟨0, false, 0, false, false, false⟩

/-- A `::read` would not block. -/
def readable (c : Conn) : Prop := 0 < c.unread ∨ c.eof = true

instance (c : Conn) : Decidable c.readable := inferInstanceAs (Decidable (_ ∨ _))

/-- Arrivals and the registration set the input edge, space after a call that ran out of it sets
the output edge, and a report clears both. -/
def after (id : SockId) (c : Conn) : Event → Conn
  | .created j => if j = id then fresh else c
  | .registered h _ => if h = .socket id then { c with inEdge := true } else c
  | .kernel (.arrived j bytes) =>
    if j = id ∧ bytes ≠ [] then { c with unread := c.unread + bytes.length, inEdge := true } else c
  | .kernel (.eof j) => if j = id then { c with eof := true, inEdge := true } else c
  | .kernel (.space j n) =>
    if j = id ∧ 0 < n then
      { c with space := c.space + n, nospace := false, outEdge := c.outEdge || c.nospace }
    else c
  | .sysRead j _ _ r => if j = id then { c with unread := c.unread - r.bytes.length } else c
  | .sysWrite j _ len w _ =>
    if j = id then
      { c with
        space := c.space - w.count
        nospace := c.nospace || decide (w = .fail EAGAIN) || decide (0 < w.ret ∧ w.ret < len) }
    else c
  | .polled evs =>
    if ∃ ev ∈ evs, ev.handler = .socket id then { c with inEdge := false, outEdge := false } else c
  | _ => c

/-- What can be read will be reported, or `due` sees to it. -/
def InputSafe (c : Conn) (due : Prop) : Prop := c.readable → c.inEdge = true ∨ due

/-- Space to send will be reported, at the latest when there is some. -/
def OutputSafe (c : Conn) (due : Prop) : Prop :=
  (c.space = 0 → c.nospace = true) ∧ (0 < c.space → c.outEdge = true ∨ due)

end Conn

/-- The kernel's side of Socket `id` after a history. -/
def conn (id : SockId) : List Event → Conn
  | [] => .fresh
  | e :: log => (conn id log).after id e

/-- The mask of a reported event says what is ready. -/
def PollEvent.covers (ev : PollEvent) (log : List Event) : Prop :=
  match ev.handler with
  | .socket id => ((conn id log).readable → ev.events.pollin = true) ∧
    (0 < (conn id log).space → ev.events.pollout = true)
  | .acceptor _ => True

instance (ev : PollEvent) (log : List Event) : Decidable (ev.covers log) := by
  unfold PollEvent.covers
  split <;> infer_instance

/-- The kernel can answer so: a short read empties the receive queue, a short write fills the send
buffer, `EAGAIN` means that there is nothing or no space, and a report covers what is ready. -/
def Event.possible (log : List Event) : Event → Prop
  | .sysRead id _ len (.got bytes) =>
    bytes.length ≤ (conn id log).unread ∧
      (bytes.length < len → bytes.length = (conn id log).unread) ∧
      (bytes = [] → 0 < len → (conn id log).eof = true)
  | .sysRead id _ _ (.fail errno) => errno = EAGAIN → ¬ (conn id log).readable
  | .sysWrite id _ len (.accepted n) _ =>
    n ≤ (conn id log).space ∧ (n < len → n = (conn id log).space)
  | .sysWrite id _ _ (.fail errno) _ => errno = EAGAIN → (conn id log).space = 0
  | .polled evs => ∀ ev ∈ evs, ev.covers log
  | _ => True

instance (log : List Event) (e : Event) : Decidable (e.possible log) := by
  unfold Event.possible
  split <;> infer_instance

/-- Every answer of the kernel in the history was possible. -/
def Plausible : List Event → Prop
  | [] => True
  | e :: log => e.possible log ∧ Plausible log

instance decidablePlausible : (log : List Event) → Decidable (Plausible log)
  | [] => isTrue trivial
  | e :: log =>
    @instDecidableAnd (e.possible log) (Plausible log) inferInstance (decidablePlausible log)

theorem Plausible.of_suffix {log log' : List Event} (hp : Plausible log') (hs : log <:+ log') :
    Plausible log := by
  induction log' with
  | nil =>
    rw [List.suffix_nil.mp hs]
    exact hp
  | cons e log' ih =>
    rcases List.suffix_cons_iff.mp hs with rfl | hs
    · exact hp
    · exact ih hp.2 hs

section Safety

variable {id : SockId} {c : Conn} {due due' : Prop} {e : Event} {log : List Event} {buf : Ptr}
  {len : Int} {r : ReadResult} {w : WriteResult} {bytes : List UInt8}

theorem Conn.InputSafe.mono (hs : c.InputSafe due) (hd : due → due') : c.InputSafe due' :=
  fun hr => (hs hr).imp id hd

theorem Conn.OutputSafe.mono (hs : c.OutputSafe due) (hd : due → due') : c.OutputSafe due' :=
  ⟨hs.1, fun hp => (hs.2 hp).imp id hd⟩

/-- But for reports and a new Socket, no event takes an input edge away. -/
theorem Conn.InputSafe.after (hs : c.InputSafe due) (hp : ∀ evs, e ≠ .polled evs)
    (hc : e ≠ .created id) : (c.after id e).InputSafe due := by
  cases e with
  | polled evs => exact (hp evs rfl).elim
  | created j =>
    have hj : j ≠ id := fun h => hc (congrArg _ h)
    simpa [Conn.after, hj] using hs
  | registered h fd =>
    simp only [Conn.after]
    split
    · exact fun _ => .inl rfl
    · exact hs
  | kernel k =>
    cases k with
    | arrived j bytes =>
      simp only [Conn.after]
      split
      · exact fun _ => .inl rfl
      · exact hs
    | eof j =>
      simp only [Conn.after]
      split
      · exact fun _ => .inl rfl
      · exact hs
    | space j n =>
      simp only [Conn.after]
      split
      · exact hs
      · exact hs
  | sysRead j buf len r =>
    simp only [Conn.after]
    split
    · rintro (hr | hr)
      · exact hs (.inl (lt_of_lt_of_le hr (Nat.sub_le _ _)))
      · exact hs (.inr hr)
    · exact hs
  | sysWrite j buf len w bytes =>
    simp only [Conn.after]
    split
    · exact hs
    · exact hs
  | _ => exact hs

/-- But for reports, writes and a new Socket, no event takes an output edge away. -/
theorem Conn.OutputSafe.after (hs : c.OutputSafe due) (hp : ∀ evs, e ≠ .polled evs)
    (hc : e ≠ .created id) (hw : ¬ e.isIo ⟨id, .write⟩) : (c.after id e).OutputSafe due := by
  cases e with
  | polled evs => exact (hp evs rfl).elim
  | created j =>
    have hj : j ≠ id := fun h => hc (congrArg _ h)
    simpa [Conn.after, hj] using hs
  | registered h fd =>
    simp only [Conn.after]
    split
    · exact hs
    · exact hs
  | kernel k =>
    cases k with
    | arrived j bytes =>
      simp only [Conn.after]
      split
      · exact hs
      · exact hs
    | eof j =>
      simp only [Conn.after]
      split
      · exact hs
      · exact hs
    | space j n =>
      simp only [Conn.after]
      split
      · rename_i hn
        refine ⟨fun h0 => ?_, fun _ => ?_⟩
        · dsimp only at h0
          omega
        · -- without space before, the last write ran out of it
          rcases Nat.eq_zero_or_pos c.space with h0 | hpos
          · exact .inl (by simp [hs.1 h0])
          · exact (hs.2 hpos).imp (fun h => by simp [h]) fun h => h
      · exact hs
  | sysRead j buf len r =>
    simp only [Conn.after]
    split
    · exact hs
    · exact hs
  | sysWrite j buf len w bytes =>
    have hj : j ≠ id := fun h => hw (h ▸ rfl)
    simpa [Conn.after, hj] using hs
  | _ => exact hs

/-- A read that has to go on waiting leaves nothing behind but perhaps the end of the stream. -/
theorem inputSafe_of_sysRead (hp : (Event.sysRead id buf len r).possible log)
    (hx : r = .fail EAGAIN ∨ 0 < r.ret ∧ r.ret < len)
    (heof : 0 < r.ret → r.ret < len → (conn id log).eof = true →
      (conn id log).inEdge = true ∨ due) :
    (conn id (.sysRead id buf len r :: log)).InputSafe due := by
  simp only [conn, Conn.after, if_true]
  cases r with
  | fail errno =>
    rcases hx with hx | ⟨hx, -⟩
    · cases hx
      exact fun hr => (hp rfl (by simpa [Conn.readable, ReadResult.bytes] using hr)).elim
    · exact absurd hx (by simp [ReadResult.ret])
  | got bytes =>
    rcases hx with hx | ⟨hpos, hlt⟩
    · cases hx
    · have hall := hp.2.1 hlt
      rintro (hr | hr)
      · dsimp only [ReadResult.bytes] at hr
        omega
      · exact heof hpos hlt hr

/-- A write that has to go on waiting leaves no space behind. -/
theorem outputSafe_of_sysWrite {m : Mode} (hp : (Event.sysWrite id buf len w bytes).possible log)
    (hx : (Event.sysWrite id buf len w bytes).stalls m) :
    (conn id (.sysWrite id buf len w bytes :: log)).OutputSafe due := by
  simp only [conn, Conn.after, if_true]
  have hzero : (conn id log).space - w.count = 0 := by
    cases w with
    | fail errno =>
      rcases hx with hx | ⟨hx, -⟩
      · cases hx
        exact (Nat.sub_zero _).trans (hp rfl)
      · exact absurd hx (by simp [WriteResult.ret])
    | accepted n =>
      rcases hx with hx | ⟨hpos, hlt⟩
      · cases hx
      · have hall := hp.2 hlt
        dsimp only [WriteResult.count]
        omega
  refine ⟨fun _ => ?_, fun hpos => ?_⟩
  · rcases hx with hx | hx
    · simp [hx]
    · simp [hx]
  · dsimp only at hpos
    omega

/-- A report that covers what is ready hands the edges over to the batch. -/
theorem safe_of_polled (id : SockId) {evs : List PollEvent} (hp : (Event.polled evs).possible log) :
    ((conn id log).InputSafe False → (conn id (.polled evs :: log)).InputSafe
      (∃ ev ∈ evs, ev.handler = .socket id ∧ ev.events.input = true)) ∧
    ((conn id log).OutputSafe False → (conn id (.polled evs :: log)).OutputSafe
      (∃ ev ∈ evs, ev.handler = .socket id ∧ ev.events.pollout = true)) := by
  simp only [conn, Conn.after]
  split
  · rename_i hex
    obtain ⟨ev, hev, hh⟩ := hex
    have hready := hp ev hev
    simp only [PollEvent.covers, hh] at hready
    refine ⟨fun _ hr => .inr ⟨ev, hev, hh, ?_⟩,
      fun hs => ⟨hs.1, fun hpos => .inr ⟨ev, hev, hh, ?_⟩⟩⟩
    · have hin : (conn id log).readable := hr
      simp [Mask.input, hready.1 hin]
    · exact hready.2 hpos
  · exact ⟨fun hs => hs.mono False.elim, fun hs => hs.mono False.elim⟩

end Safety

end EchoBenchmark.Proactor
