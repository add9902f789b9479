import EchoBenchmark.Lib.Isolation
import EchoBenchmark.Streams.Server

/-!
In the uvloop server a lost connection is an exception in the task that serves it, which ends
alone; in the Node server it is an `error` event that nothing listens for, which ends the process.
-/

namespace EchoBenchmark.Streams

variable {p : Program} {s s' u u' : Server} {a : Action} {c d : ConnId} {conn : Conn}
  {as : List Action}

/-- The connection that is lost in a step. -/
def failing (s : Server) : Action → Option ConnId
  | .lost c ended =>
    match s.conns c, ended with
    | some (.echoing _), false => some c
    | some (.closing _), true => some c
    | _, _ => none
  | _ => none

/-- The orderly end in place of the loss. -/
def closing : Action → List Action
  | .lost c false => [.finish c, .drain c]
  | .lost c true => [.drain c]
  | a => [a]

def Event.of (c : ConnId) : Event → Bool
  | .read j _ | .sent j _ | .closed j | .lost j | .raised j => j == c

/-- What there is of the server apart from one connection. -/
def others (c : ConnId) (s : Server) : (ConnId → Option Conn) × Nat × Bool × List Event :=
  (fun j => if j = c then none else s.conns j, s.accepted, s.crashed, s.log.filter fun e => !e.of c)

/-- The server of a program and its connections. -/
def service (p : Program) :
    Service Server Action ConnId ((ConnId → Option Conn) × Nat × Bool × List Event) where
  toMachine := server p
  fails := failing
  closing := closing
  serving s := s.crashed = false
  others := others

theorem echoing_ne_closed (unsent : List UInt8) : Conn.echoing unsent ≠ .closed := nofun

theorem closing_ne_closed (unsent : List UInt8) : Conn.closing unsent ≠ .closed := nofun

/-! ### Two servers that differ in the history of one connection -/

/-- Connection `c` is closed in both, and all else is the same but for entries about it. -/
structure Alike (c : ConnId) (s u : Server) : Prop where
  conns : s.conns = u.conns
  closed : s.conns c = some .closed
  below : c < s.accepted
  accepted : s.accepted = u.accepted
  crashed : s.crashed = u.crashed
  log : s.log.filter (fun e => !e.of c) = u.log.filter fun e => !e.of c

theorem Alike.others_eq (h : Alike c s u) : others c s = others c u := by
  rw [others, others, h.conns, h.accepted, h.crashed, h.log]

theorem Alike.emit (h : Alike c s u) (e : Event) : Alike c (s.emit e) (u.emit e) where
  conns := h.conns
  closed := h.closed
  below := h.below
  accepted := h.accepted
  crashed := h.crashed
  log := by
    dsimp only [Server.emit]
    rw [List.filter_cons, List.filter_cons, h.log]

/-- Another connection goes on in both. -/
theorem Alike.set (h : Alike c s u) (hd : d ≠ c) (conn : Conn) :
    Alike c (s.set d conn) (u.set d conn) where
  conns := by
    dsimp only [Server.set]
    rw [h.conns]
  closed := (Function.update_of_ne (fun he => hd he.symm) _ _).trans h.closed
  below := h.below
  accepted := h.accepted
  crashed := h.crashed
  log := h.log

theorem Alike.accept (h : Alike c s u) : Alike c s.accept u.accept := by
  have hset := h.set (Nat.ne_of_gt h.below) (.echoing [])
  rw [Server.accept, Server.accept, ← h.accepted]
  exact ⟨hset.conns, hset.closed, Nat.lt_succ_of_lt h.below, rfl, h.crashed, h.log⟩

theorem Alike.connectionLost (h : Alike c s u) (hd : d ≠ c) (ended : Bool) :
    Alike c (s.connectionLost p d ended) (u.connectionLost p d ended) := by
  have hlose : Alike c (s.lose d) (u.lose d) := (h.set hd .closed).emit (.lost d)
  cases p with
  | uvloop =>
    cases ended with
    | false => exact hlose.emit (.raised d)
    | true => exact hlose
  | node =>
    rw [Server.connectionLost, Server.connectionLost, emitError_eq, emitError_eq]
    exact ⟨hlose.conns, hlose.closed, hlose.below, hlose.accepted, rfl, hlose.log⟩

/-- A connection that is not closed is another one. -/
theorem Alike.ne (h : Alike c s u) (hd : s.conns d = some conn) (hopen : conn ≠ .closed) :
    d ≠ c := by
  rintro rfl
  exact hopen (Option.some.inj (hd.symm.trans h.closed))

/-- From servers that are alike, the same goes on. -/
theorem bisimulation (p : Program) (c : ConnId) :
    Machine.Bisimulation (server p) Machine.free (server p) Machine.free (Alike c) where
  guards _ _ _ _ := Iff.rfl
  steps s u a h _ := by
    simp only [server, Server.step, ← h.conns, ← h.crashed]
    cases s.crashed with
    | true => exact .none
    | false =>
      cases a with
      | accept => exact .some h.accept
      | data d data =>
        dsimp only
        split
        · rename_i unsent hconn
          split
          · exact .some ((h.set (h.ne hconn (echoing_ne_closed unsent)) _).emit _)
          · exact .none
        · exact .none
      | finish d =>
        dsimp only
        split
        · rename_i unsent hconn
          exact .some (h.set (h.ne hconn (echoing_ne_closed unsent)) _)
        · exact .none
      | flush d n =>
        dsimp only
        split
        · rename_i unsent hconn
          split
          · exact .some ((h.set (h.ne hconn (echoing_ne_closed unsent)) _).emit _)
          · exact .none
        · rename_i unsent hconn
          split
          · exact .some ((h.set (h.ne hconn (closing_ne_closed unsent)) _).emit _)
          · exact .none
        · exact .none
      | drain d =>
        dsimp only
        split
        · rename_i unsent hconn
          exact .some (((h.emit _).set (h.ne hconn (closing_ne_closed unsent)) _).emit _)
        · exact .none
      | lost d ended =>
        dsimp only
        split
        · rename_i unsent hconn _
          exact .some (h.connectionLost (h.ne hconn (echoing_ne_closed unsent)) false)
        · rename_i unsent hconn _
          exact .some (h.connectionLost (h.ne hconn (closing_ne_closed unsent)) true)
        · exact .none

/-! ### Which program contains a loss -/

theorem lost_of_failing (hf : failing s a = some c) :
    (a = .lost c false ∧ ∃ unsent, s.conns c = some (.echoing unsent)) ∨
      a = .lost c true ∧ ∃ unsent, s.conns c = some (.closing unsent) := by
  unfold failing at hf
  split at hf
  · split at hf
    · rename_i unsent hconn
      cases hf
      exact .inl ⟨rfl, unsent, hconn⟩
    · rename_i unsent hconn
      cases hf
      exact .inr ⟨rfl, unsent, hconn⟩
    · cases hf
  · cases hf

/-- What a loss does, and what the orderly end does instead. -/
theorem ends_of_failing (hf : failing s a = some c) (hs : s.step p a = some s') :
    s.crashed = false ∧ (∃ ended, s' = s.connectionLost p c ended) ∧ ∃ unsent,
      (server p).exec Machine.free s (closing a) = some (s.drain c unsent) ∨
      (server p).exec Machine.free s (closing a) =
        some ((s.set c (.closing unsent)).drain c unsent) := by
  have hc := (does_of_step hs).1
  refine ⟨hc, ?_⟩
  rcases lost_of_failing hf with ⟨rfl, unsent, hconn⟩ | ⟨rfl, unsent, hconn⟩
  · refine ⟨⟨false, ?_⟩, unsent, .inr ?_⟩
    · simpa [Server.step, hc, hconn] using hs.symm
    · simp [closing, Machine.exec, Machine.free, server, Server.step, hc, hconn, Server.set]
  · refine ⟨⟨true, ?_⟩, unsent, .inl ?_⟩
    · simpa [Server.step, hc, hconn] using hs.symm
    · simp [closing, Machine.exec, Machine.free, server, Server.step, hc, hconn]

theorem lt_of_conns (hfresh : ∀ c, s.accepted ≤ c → s.conns c = none)
    (hconn : s.conns c = some conn) : c < s.accepted := by
  by_contra hle
  rw [hfresh c (Nat.le_of_not_lt hle)] at hconn
  cases hconn

/-- An exception of `do_echo` ends the task of its connection only. -/
theorem contained_uvloop (hr : (server .uvloop).Reachable Machine.free s)
    (hf : failing s a = some c) : (service .uvloop).Contained s a c := by
  apply Service.contained_of_bisimulation (bisimulation .uvloop c) fun _ _ h => h.others_eq
  intro s' v hs hv
  obtain ⟨hc, ⟨ended, rfl⟩, unsent, hend⟩ := ends_of_failing hf hs
  have hbelow : c < s.accepted := by
    rcases lost_of_failing hf with ⟨-, _, hconn⟩ | ⟨-, _, hconn⟩
    · exact lt_of_conns (fresh_of_reachable hr) hconn
    · exact lt_of_conns (fresh_of_reachable hr) hconn
  have hrunning : (s.connectionLost .uvloop c ended).crashed = false := by
    cases ended <;> exact hc
  have hconns := conns_connectionLost .uvloop s c ended
  have hclosed : (s.connectionLost .uvloop c ended).conns c = some .closed := by
    rw [hconns, Function.update_self]
  have hlog : (s.connectionLost .uvloop c ended).log.filter (fun e => !e.of c) =
      s.log.filter fun e => !e.of c := by
    rcases log_connectionLost .uvloop s c ended with hlog | hlog <;> simp [hlog, Event.of]
  have hlt : c < (s.connectionLost .uvloop c ended).accepted := by
    rw [accepted_connectionLost]
    exact hbelow
  refine ⟨hrunning, ?_⟩
  rcases hend with hend | hend
  · cases hv.symm.trans hend
    refine ⟨hconns.trans rfl, hclosed, hlt, accepted_connectionLost _ _ _ _,
      hrunning.trans hc.symm, hlog.trans ?_⟩
    simp [Server.drain, Server.emit, Server.set, Event.of]
  · cases hv.symm.trans hend
    refine ⟨hconns.trans ?_, hclosed, hlt, accepted_connectionLost _ _ _ _,
      hrunning.trans hc.symm, hlog.trans ?_⟩
    · simp [Server.drain, Server.emit, Server.set]
    · simp [Server.drain, Server.emit, Server.set, Event.of]

/-- The losses of a run stay with their connections if and only if it is one of the uvloop server,
or no connection is lost in it. -/
theorem isolated_iff_uvloop (h : (server p).exec Machine.free Server.initial as = some s) :
    (service p).Isolated Server.initial as ↔
      p = .uvloop ∨ (service p).Faultless Server.initial as := by
  cases p with
  | uvloop =>
    refine ⟨fun _ => .inl rfl, fun _ => ?_⟩
    intro pre a post u c _ hu hf
    exact contained_uvloop ⟨_, rfl, Machine.exec_steps hu⟩ hf
  | node =>
    have hiff : (service .node).Isolated Server.initial as ↔
        (service .node).Faultless Server.initial as := by
      apply Service.isolated_iff_faultless _ _ h
      · intro s a c s' hf hs hserving
        obtain ⟨-, ⟨ended, rfl⟩, -⟩ := ends_of_failing hf hs
        have hgone : (s.connectionLost .node c ended).crashed = true := by
          rw [Server.connectionLost, emitError_eq]
        cases hgone.symm.trans hserving
      · intro s a c s' hf hs
        obtain ⟨-, -, unsent, hend | hend⟩ := ends_of_failing hf hs
        · exact ⟨_, hend⟩
        · exact ⟨_, hend⟩
    rw [hiff]
    refine ⟨.inr, ?_⟩
    rintro (h | h)
    · cases h
    · exact h

/-- Of two connections the first is lost with a byte unsent. -/
def firstLost : List Action :=
  [.accept, .accept, .data 0 [65], .data 1 [66], .flush 1 1, .lost 0 false]

theorem isolated_iff_uvloop_firstLost :
    (service .uvloop).Isolated Server.initial firstLost ∧
      ¬ (service .node).Isolated Server.initial firstLost := by
  refine ⟨(isolated_iff_uvloop rfl).mpr (.inl rfl), ?_⟩
  intro hiso
  rcases (isolated_iff_uvloop rfl).mp hiso with h | h
  · cases h
  · have hno := h (firstLost.take 5) (.lost 0 false) [] _ rfl rfl
    cases hno

end EchoBenchmark.Streams
