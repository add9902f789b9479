import EchoBenchmark.Streams.Server

/-!
As long as no connection ends, the uvloop server and the Node server come to read from each of them,
and to send on it what they read.
-/

namespace EchoBenchmark.Streams

/-- No stream ends, and no connection is lost. -/
def unbroken : Action → Prop
  | .accept | .data _ _ | .flush _ _ => True
  | .finish _ | .drain _ | .lost _ _ => False

/-- Every connection that was accepted is served. -/
structure Unbroken (s : Server) : Prop where
  running : s.crashed = false
  served : Relay.Served (fun conn => ∃ unsent, conn = .echoing unsent) s.conns s.accepted

variable {p : Program} {s s' : Server} {a : Action} {c : ConnId} {unsent : List UInt8} {n : Nat}

theorem unbroken_of_reachable (hr : (server p).Reachable (fun _ a => unbroken a) s) :
    Unbroken s := by
  apply hr.invariant
  · rintro s₀ rfl
    exact ⟨rfl, .zero⟩
  · intro s₀ a s₁ hr₀ h ha hs
    obtain ⟨-, hd⟩ := does_of_step hs
    cases hd with
    | accept => exact ⟨h.running, h.served.accept ⟨[], rfl⟩⟩
    | data _ _ _ | flush _ _ => exact ⟨h.running, h.served.update ⟨_, rfl⟩⟩
    | @flushEnded c unsent n hconn _ =>
      by_cases hc : c < s₀.accepted
      · obtain ⟨conn, hsame, rest, rfl⟩ := h.served c hc
        rw [hconn] at hsame
        cases hsame
      · rw [fresh_of_reachable (hr₀.mono fun _ _ _ => trivial) c (Nat.le_of_not_lt hc)] at hconn
        cases hconn
    | finish _ | drain _ | lost _ _ => exact ha.elim

/-- Connections are accepted until it is the turn of connection `c`. -/
theorem exists_accepted (hr : (server p).Reachable (fun _ a => unbroken a) s) (c : Nat) :
    ∃ t, (server p).Steps (fun _ a => unbroken a) s t ∧ t.log = s.log ∧ c < t.accepted := by
  generalize hn : c + 1 - s.accepted = n
  induction n generalizing s with
  | zero => exact ⟨s, .refl, rfl, Nat.le_of_sub_eq_zero hn⟩
  | succ n ih =>
    have hs : s.step p .accept = some s.accept := by
      simp only [Server.step, (unbroken_of_reachable hr).running]
    have haccepted : s.accept.accepted = s.accepted + 1 := rfl
    obtain ⟨t, hsteps, hlog, hlt⟩ :=
      ih (hr.step (a := .accept) trivial hs) (by rw [haccepted]; omega)
    exact ⟨t, .head (a := .accept) trivial hs hsteps, hlog, hlt⟩

/-- As long as no connection ends, the server goes on as a relay toward each of them. -/
theorem answers (p : Program) : Relay.Answers (server p) (fun _ a => unbroken a) Relay.eager
    (fun c s => readFrom c s.log) fun c s => sentTo c s.log where
  relays c := (keeps p c).isRelay.mono fun _ _ _ => trivial
  receives s c b hr _ := by
    obtain ⟨t, hsteps, hlog, hlt⟩ := exists_accepted hr c
    have ht := unbroken_of_reachable (hr.steps hsteps)
    obtain ⟨_, hc, unsent, rfl⟩ := ht.served c hlt
    have hadmits : p.admits [b].length := by
      intro limit hlimit
      cases p with
      | uvloop =>
        cases hlimit
        rw [List.length_singleton]
        decide
      | node => cases hlimit
    have hs : t.step p (.data c [b]) = some (t.write c unsent [b]) := by
      simp only [Server.step, ht.running, hc]
      exact if_pos ⟨Nat.one_pos, hadmits⟩
    refine ⟨_, hsteps.tail (a := .data c [b]) trivial hs, ?_, ?_, fun j hj => ⟨?_, ?_⟩⟩
    · simp [Server.write, Server.emit, Server.set, readFrom, Event.readFrom, hlog]
    · simp [Server.write, Server.emit, Server.set, sentTo, Event.sentTo, hlog]
    · simp [Server.write, Server.emit, Server.set, readFrom, Event.readFrom, hlog, hj.symm]
    · simp [Server.write, Server.emit, Server.set, sentTo, Event.sentTo, hlog]
  sends s c n hr hle := by
    obtain ⟨t, hsteps, hlog, hlt⟩ := exists_accepted hr c
    have ht := unbroken_of_reachable (hr.steps hsteps)
    obtain ⟨_, hc, unsent, rfl⟩ := ht.served c hlt
    have hall := (keeps p c).received_eq ((hr.steps hsteps).mono fun _ _ _ => trivial)
      (owes_of_conns hc)
    have hcan : n ≤ unsent.length := by
      have hlen := congrArg List.length hall
      rw [List.length_append, hlog] at hlen
      omega
    have hs : t.step p (.flush c n) =
        some ((t.set c (.echoing (unsent.drop n))).emit (.sent c (unsent.take n))) := by
      simp only [Server.step, ht.running, hc]
      exact if_pos hcan
    refine ⟨_, hsteps.tail (a := .flush c n) trivial hs, ?_, ?_, fun j hj => ⟨?_, ?_⟩⟩
    · simp [Server.emit, Server.set, readFrom, Event.readFrom, hlog]
    · simp [Server.emit, Server.set, sentTo, Event.sentTo, hlog, Nat.min_eq_left hcan]
    · simp [Server.emit, Server.set, readFrom, Event.readFrom, hlog]
    · simp [Server.emit, Server.set, sentTo, Event.sentTo, hlog, hj.symm]

end EchoBenchmark.Streams
