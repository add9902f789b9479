import EchoBenchmark.Go.Server
import EchoBenchmark.Nio.Failures

/-!
An error of one connection ends the Go process, as an `IOException` ends the select loops: none of
the three servers keeps a failure with its client.
-/

namespace EchoBenchmark.Go

variable {s s' : Server} {act : Action} {c : ConnId}

/-- The connection whose read or write fails in a step. -/
def failing (s : Server) : Action → Option ConnId
  | .read c .error => if s.conns c = some .reading then some c else none
  | .write c false =>
    match s.conns c with
    | some (.writing _) => some c
    | _ => none
  | _ => none

/-- The end of the stream in place of the failure, after a write that succeeds. -/
def closing : Action → List Action
  | .read c _ => [.read c .eof]
  | .write c _ => [.write c true, .read c .eof]
  | .accept ok => [.accept ok]

def Transfer.of (c : ConnId) : Transfer → Bool
  | .read j _ => j == c
  | .wrote j _ => j == c

/-- What there is of the server apart from one connection. -/
def others (c : ConnId) (s : Server) :
    (ConnId → Option Goroutine) × Nat × Option Nat × List Transfer :=
  (fun j => if j = c then none else s.conns j, s.accepted, s.exited,
    s.log.filter fun e => !e.of c)

/-- The Go server and its clients. -/
def service :
    Service Server Action ConnId
      ((ConnId → Option Goroutine) × Nat × Option Nat × List Transfer) where
  toMachine := server
  fails := failing
  closing := closing
  serving s := s.exited = none
  others := others

theorem operation_of_failing (hf : failing s act = some c) :
    act = .read c .error ∧ s.conns c = some .reading ∨
      act = .write c false ∧ ∃ bytes, s.conns c = some (.writing bytes) := by
  cases act with
  | accept ok => cases hf
  | read j r =>
    cases r with
    | got bytes => cases hf
    | eof => cases hf
    | error =>
      simp only [failing] at hf
      split at hf
      · rename_i hc
        cases hf
        exact .inl ⟨rfl, hc⟩
      · cases hf
  | write j ok =>
    cases ok with
    | true => cases hf
    | false =>
      simp only [failing] at hf
      split at hf
      · rename_i bytes hc
        cases hf
        exact .inr ⟨rfl, bytes, hc⟩
      · cases hf

/-- Nothing is served once the process has exited. -/
theorem running_of_step (hs : s.step act = some s') : s.exited = none := by
  cases he : s.exited with
  | none => rfl
  | some n => simp [Server.step, he] at hs

/-- The process exits. -/
theorem exited_of_failing (hf : failing s act = some c) (hs : s.step act = some s') :
    s'.exited = some 1 := by
  have he := running_of_step hs
  rcases operation_of_failing hf with ⟨rfl, hc⟩ | ⟨rfl, bytes, hc⟩
  · simp only [Server.step, he, hc, if_true, Server.onRead] at hs
    cases hs
    rfl
  · simp only [Server.step, he, hc, Server.onWrite, Bool.false_eq_true, if_false] at hs
    cases hs
    rfl

/-- The client could have closed instead. -/
theorem closes_of_failing (hf : failing s act = some c) (hs : s.step act = some s') :
    ∃ t, server.exec Machine.free s (closing act) = some t := by
  have he := running_of_step hs
  rcases operation_of_failing hf with ⟨rfl, hc⟩ | ⟨rfl, bytes, hc⟩
  · refine ⟨s.set c .closed, ?_⟩
    simp [closing, Machine.exec, Machine.free, server, Server.step, he, hc, Server.onRead]
  · refine ⟨({ s.set c .reading with log := .wrote c bytes :: s.log } : Server).set c .closed, ?_⟩
    simp [closing, Machine.exec, Machine.free, server, Server.step, he, hc, Server.onRead,
      Server.onWrite, Server.set]

/-- After the failure no connection is served and none accepted. -/
theorem nothing_after_failure {as : List Action} (hf : failing s act = some c)
    (hs : s.step act = some s') (hne : as ≠ []) : server.exec Machine.free s' as = none := by
  have he := exited_of_failing hf hs
  cases as with
  | nil => exact (hne rfl).elim
  | cons b bs =>
    have hstuck : s'.step b = none := by
      cases hb : s'.step b with
      | none => rfl
      | some t =>
        rw [running_of_step hb] at he
        cases he
    simp only [Machine.exec, server, hstuck]
    split <;> rfl

/-- A run is isolated only if nothing fails in it. -/
theorem isolated_iff {as : List Action} {s₀ t : Server}
    (h : server.exec Machine.free s₀ as = some t) :
    service.Isolated s₀ as ↔ service.Faultless s₀ as := by
  apply Service.isolated_iff_faultless
  · intro s a c s' hf hs hserving
    have hrunning : s'.exited = none := hserving
    rw [exited_of_failing hf hs] at hrunning
    cases hrunning
  · intro s a c s' hf hs
    exact closes_of_failing hf hs
  · exact h

/-- In every run of a select loop, be it that of the Java or of the Kotlin program, and in every run
of the Go server, the failures of reads and writes stay with their clients if and only if there are
none. -/
theorem failures_stay_iff {p : Nio.Program} {as : List Nio.Action} {u : Nio.Server}
    {bs : List Action} {v : Server}
    (hu : (Nio.nio p).exec Machine.free Nio.Server.initial as = some u)
    (hv : server.exec Machine.free Server.initial bs = some v) :
    ((Nio.service p).Isolated Nio.Server.initial as ↔
      (Nio.service p).Faultless Nio.Server.initial as) ∧
    (service.Isolated Server.initial bs ↔ service.Faultless Server.initial bs) :=
  ⟨Nio.isolated_iff hu, isolated_iff hv⟩

/-- Two connections, of which the first is reset while it is read. -/
def firstReset : List Action := [.accept true, .accept true, .read 0 .error]

/-- The same of a select loop. -/
def channelReset : List Nio.Action :=
  [.select [.server], .round .client .eof .ioException, .round .null .eof .ioException,
    .select [.server], .round .client .eof .ioException, .round .null .eof .ioException,
    .select [.client 0, .client 1], .round .null .ioException .ioException]

/-- Two connections, of which the first is echoed and closed. -/
def firstEchoed : List Action :=
  [.accept true, .accept true, .read 0 (.got [65, 66]), .write 0 true, .read 0 .eof]

/-- The same of a select loop. -/
def channelEchoed : List Nio.Action :=
  [.select [.server], .round .client .eof (.wrote 0), .round .null .eof (.wrote 0),
    .select [.server], .round .client .eof (.wrote 0), .round .null .eof (.wrote 0),
    .select [.client 0, .client 1], .round .null (.got [65, 66]) (.wrote 2),
    .round .null .eof (.wrote 0)]

theorem failures_stay_iff_echoed :
    (Nio.service Nio.java).Isolated Nio.Server.initial channelEchoed ∧
    service.Isolated Server.initial firstEchoed := by
  have hchannels : ∀ a ∈ channelEchoed, ∀ u, Nio.failing u a = none := by
    intro a ha u
    simp only [channelEchoed, List.mem_cons, List.not_mem_nil, or_false] at ha
    rcases ha with rfl | rfl | rfl | rfl | rfl | rfl | rfl | rfl | rfl
    all_goals first | rfl | exact Nio.failing_of_answer rfl u
  have hconns : ∀ a ∈ firstEchoed, ∀ u, failing u a = none := by
    intro a ha u
    simp only [firstEchoed, List.mem_cons, List.not_mem_nil, or_false] at ha
    rcases ha with rfl | rfl | rfl | rfl | rfl
    all_goals rfl
  have hboth := failures_stay_iff
    (show (Nio.nio Nio.java).exec Machine.free Nio.Server.initial channelEchoed = some _ from rfl)
    (show server.exec Machine.free Server.initial firstEchoed = some _ from rfl)
  exact ⟨hboth.1.mpr (Service.faultless_of_forall hchannels),
    hboth.2.mpr (Service.faultless_of_forall hconns)⟩

/-- When one of two clients is reset, none of the servers keeps that from the other. -/
theorem reset_ends_all :
    ¬ (Nio.service Nio.java).Isolated Nio.Server.initial channelReset ∧
    ¬ (Nio.service Nio.kotlin).Isolated Nio.Server.initial channelReset ∧
    ¬ service.Isolated Server.initial firstReset := by
  refine ⟨?_, ?_, ?_⟩
  · intro h
    have hno := (Nio.isolated_iff (p := Nio.java) rfl).mp h
    have hf := hno (channelReset.take 7) _ [] _ rfl rfl
    cases hf
  · intro h
    have hno := (Nio.isolated_iff (p := Nio.kotlin) rfl).mp h
    have hf := hno (channelReset.take 7) _ [] _ rfl rfl
    cases hf
  · intro h
    have hno := (isolated_iff rfl).mp h
    have hf := hno (firstReset.take 2) _ [] _ rfl rfl
    cases hf

end EchoBenchmark.Go
