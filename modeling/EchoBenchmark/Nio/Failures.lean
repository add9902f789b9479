import EchoBenchmark.Lib.Isolation
import EchoBenchmark.Nio.Server

/-!
An `IOException` of one channel leaves `main`, and with it every other channel.
-/

namespace EchoBenchmark.Nio

variable {p : Program} {s s' : Server} {act : Action} {c : ClientId}

/-- The read fails, or the write of what was read. -/
def ioException : ReadResult → WriteResult → Bool
  | .ioException, _ => true
  | .got _, .ioException => true
  | _, _ => false

/-- The open channel whose read or write fails in a step. -/
def failing (s : Server) : Action → Option ClientId
  | .round _ r w =>
    match s.pc with
    | .keys (.client c :: _) =>
      if (s.attachment c).isSome ∧ ioException r w then some c else none
    | _ => none
  | .select _ => none

theorem failing_of_answer {a : AcceptResult} {r : ReadResult} {w : WriteResult}
    (h : ioException r w = false) (s : Server) : failing s (.round a r w) = none := by
  simp only [failing, h, Bool.false_eq_true, and_false, if_false]
  split <;> rfl

/-- The end of the stream in place of the failure. -/
def closing : Action → List Action
  | .round a _ w => [.round a .eof w]
  | .select keys => [.select keys]

def Transfer.of (c : ClientId) : Transfer → Bool
  | .read j _ => j == c
  | .wrote j _ => j == c

/-- What there is of a server apart from one client: the buffers of the others, how many were
accepted, where `main` stands, and the transfers of the others. -/
def others (c : ClientId) (s : Server) :
    (ClientId → Option (Buffer UInt8)) × Nat × Pc × List Transfer :=
  (fun j => if j = c then none else s.attachment j, s.clients, s.pc,
    s.log.filter fun e => !e.of c)

/-- A select loop and its clients. -/
def service (p : Program) :
    Service Server Action ClientId
      ((ClientId → Option (Buffer UInt8)) × Nat × Pc × List Transfer) where
  toMachine := nio p
  fails := failing
  closing := closing
  serving s := s.pc ≠ .thrown
  others := others

/-- A failing step is a round for the key of a client with an open channel. -/
theorem round_of_failing (hf : failing s act = some c) : ∃ a r w rest b, act = .round a r w ∧
    s.pc = .keys (.client c :: rest) ∧ s.attachment c = some b ∧ ioException r w = true := by
  cases act with
  | select keys => cases hf
  | round a r w =>
    simp only [failing] at hf
    split at hf
    · rename_i c' rest hpc
      split at hf
      · rename_i h
        cases hf
        obtain ⟨b, hb⟩ := Option.isSome_iff_exists.mp h.1
        exact ⟨a, r, w, rest, b, rfl, hpc, hb, h.2⟩
      · cases hf
    · cases hf

/-- The exception leaves `main`. -/
theorem thrown_of_failing (hf : failing s act = some c) (hs : s.step p act = some s') :
    s'.pc = .thrown := by
  obtain ⟨a, r, w, rest, b, rfl, hpc, hb, hio⟩ := round_of_failing hf
  simp only [Server.step, Server.round, hpc, Server.readable, hb] at hs
  cases r with
  | eof => cases hio
  | ioException =>
    cases hs
    rfl
  | got bytes =>
    cases w with
    | wrote n => cases hio
    | ioException =>
      dsimp only at hs
      split at hs
      · cases hs
        rfl
      · cases hs

/-- The client could have closed instead. -/
theorem closes_of_failing (hf : failing s act = some c) :
    ∃ t, (nio p).exec Machine.free s (closing act) = some t := by
  obtain ⟨a, r, w, rest, b, rfl, hpc, hb, -⟩ := round_of_failing hf
  refine ⟨{ s with pc := .keys rest }.close c, ?_⟩
  simp [closing, Machine.exec, Machine.free, nio, Server.step, Server.round, hpc,
    Server.readable, hb]

/-- A run is isolated only if nothing fails in it. -/
theorem isolated_iff {as : List Action} {s₀ t : Server}
    (h : (nio p).exec Machine.free s₀ as = some t) :
    (service p).Isolated s₀ as ↔ (service p).Faultless s₀ as := by
  apply Service.isolated_iff_faultless
  · intro s a c s' hf hs hserving
    exact hserving (thrown_of_failing hf hs)
  · intro s a c s' hf _
    exact closes_of_failing hf
  · exact h

/-- After the failure no connection is served and none accepted. -/
theorem nothing_after_failure {as : List Action} (hf : failing s act = some c)
    (hs : s.step p act = some s') (hne : as ≠ []) : (nio p).exec Machine.free s' as = none := by
  have ht := thrown_of_failing hf hs
  cases as with
  | nil => exact (hne rfl).elim
  | cons b bs =>
    have hstuck : s'.step p b = none := by
      cases b with
      | select keys => simp [Server.step, ht]
      | round a r w => simp [Server.step, Server.round, ht]
    simp only [Machine.exec, nio, hstuck]
    split <;> rfl

end EchoBenchmark.Nio
