import EchoBenchmark.Dotnet.Server
import EchoBenchmark.Lib.Isolation

/-!
In the .NET server an exception that a `catch` clause names stays with its client; any other one
ends the process, and so does one of `GetStream`.
-/

namespace EchoBenchmark.Dotnet

variable {s s' u u' : Server} {a : Action} {c d : ClientId} {t : Task} {as : List Action}

/-- The client whose operation fails in a step. -/
def failing (s : Server) : Action → Option ClientId
  | .getStream c false => if s.tasks c = some .start then some c else none
  | .read c (.throws _) =>
    match s.tasks c with
    | some (.reading _) => some c
    | _ => none
  | .write c (.throws _) =>
    match s.tasks c with
    | some (.writing _ _) => some c
    | _ => none
  | _ => none

/-- The end of the stream in place of the failure. -/
def closing : Action → List Action
  | .getStream c _ => [.getStream c true, .read c (.bytes [])]
  | .read c _ => [.read c (.bytes [])]
  | .write c _ => [.write c .done, .read c (.bytes [])]
  | .accept ok => [.accept ok]

def Event.of (c : ClientId) : Event → Bool
  | .read j _ | .wrote j _ | .closed j => j == c

/-- What there is of the server apart from one client. -/
def others (c : ClientId) (s : Server) : (ClientId → Option Task) × Nat × Bool × List Event :=
  (fun j => if j = c then none else s.tasks j, s.accepted, s.crashed, s.log.filter fun e => !e.of c)

/-- The server and its clients. -/
def service :
    Service Server Action ClientId ((ClientId → Option Task) × Nat × Bool × List Event) where
  toMachine := server
  fails := failing
  closing := closing
  serving s := s.crashed = false
  others := others

/-- The exception is one of those that a `catch` clause of `AsyncTcpProcess` names. -/
def harmless (_ : Server) : Action → Prop
  | .read _ (.throws e) | .write _ (.throws e) => e.caught = true
  | _ => False

instance (s : Server) (a : Action) : Decidable (harmless s a) := by
  unfold harmless
  split <;> infer_instance

/-! ### Two servers that differ in the history of one client -/

/-- Client `c` is done in both, and all else is the same but for entries about it. -/
structure Alike (c : ClientId) (s u : Server) : Prop where
  tasks : s.tasks = u.tasks
  done : s.tasks c = some .done
  below : c < s.accepted
  accepted : s.accepted = u.accepted
  crashed : s.crashed = u.crashed
  log : s.log.filter (fun e => !e.of c) = u.log.filter fun e => !e.of c

theorem Alike.others_eq (h : Alike c s u) : others c s = others c u := by
  rw [others, others, h.tasks, h.accepted, h.crashed, h.log]

/-- The task of another client goes on in both. -/
theorem Alike.goesOn (h : Alike c s u) (hd : d ≠ c)
    (hs : s'.tasks = Function.update s.tasks d (some t))
    (hu : u'.tasks = Function.update u.tasks d (some t)) (hbelow : c < s'.accepted)
    (haccepted : s'.accepted = u'.accepted)
    (hcrashed : s'.crashed = u'.crashed)
    (hlog : s'.log.filter (fun e => !e.of c) = u'.log.filter fun e => !e.of c) :
    Alike c s' u' where
  tasks := by rw [hs, hu, h.tasks]
  done := by
    rw [hs, Function.update_of_ne fun he => hd he.symm]
    exact h.done
  below := hbelow
  accepted := haccepted
  crashed := hcrashed
  log := hlog

theorem Alike.cons (h : Alike c s u) (e : Event) :
    (e :: s.log).filter (fun e => !e.of c) = (e :: u.log).filter fun e => !e.of c := by
  rw [List.filter_cons, List.filter_cons, h.log]

theorem Alike.crash (h : Alike c s u) : Alike c s.crash u.crash :=
  ⟨h.tasks, h.done, h.below, h.accepted, rfl, h.log⟩

theorem Alike.finally (h : Alike c s u) (hd : d ≠ c) : Alike c (s.finally d) (u.finally d) :=
  h.goesOn (t := .done) hd rfl rfl h.below h.accepted h.crashed (h.cons _)

theorem Alike.catch (h : Alike c s u) (hd : d ≠ c) (e : Exception) :
    Alike c (s.catch d e) (u.catch d e) := by
  unfold Server.catch
  split
  · exact h.finally hd
  · exact (h.finally hd).crash

/-- A client with a task to do is another one. -/
theorem Alike.ne (h : Alike c s u) (hd : s.tasks d = some t) (ht : t ≠ .done) : d ≠ c := by
  rintro rfl
  exact ht (Option.some.inj (hd.symm.trans h.done))

theorem Alike.onRead (h : Alike c s u) (hd : d ≠ c) (buff : List UInt8) (r : ReadResult) :
    Option.Rel (Alike c) (s.onRead d buff r) (u.onRead d buff r) := by
  cases r with
  | bytes bytes =>
    simp only [Server.onRead]
    split
    · split
      · exact .some (h.finally hd)
      · exact .some (h.goesOn (t := .writing (bytes ++ buff.drop bytes.length) bytes.length) hd rfl
          rfl h.below h.accepted h.crashed (h.cons _))
    · exact .none
  | throws e => exact .some (h.catch hd e)

theorem Alike.onWrite (h : Alike c s u) (hd : d ≠ c) (buff : List UInt8) (n : Nat)
    (r : WriteResult) : Alike c (s.onWrite d buff n r) (u.onWrite d buff n r) := by
  cases r with
  | done =>
    exact h.goesOn (t := .reading buff) hd rfl rfl h.below h.accepted h.crashed (h.cons _)
  | throws e => exact h.catch hd e

theorem Alike.accept (h : Alike c s u) (ok : Bool) : Alike c (s.accept ok) (u.accept ok) := by
  cases ok with
  | true =>
    have hu : (u.accept true).tasks = Function.update u.tasks s.accepted (some .start) := by
      rw [h.accepted]
      rfl
    exact h.goesOn (t := .start) (Nat.ne_of_gt h.below) rfl hu (Nat.lt_succ_of_lt h.below)
      (congrArg (· + 1) h.accepted) h.crashed h.log
  | false => exact h.crash

theorem Alike.getStream (h : Alike c s u) (hd : d ≠ c) (ok : Bool) :
    Alike c (s.getStream d ok) (u.getStream d ok) := by
  cases ok with
  | true =>
    exact h.goesOn (t := .reading (List.replicate MAX_SIZE 0)) hd rfl rfl h.below h.accepted
      h.crashed h.log
  | false => exact h.crash

/-- From servers that are alike, the same goes on. -/
theorem bisimulation (c : ClientId) :
    Machine.Bisimulation server Machine.free server Machine.free (Alike c) where
  guards _ _ _ _ := Iff.rfl
  steps s u a h _ := by
    simp only [server, Server.step, ← h.tasks, ← h.crashed]
    cases s.crashed with
    | true => exact .none
    | false =>
      cases a with
      | accept ok => exact .some (h.accept ok)
      | getStream d ok =>
        dsimp only
        split
        · rename_i htask
          exact .some (h.getStream (h.ne htask nofun) ok)
        · exact .none
      | read d r =>
        dsimp only
        split
        · rename_i buff htask
          exact h.onRead (h.ne htask nofun) buff r
        · exact .none
      | write d r =>
        dsimp only
        split
        · rename_i buff n htask
          exact .some (h.onWrite (h.ne htask nofun) buff n r)
        · exact .none

/-! ### Which failures stay with their client -/

/-- What fails, and where the task stood. -/
theorem operation_of_failing (hf : failing s a = some c) :
    (a = .getStream c false ∧ s.tasks c = some .start) ∨
    (∃ buff e, a = .read c (.throws e) ∧ s.tasks c = some (.reading buff)) ∨
    ∃ buff n e, a = .write c (.throws e) ∧ s.tasks c = some (.writing buff n) := by
  unfold failing at hf
  split at hf
  · split at hf
    · rename_i htask
      cases hf
      exact .inl ⟨rfl, htask⟩
    · cases hf
  · split at hf
    · rename_i buff htask
      cases hf
      exact .inr (.inl ⟨buff, _, rfl, htask⟩)
    · cases hf
  · split at hf
    · rename_i buff n htask
      cases hf
      exact .inr (.inr ⟨buff, n, _, rfl, htask⟩)
    · cases hf
  · cases hf

/-- The client could have closed instead. -/
theorem closes_of_failing (hf : failing s a = some c) (hs : s.step a = some s') :
    ∃ t, server.exec Machine.free s (closing a) = some t := by
  have hc := (does_of_step hs).1
  rcases operation_of_failing hf with ⟨rfl, htask⟩ | ⟨buff, e, rfl, htask⟩ |
    ⟨buff, n, e, rfl, htask⟩
  · refine ⟨(s.set c (.reading (List.replicate MAX_SIZE 0))).finally c, ?_⟩
    simp [closing, Machine.exec, Machine.free, server, Server.step, hc, htask, Server.getStream,
      Server.set, Server.onRead]
  · refine ⟨s.finally c, ?_⟩
    simp [closing, Machine.exec, Machine.free, server, Server.step, hc, htask, Server.onRead]
  · refine ⟨({ s.set c (.reading buff) with
      log := .wrote c (buff.take n) :: s.log } : Server).finally c, ?_⟩
    simp [closing, Machine.exec, Machine.free, server, Server.step, hc, htask, Server.onRead,
      Server.onWrite, Server.set]

/-- The task ends in both, after the same but for what concerns its client. -/
theorem alike_finally (hk : Kept s) (hc : s.tasks c = some t)
    (htasks : ∀ d, d ≠ c → u.tasks d = s.tasks d) (haccepted : s.accepted = u.accepted)
    (hcrashed : s.crashed = u.crashed)
    (hlog : s.log.filter (fun e => !e.of c) = u.log.filter fun e => !e.of c) :
    Alike c (s.finally c) (u.finally c) where
  tasks := by
    funext d
    by_cases hd : d = c
    · simp [Server.finally, Server.set, hd]
    · simp [Server.finally, Server.set, hd, htasks d hd]
  done := Function.update_self _ _ _
  below := hk.lt hc
  accepted := haccepted
  crashed := hcrashed
  log := by
    have hof : (!(Event.closed c).of c) = false := by simp [Event.of]
    simp only [Server.finally, List.filter_cons, hof]
    exact hlog

theorem contained_of_harmless (hk : Kept s) (hf : failing s a = some c) (hh : harmless s a) :
    service.Contained s a c := by
  apply Service.contained_of_bisimulation (bisimulation c) fun _ _ h => h.others_eq
  intro s' v hs hv
  have hs : s.step a = some s' := hs
  have hc := (does_of_step hs).1
  rcases operation_of_failing hf with ⟨rfl, htask⟩ | ⟨buff, e, rfl, htask⟩ |
    ⟨buff, n, e, rfl, htask⟩
  · exact hh.elim
  · have hcaught : e.caught = true := hh
    simp only [Server.step, hc, htask, Server.onRead, Server.catch, hcaught, if_true] at hs
    simp [service, closing, Machine.exec, Machine.free, server, Server.step, hc, htask,
      Server.onRead] at hv
    rw [← Option.some.inj hs, ← hv]
    exact ⟨hc, alike_finally hk htask (fun _ _ => rfl) rfl rfl rfl⟩
  · have hcaught : e.caught = true := hh
    simp only [Server.step, hc, htask, Server.onWrite, Server.catch, hcaught, if_true] at hs
    simp [service, closing, Machine.exec, Machine.free, server, Server.step, hc, htask,
      Server.onRead, Server.onWrite, Server.set] at hv
    rw [← Option.some.inj hs, ← hv]
    refine ⟨hc, alike_finally hk htask (fun d hd => Function.update_of_ne hd _ _) rfl hc ?_⟩
    simp [Event.of]

theorem crashed_of_harmful (hf : failing s a = some c) (hh : ¬ harmless s a)
    (hs : s.step a = some s') : s'.crashed = true := by
  have hc := (does_of_step hs).1
  rcases operation_of_failing hf with ⟨rfl, htask⟩ | ⟨buff, e, rfl, htask⟩ |
    ⟨buff, n, e, rfl, htask⟩
  · simp only [Server.step, hc, htask, if_true] at hs
    cases hs
    rfl
  · have hcaught : ¬ e.caught = true := hh
    simp only [Server.step, hc, htask, Server.onRead, Server.catch, if_neg hcaught] at hs
    cases hs
    rfl
  · have hcaught : ¬ e.caught = true := hh
    simp only [Server.step, hc, htask, Server.onWrite, Server.catch, if_neg hcaught] at hs
    cases hs
    rfl

/-- The failures of a run stay with their clients if and only if each of them is an exception that a
`catch` clause names. -/
theorem isolated_iff_caught (h : server.exec Machine.free Server.initial as = some s) :
    service.Isolated Server.initial as ↔
      ∀ pre a post u c, as = pre ++ a :: post →
        server.exec Machine.free Server.initial pre = some u → failing u a = some c →
        harmless u a := by
  apply Service.isolated_iff_harmless (V := service)
  · intro u a c hst hf hh
    have hr : server.Reachable Machine.free u := ⟨_, rfl, hst⟩
    exact contained_of_harmless (kept_of_reachable hr) hf hh
  · intro u a c u' hf hh hs hserving
    have hrunning : u'.crashed = false := hserving
    rw [crashed_of_harmful hf hh hs] at hrunning
    cases hrunning
  · intro u a c u' hf hs
    exact closes_of_failing hf hs
  · exact h

/-- Of two clients the first is reset, and then an exception that is not caught hits the second. -/
def resetThenOther : List Action :=
  [.accept true, .accept true, .getStream 0 true, .getStream 1 true, .read 0 (.throws .io),
    .read 1 (.throws .other)]

/-- Two clients that are both reset. -/
def bothReset : List Action :=
  [.accept true, .accept true, .getStream 0 true, .getStream 1 true, .read 0 (.throws .io),
    .read 1 (.throws .objectDisposed)]

theorem isolated_iff_caught_bothReset :
    service.Isolated Server.initial bothReset ∧
      ¬ service.Isolated Server.initial resetThenOther := by
  constructor
  · refine (isolated_iff_caught rfl).mpr ?_
    intro pre a post u c has _ hf
    have ha : a ∈ bothReset := by rw [has]; simp
    simp only [bothReset, List.mem_cons, List.not_mem_nil, or_false] at ha
    rcases ha with rfl | rfl | rfl | rfl | rfl | rfl
    · cases hf
    · cases hf
    · cases hf
    · cases hf
    · exact rfl
    · exact rfl
  · intro hiso
    have hall := (isolated_iff_caught rfl).mp hiso
    have hharmless := hall (resetThenOther.take 5) (.read 1 (.throws .other)) [] _ 1 rfl rfl rfl
    cases hharmless

end EchoBenchmark.Dotnet
