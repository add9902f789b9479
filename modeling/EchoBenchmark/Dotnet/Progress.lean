import EchoBenchmark.Dotnet.Server

/-!
As long as nothing fails, a task of the .NET server that has written what it read comes to read
again.
-/

namespace EchoBenchmark.Dotnet

/-- No operation fails, and no stream ends. -/
def unbroken : Action → Prop
  | .accept ok | .getStream _ ok => ok = true
  | .read _ (.bytes bytes) => bytes ≠ []
  | .write _ .done => True
  | .read _ (.throws _) | .write _ (.throws _) => False

/-- Every client that was accepted is served. -/
structure Unbroken (s : Server) : Prop where
  running : s.crashed = false
  served : Relay.Served (· ≠ .done) s.tasks s.accepted

variable {s s' : Server} {a : Action} {c : ClientId} {b : UInt8} {buff : List UInt8} {n : Nat}

theorem unbroken_of_reachable (hr : server.Reachable (fun _ a => unbroken a) s) : Unbroken s := by
  apply hr.invariant
  · rintro s₀ rfl
    exact ⟨rfl, .zero⟩
  · intro s₀ a s₁ _ h ha hs
    obtain ⟨-, hd⟩ := does_of_step hs
    cases hd with
    | accept ok =>
      obtain rfl : ok = true := ha
      exact ⟨h.running, h.served.accept fun he => by cases he⟩
    | getStream ok _ =>
      obtain rfl : ok = true := ha
      exact ⟨h.running, h.served.update fun he => by cases he⟩
    | reads _ _ _ | writes _ => exact ⟨h.running, h.served.update fun he => by cases he⟩
    | ends _ => exact (ha rfl).elim
    | readThrows e _ | writeThrows e _ => exact ha.elim

/-- The task of client `c` comes to read the byte. -/
def Attends (c : ClientId) (b : UInt8) : Server → Prop :=
  Sender.Attends sender server (fun _ a => unbroken a) (fun c s => readFrom c s.log) c b

theorem attends_reading (hrun : s.crashed = false) (hc : s.tasks c = some (.reading buff))
    (hsize : buff.length = MAX_SIZE) : Attends c b s := by
  have hlen : [b].length ≤ buff.length := by
    rw [hsize, List.length_singleton]
    decide
  have hs : s.step (.read c (.bytes [b])) = some
      { s.set c (.writing ([b] ++ buff.drop [b].length) [b].length) with
        log := .read c [b] :: s.log } := by
    simp only [Server.step, hrun, hc, Server.onRead, if_pos hlen]
    rfl
  refine .takes (a := .read c (.bytes [b])) (List.cons_ne_nil _ _) hs rfl ?_ fun j hj => ?_
  · simp [readFrom, Event.readFrom]
  · simp [readFrom, Event.readFrom, hj.symm]

theorem attends_writing (hrun : s.crashed = false) (hc : s.tasks c = some (.writing buff n))
    (hsize : buff.length = MAX_SIZE) : Attends c b s := by
  have hs : s.step (.write c .done) = some
      { s.set c (.reading buff) with log := .wrote c (buff.take n) :: s.log } := by
    simp only [Server.step, hrun, hc, Server.onWrite]
  have hread : (s.set c (.reading buff)).tasks c = some (.reading buff) :=
    Function.update_self _ _ _
  refine .waits (a := .write c .done) trivial hs (fun j hj => (Option.some.inj hj).symm)
    (fun j => ?_) (attends_reading hrun hread hsize)
  simp [readFrom, Event.readFrom]

theorem attends_start (hrun : s.crashed = false) (hc : s.tasks c = some .start) :
    Attends c b s := by
  have hs : s.step (.getStream c true) = some (s.getStream c true) := by
    simp only [Server.step, hrun]
    exact if_pos hc
  exact .waits (a := .getStream c true) rfl hs (fun j hj => by cases hj) (fun _ => rfl)
    (attends_reading hrun (Function.update_self _ _ _) List.length_replicate)

theorem attends_of_reachable (hr : server.Reachable (fun _ a => unbroken a) s) (c : ClientId)
    (b : UInt8) : Attends c b s := by
  refine Sender.attends_of_accepted Server.accepted (fun s hr hc => ?_) (fun s hr => ?_) hr
  · have h := unbroken_of_reachable hr
    have hk := kept_of_reachable hr
    obtain ⟨t, ht, hdone⟩ := h.served c hc
    cases t with
    | start => exact attends_start h.running ht
    | reading buff => exact attends_reading h.running ht (hk.sized c _ ht)
    | writing buff n => exact attends_writing h.running ht (hk.sized c _ ht)
    | done => exact (hdone rfl).elim
  · have hs : s.step (.accept true) = some (s.accept true) := by
      simp only [Server.step, (unbroken_of_reachable hr).running]
    exact ⟨.accept true, _, rfl, hs, rfl, fun _ => rfl, rfl⟩

/-- As long as nothing fails, the server goes on as a relay toward each client. -/
theorem answers : Relay.Answers (sender.pieces server) (Sender.obeys fun _ a => unbroken a)
    (Relay.halfDuplex MAX_SIZE) (fun c s => readFrom c s.core.log) fun c s => s.out c := by
  have hkeeps : ∀ c, Relay.Keeps server (fun _ a => unbroken a) (Relay.halfDuplex MAX_SIZE)
      (fun s => readFrom c s.log) (sender.sent c) (sender.owes c) :=
    fun c => (keeps c).mono fun _ _ _ => trivial
  have hann : ∀ c, Sender.Announces sender server (fun _ a => unbroken a) c :=
    fun c => (announces c).mono fun _ _ _ => trivial
  have hserves : ∀ s c, server.Reachable (fun _ a => unbroken a) s →
      ∃ rest, sender.owes c s = some rest := by
    intro s c hr
    by_cases hc : c < s.accepted
    · obtain ⟨t, ht, hdone⟩ := (unbroken_of_reachable hr).served c hc
      have howes : s.owes c = t.owes := owes_of_tasks ht
      cases t with
      | done => exact (hdone rfl).elim
      | start | reading buff | writing buff n => exact ⟨_, howes⟩
    · have hnone := (kept_of_reachable hr).fresh c (Nat.le_of_not_lt hc)
      exact ⟨[], by simp [sender, Server.owes, hnone]⟩
  have hattends : ∀ s c b, server.Reachable (fun _ a => unbroken a) s →
      Sender.Attends sender server (fun _ a => unbroken a) (fun c s => readFrom c s.log) c b s :=
    fun s c b hr => attends_of_reachable hr c b
  exact Sender.answers hkeeps hann hserves hattends

end EchoBenchmark.Dotnet
