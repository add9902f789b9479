import EchoBenchmark.Go.Relayed

/-!
As long as no connection fails or ends, a goroutine of the Go server that has written what it read
comes to read again, whatever the pool has for it.
-/

namespace EchoBenchmark.Go.Pooled

/-- No connection fails, and no stream ends. -/
def unbroken : Action → Prop
  | .read _ (.got _) => True
  | .read _ .eof | .read _ .error => False
  | .write _ ok => ok = true
  | .accept _ | .get _ _ | .put _ | .collect _ => True

/-- Every connection that was accepted is served. -/
structure Unbroken (s : Pooled) : Prop where
  running : s.exited = none
  served : Relay.Served (· ≠ .closed) s.conns s.accepted

variable {s s' : Pooled} {a : Action} {c : ConnId} {b : UInt8} {buf : BufId} {n : Nat}

theorem Unbroken.read {r : ReadResult} (h : Unbroken s) (ha : unbroken (.read c r))
    (hs : s.onRead c buf r = some s') : Unbroken s' := by
  cases r with
  | got bytes =>
    simp only [onRead] at hs
    split at hs
    · cases hs
      exact ⟨h.running, h.served.update fun he => by cases he⟩
    · cases hs
  | eof | error => exact ha.elim

theorem unbroken_of_reachable (hr : pooled.Reachable (fun _ a => unbroken a) s) : Unbroken s := by
  apply hr.invariant
  · rintro s₀ rfl
    exact ⟨rfl, .zero⟩
  · intro s₀ a s₁ _ h ha hs
    obtain ⟨-, hd⟩ := does_of_step hs
    cases hd with
    | accept ok =>
      cases ok with
      | true => exact ⟨h.running, h.served.accept fun he => by cases he⟩
      | false => exact h
    | makes _ | takes _ _ | puts _ => exact ⟨h.running, h.served.update fun he => by cases he⟩
    | reads _ hread => exact h.read ha hread
    | writes ok _ =>
      obtain rfl : ok = true := ha
      exact ⟨h.running, h.served.update fun he => by cases he⟩
    | collects _ => exact ⟨h.running, h.served⟩

/-- The goroutine of connection `c` comes to read the byte. -/
def Attends (c : ConnId) (b : UInt8) : Pooled → Prop :=
  Sender.Attends sender pooled (fun _ a => unbroken a) (fun c s => readFrom c s.log) c b

theorem attends_read (hrun : s.exited = none) (hc : s.conns c = some (.read buf))
    (hsize : (s.mem buf).length = BUF_SIZE) : Attends c b s := by
  have hlen : [b].length ≤ (s.mem buf).length := by
    rw [hsize, List.length_singleton]
    decide
  have hs : s.step (.read c (.got [b])) = some { s.set c (.write buf [b].length) with
      mem := Function.update s.mem buf ([b] ++ (s.mem buf).drop [b].length)
      log := .read c [b] :: s.log } := by
    simp only [step, hrun, hc, onRead, if_pos hlen]
  refine .takes (a := .read c (.got [b])) trivial hs rfl ?_ fun j hj => ?_
  · simp [readFrom, Transfer.readFrom]
  · simp [readFrom, Transfer.readFrom, hj.symm]

/-- `New` makes a buffer when the pool has none. -/
theorem attends_get (hrun : s.exited = none) (hc : s.conns c = some .get) : Attends c b s := by
  have hs : s.step (.get c none) = some (s.new.set c (.read s.made)) := by
    simp only [step, hrun]
    exact if_pos hc
  have hread : (s.new.set c (.read s.made)).conns c = some (.read s.made) :=
    Function.update_self _ _ _
  refine .waits (a := .get c none) trivial hs (fun j hj => by cases hj) (fun _ => rfl)
    (attends_read hrun hread ?_)
  simp [new, set]

theorem attends_put (hrun : s.exited = none) (hc : s.conns c = some (.put buf)) :
    Attends c b s := by
  have hs : s.step (.put c) = some (s.put c buf) := by
    simp only [step, hrun, hc]
  exact .waits (a := .put c) trivial hs (fun j hj => by cases hj) (fun _ => rfl)
    (attends_get hrun (Function.update_self _ _ _))

theorem attends_write (hrun : s.exited = none) (hc : s.conns c = some (.write buf n)) :
    Attends c b s := by
  have hs : s.step (.write c true) = some (s.onWrite c buf n true) := by
    simp only [step, hrun, hc]
  have hput : (s.onWrite c buf n true).conns c = some (.put buf) := Function.update_self _ _ _
  refine .waits (a := .write c true) rfl hs (fun j hj => (Option.some.inj hj).symm) (fun j => ?_)
    (attends_put hrun hput)
  simp [onWrite, readFrom, Transfer.readFrom]

theorem attends_of_reachable (hr : pooled.Reachable (fun _ a => unbroken a) s) (c : ConnId)
    (b : UInt8) : Attends c b s := by
  refine Sender.attends_of_accepted Pooled.accepted (fun s hr hc => ?_) (fun s hr => ?_) hr
  · have h := unbroken_of_reachable hr
    have he := exclusive_of_reachable hr
    obtain ⟨p, hp, hopen⟩ := h.served c hc
    cases p with
    | get => exact attends_get h.running hp
    | read buf =>
      have hheld := he.held c buf (holds_of_conns hp rfl)
      exact attends_read h.running hp (he.size buf hheld)
    | write buf n => exact attends_write h.running hp
    | put buf => exact attends_put h.running hp
    | closed => exact (hopen rfl).elim
  · have hs : s.step (.accept true) = some (s.accept true) := by
      simp only [step, (unbroken_of_reachable hr).running]
    exact ⟨.accept true, _, trivial, hs, rfl, fun _ => rfl, rfl⟩

/-- As long as no connection fails or ends, the server goes on as a relay toward each of them. -/
theorem answers : Relay.Answers (sender.pieces pooled) (Sender.obeys fun _ a => unbroken a)
    (Relay.halfDuplex BUF_SIZE) (fun c s => readFrom c s.core.log) fun c s => s.out c := by
  have hkeeps : ∀ c, Relay.Keeps pooled (fun _ a => unbroken a) (Relay.halfDuplex BUF_SIZE)
      (fun s => readFrom c s.log) (sender.sent c) (sender.owes c) :=
    fun c => ((keeps c).of_abstraction abstraction).mono fun _ _ _ => trivial
  have hann : ∀ c, Sender.Announces sender pooled (fun _ a => unbroken a) c :=
    fun c => (announces c).mono fun _ _ _ => trivial
  have hattends : ∀ s c b, pooled.Reachable (fun _ a => unbroken a) s →
      Sender.Attends sender pooled (fun _ a => unbroken a) (fun c s => readFrom c s.log) c b s :=
    fun s c b hr => attends_of_reachable hr c b
  exact Sender.answers hkeeps hann (fun s c _ => ⟨s.toServer.owes c, rfl⟩) hattends

end EchoBenchmark.Go.Pooled
