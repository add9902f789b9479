import EchoBenchmark.Bench.Servers
import EchoBenchmark.Boost.Progress
import EchoBenchmark.Dotnet.Progress
import EchoBenchmark.Go.Progress
import EchoBenchmark.Streams.Progress

/-!
The tester writes all of its buffer before it reads any of it back, and a server with one buffer
reads no more before it has sent what it read. Connections hold `w₁` bytes toward the server and
`w₂` toward the client: what size of the buffer can the two sides still get through?
-/

namespace EchoBenchmark.Bench

variable {σ α β : Type*}

/-- There is room in the connections for what is put into them. -/
def fits (V : Served σ α β) (count w₁ w₂ : Nat) (s : State σ β) : Action α → Prop
  | .put id n => (s.put id).length + n ≤ (V.received id s.server).length + w₁
  | .server a => V.obeys s.server a ∧ ∀ u, V.machine.step s.server a = some u →
      ∀ id < count, (V.sent id u).length ≤ (s.got id).length + w₂
  | _ => True

/-- Beside that, no operation of the tester fails, and nothing stops it. -/
def goesOn (V : Served σ α β) (count w₁ w₂ : Nat) (s : State σ β) (act : Action α) : Prop :=
  fits V count w₁ w₂ s act ∧ ∀ a, act = .tester a → ∃ id, a = .complete id true

variable [DecidableEq β]

/-- Client `id` has an operation under way, and however the run goes on, no byte of it moves and it
does not end. -/
def Stuck (V : Served σ α β) (count w₁ w₂ : Nat) (data : List β) (s : State σ β) (id : Nat) :
    Prop :=
  s.tester.pending id ≠ .none ∧
    ∀ s', (bench V count data).Steps (goesOn V count w₁ w₂) s s' →
      s'.put id = s.put id ∧ s'.got id = s.got id ∧ s'.tester.pending id = s.tester.pending id

/-- As long as the tester runs, none of its clients is stuck. -/
def Lively (V : Served σ α β) (count w₁ w₂ : Nat) (data : List β) : Prop :=
  ∀ s, (bench V count data).Reachable (fits V count w₁ w₂) s → s.tester.phase = .run →
    ∀ id, ¬ Stuck V count w₁ w₂ data s id

variable {V : Served σ α β} {room : Relay.Room} {count w₁ w₂ id n : Nat} {data : List β}
  {s s' : State σ β} {act : Action α}

omit [DecidableEq β] in
theorem obeys_of_fits (h : fits V count w₁ w₂ s act) : obeys V s act := by
  cases act with
  | server a => exact h.1
  | tester a | put id n | get id n => trivial

theorem server_of_fits (hr : (bench V count data).Reachable (fits V count w₁ w₂) s) :
    V.machine.Reachable V.obeys s.server :=
  server_reachable (hr.mono fun _ _ => obeys_of_fits)

theorem reachable_of_goesOn (hr : (bench V count data).Reachable (fits V count w₁ w₂) s)
    (hsteps : (bench V count data).Steps (goesOn V count w₁ w₂) s s') :
    (bench V count data).Reachable (fits V count w₁ w₂) s' :=
  hr.steps (hsteps.mono fun _ _ h => h.1)

/-- The connections hold no more than they can. -/
structure Windows (V : Served σ α β) (count w₁ w₂ : Nat) (s : State σ β) : Prop where
  toServer : ∀ id < count, (s.put id).length ≤ (V.received id s.server).length + w₁
  toClient : ∀ id < count, (V.sent id s.server).length ≤ (s.got id).length + w₂

section Answering

variable (hans : Relay.Answers V.machine V.obeys room V.received V.sent)
  (hr : (bench V count data).Reachable (fits V count w₁ w₂) s)

include hans hr in
theorem windows_of_reachable : Windows V count w₁ w₂ s := by
  apply hr.invariant (I := Windows V count w₁ w₂)
  · rintro s₀ ⟨u, hu, rfl⟩
    refine ⟨fun id _ => Nat.zero_le _, fun id _ => ?_⟩
    have hnone : V.sent id (State.start count u : State σ β).server = [] :=
      ((hans.relays id).starts u hu).2
    rw [hnone]
    exact Nat.zero_le _
  · intro s₀ act s₁ hr₀ hw hfits hs
    cases acts_of_step hs with
    | handles _ _ | passes _ _ => exact ⟨hw.toServer, hw.toClient⟩
    | @puts j n _ _ _ =>
      refine ⟨fun id hid => ?_, hw.toClient⟩
      by_cases hj : id = j
      · subst hj
        have hle : (s₀.put id).length + n ≤ (V.received id s₀.server).length + w₁ := hfits
        simp only [State.wrote, Function.update_self, List.length_append, List.length_take]
        omega
      · simp only [State.wrote, Function.update_of_ne hj]
        exact hw.toServer id hid
    | @gets j n _ _ _ _ =>
      refine ⟨hw.toServer, fun id hid => (hw.toClient id hid).trans ?_⟩
      by_cases hj : id = j
      · subst hj
        simp [State.took, Nat.add_assoc]
      · simp [State.took, hj]
    | @serves a u hu _ =>
      refine ⟨fun id hid => (hw.toServer id hid).trans ?_, hfits.2 u hu⟩
      have hserver := server_of_fits hr₀
      have hgrows := (hans.relays id).grows hserver (Machine.Steps.refl.tail hfits.1 hu)
      exact Nat.add_le_add_right hgrows.1.length_le _

include hans hr in
theorem flow_of_answers : Flow V count data s :=
  flow_of_reachable (thins_of_isRelay hans.relays) (hr.mono fun _ _ => obeys_of_fits)

/-! ### What can be done -/

include hans hr in
/-- What the server can do by itself it can do here, if the connections hold what comes of it. -/
theorem steps_serve {u : σ} (hst : V.machine.Steps V.obeys s.server u)
    (hput : ∀ id < count, V.received id u <+: s.put id)
    (hwindow : ∀ id < count, (V.sent id u).length ≤ (s.got id).length + w₂) :
    (bench V count data).Steps (goesOn V count w₁ w₂) s { s with server := u } := by
  have hserver := server_of_fits hr
  have hflow := flow_of_answers hans hr
  induction hst with
  | refl => exact .refl
  | @tail m u hst hmove ih =>
    obtain ⟨a, hp, ha⟩ := hmove
    have hgrows := fun id =>
      (hans.relays id).grows (hserver.steps hst) (Machine.Steps.refl.tail hp ha)
    have hgot := fun id => (hans.relays id).grows hserver (Machine.Steps.tail hst hp ha)
    have hsteps := ih (fun id hid => (hgrows id).1.trans (hput id hid))
      fun id hid => (hgrows id).2.length_le.trans (hwindow id hid)
    have hcan : ∀ id < count, V.received id u <+: s.put id ∧ s.got id <+: V.sent id u :=
      fun id hid => ⟨hput id hid, (hflow.returned id hid).trans (hgot id).2⟩
    refine hsteps.tail (a := .server a) ⟨⟨hp, ?_⟩, fun _ he => by cases he⟩ ?_
    · intro u' hu'
      cases ha.symm.trans hu'
      exact hwindow
    · simp only [bench, State.step, State.serve, ha]
      exact if_pos hcan

include hans hr in
/-- What it does for one client asks nothing of the connections of the others. -/
theorem steps_serve_one {u : σ} (hst : V.machine.Steps V.obeys s.server u)
    (haside : Relay.Aside V.received V.sent id s.server u) (hput : V.received id u <+: s.put id)
    (hwindow : (V.sent id u).length ≤ (s.got id).length + w₂) :
    (bench V count data).Steps (goesOn V count w₁ w₂) s { s with server := u } := by
  have hflow := flow_of_answers hans hr
  have hw := windows_of_reachable hans hr
  refine steps_serve hans hr hst (fun j hj => ?_) fun j hj => ?_
  · by_cases hji : j = id
    · rw [hji]
      exact hput
    · rw [(haside j hji).1]
      exact hflow.arrived j hj
  · by_cases hji : j = id
    · rw [hji]
      exact hwindow
    · rw [(haside j hji).2]
      exact hw.toClient j hj

include hans hr in
/-- The server takes in the next byte of client `id`. -/
theorem exists_received (hid : id < count)
    (hroom : room ((V.received id s.server).length - (V.sent id s.server).length) 1)
    (hlt : (V.received id s.server).length < (s.put id).length) :
    ∃ u, (bench V count data).Steps (goesOn V count w₁ w₂) s { s with server := u } ∧
      (V.received id u).length = (V.received id s.server).length + 1 ∧
      V.sent id u = V.sent id s.server := by
  have hserver := server_of_fits hr
  have hflow := flow_of_answers hans hr
  have hw := windows_of_reachable hans hr
  obtain ⟨rest, hrest⟩ := hflow.arrived id hid
  cases rest with
  | nil =>
    rw [← hrest, List.append_nil] at hlt
    exact (Nat.lt_irrefl _ hlt).elim
  | cons b rest =>
    obtain ⟨u, hst, hi, ho, haside⟩ := hans.receives s.server id b hserver hroom
    have hput : V.received id u <+: s.put id := by
      rw [hi, ← hrest]
      exact ⟨rest, by simp⟩
    have hwindow : (V.sent id u).length ≤ (s.got id).length + w₂ := by
      rw [ho]
      exact hw.toClient id hid
    refine ⟨u, steps_serve_one hans hr hst haside hput hwindow, ?_, ho⟩
    rw [hi, List.length_append, List.length_singleton]

include hans hr in
/-- The server sends the next `n` bytes to client `id`. -/
theorem exists_sent (hid : id < count)
    (hle : (V.sent id s.server).length + n ≤ (V.received id s.server).length)
    (hwindow : (V.sent id s.server).length + n ≤ (s.got id).length + w₂) :
    ∃ u, (bench V count data).Steps (goesOn V count w₁ w₂) s { s with server := u } ∧
      V.received id u = V.received id s.server ∧
      (V.sent id u).length = (V.sent id s.server).length + n := by
  have hserver := server_of_fits hr
  have hflow := flow_of_answers hans hr
  obtain ⟨u, hst, hi, ho, haside⟩ := hans.sends s.server id n hserver hle
  have hput : V.received id u <+: s.put id := by
    rw [hi]
    exact hflow.arrived id hid
  exact ⟨u, steps_serve_one hans hr hst haside hput (by rw [ho]; exact hwindow), hi, ho⟩

end Answering

/-! ### Where a client is stuck -/

omit [DecidableEq β] in
theorem exists_complete (hp : s.tester.pending id ≠ .none) :
    ∃ t, s.tester.complete id true = some t := by
  unfold Tester.State.complete
  cases hop : s.tester.pending id with
  | none => exact (hp hop).elim
  | connect | write | read => exact ⟨_, rfl⟩

namespace Stuck

variable (hst : Stuck V count w₁ w₂ data s id)

include hst

/-- A client that is stuck stays so. -/
theorem steps (hsteps : (bench V count data).Steps (goesOn V count w₁ w₂) s s') :
    Stuck V count w₁ w₂ data s' id := by
  obtain ⟨hput, hgot, hpending⟩ := hst.2 s' hsteps
  refine ⟨by rw [hpending]; exact hst.1, fun s'' hsteps' => ?_⟩
  rw [hput, hgot, hpending]
  exact hst.2 s'' (hsteps.trans hsteps')

/-- Its operation cannot succeed. -/
theorem not_ready (hrun : s.tester.phase = .run) : ¬ s.ready data (.complete id true) := by
  intro hready
  obtain ⟨t, ht⟩ := exists_complete hst.1
  have hs : s.step V count data (.tester (.complete id true)) = some (s.handled id t) := by
    simp only [State.step, State.testerStep, if_pos hready, Tester.State.step, if_pos hrun, ht]
  have hgoes : goesOn V count w₁ w₂ s (.tester (.complete id true)) :=
    ⟨trivial, fun a he => ⟨id, (Action.tester.inj he).symm⟩⟩
  obtain ⟨-, -, hpending⟩ :=
    hst.2 _ (Machine.Steps.refl.tail (a := .tester (.complete id true)) hgoes hs)
  have hpending : t.pending id = s.tester.pending id := hpending
  cases handles_of_complete ht with
  | connected _ hp hnext _ | wrote _ hp hnext _ | read _ hp hnext _ =>
    rw [hnext, Function.update_self, hp] at hpending
    cases hpending
  | ends hp hnext _ =>
    rw [hnext, Function.update_self] at hpending
    exact hp hpending.symm

/-- No byte can be put into the connection. -/
theorem full (hrun : s.tester.phase = .run) (hp : s.tester.pending id = .write)
    (hlt : s.written id < data.length) :
    (V.received id s.server).length + w₁ ≤ (s.put id).length := by
  by_contra hroom
  have hle : (s.put id).length + 1 ≤ (V.received id s.server).length + w₁ := by omega
  have hgoes : goesOn V count w₁ w₂ s (.put id 1) := ⟨hle, fun _ he => by cases he⟩
  have hs : s.step V count data (.put id 1) = some (s.wrote data id 1) :=
    if_pos ⟨hrun, hp, Nat.one_pos, hlt⟩
  obtain ⟨hput, -, -⟩ := hst.2 _ (Machine.Steps.refl.tail (a := .put id 1) hgoes hs)
  have hlen := congrArg List.length hput
  simp only [State.wrote, Function.update_self, List.length_append, List.length_take,
    List.length_drop] at hlen
  omega

/-- No byte has come. -/
theorem empty (hrun : s.tester.phase = .run) (hp : s.tester.pending id = .read)
    (hlt : (s.buf id).length < data.length) :
    (V.sent id s.server).length ≤ (s.got id).length := by
  by_contra hsome
  have hunread : 1 ≤ (s.unread V id).length := by
    have hlen : (s.unread V id).length = (V.sent id s.server).length - (s.got id).length :=
      List.length_drop
    omega
  have hgoes : goesOn V count w₁ w₂ s (.get id 1) := ⟨trivial, fun _ he => by cases he⟩
  have hs : s.step V count data (.get id 1) = some (s.took id ((s.unread V id).take 1)) :=
    if_pos ⟨hrun, hp, Nat.one_pos, hunread, hlt⟩
  obtain ⟨-, hgot, -⟩ := hst.2 _ (Machine.Steps.refl.tail (a := .get id 1) hgoes hs)
  have hlen := congrArg List.length hgot
  simp only [State.took, Function.update_self, List.length_append, List.length_take] at hlen
  omega

section Answering

variable (hans : Relay.Answers V.machine V.obeys room V.received V.sent)
  (hr : (bench V count data).Reachable (fits V count w₁ w₂) s) (hrun : s.tester.phase = .run)
  (hroom : room 0 1) (hw₁ : 0 < w₁) (hw₂ : 0 < w₂)

include hans hr hrun hw₂ in
/-- What the server took in from a client that reads it has sent back. -/
theorem all_sent (hp : s.tester.pending id = .read) (hlt : (s.buf id).length < data.length) :
    (V.received id s.server).length ≤ (V.sent id s.server).length := by
  by_contra hmore
  have hflow := flow_of_answers hans hr
  have hid : id < count := hflow.lt_of_pending hst.1
  have hempty := hst.empty hrun hp hlt
  obtain ⟨u, hsteps, -, hlen⟩ := exists_sent (n := 1) hans hr hid (by omega) (by omega)
  have hempty' := (hst.steps hsteps).empty hrun hp hlt
  have hgot := (hflow.returned id hid).length_le
  dsimp only at hempty'
  omega

include hans hr hrun hroom hw₂ in
theorem not_reading : s.tester.pending id ≠ .read := by
  intro hp
  have hflow := flow_of_answers hans hr
  have hid : id < count := hflow.lt_of_pending hst.1
  have hready := hst.not_ready hrun
  have hplace := hflow.place id
  rw [State.ready, hp] at hready
  rw [State.inPlace, hp] at hplace
  cases hplace with
  | reading hput hgot hle =>
    have hlt : (s.buf id).length < data.length := Nat.lt_of_le_of_ne hle hready
    have hempty := hst.empty hrun hp hlt
    have hsent := hst.all_sent hans hr hrun hw₂ hp hlt
    -- bytes of the round are still on their way to the server
    have hless : (V.received id s.server).length < (s.put id).length := by
      have hputlen := congrArg List.length hput
      have hgotlen := congrArg List.length hgot
      rw [rounds_succ, List.length_append] at hputlen
      rw [List.length_append] at hgotlen
      omega
    have hzero : (V.received id s.server).length - (V.sent id s.server).length = 0 := by omega
    obtain ⟨u, hsteps, hlen, hsame⟩ :=
      exists_received hans hr hid (by rw [hzero]; exact hroom) hless
    have hsent' := (hst.steps hsteps).all_sent hans (reachable_of_goesOn hr hsteps) hrun hw₂ hp hlt
    dsimp only at hsent'
    rw [hsame] at hsent'
    have hsentle := ((hans.relays id).sent_isPrefix (server_of_fits hr)).length_le
    omega

include hans hr hrun hw₁ in
/-- The server has no room for another byte of a client that writes. -/
theorem not_room (hp : s.tester.pending id = .write) (hlt : s.written id < data.length) :
    ¬ room ((V.received id s.server).length - (V.sent id s.server).length) 1 := by
  intro hopen
  have hflow := flow_of_answers hans hr
  have hid : id < count := hflow.lt_of_pending hst.1
  have hfull := hst.full hrun hp hlt
  have hwindow := (windows_of_reachable hans hr).toServer id hid
  obtain ⟨u, hsteps, hlen, -⟩ := exists_received hans hr hid hopen (by omega)
  have hfull' := (hst.steps hsteps).full hrun hp hlt
  dsimp only at hfull'
  omega

include hans hr hrun hroom hw₁ hw₂ in
/-- A client can be stuck in the middle of a write only, and of one that is longer than both
directions of the connection and one byte in the server. -/
theorem writing : ¬ room ((V.received id s.server).length - (V.sent id s.server).length) 1 ∧
    w₁ + w₂ + 1 < data.length := by
  have hflow := flow_of_answers hans hr
  have hid : id < count := hflow.lt_of_pending hst.1
  have hready := hst.not_ready hrun
  have hplace := hflow.place id
  cases hp : s.tester.pending id with
  | none => exact (hst.1 hp).elim
  | connect =>
    rw [State.ready, hp] at hready
    exact (hready trivial).elim
  | read => exact (hst.not_reading hans hr hrun hroom hw₂ hp).elim
  | write =>
    rw [State.ready, hp] at hready
    rw [State.inPlace, hp] at hplace
    cases hplace with
    | writing hput hgot hle =>
      have hlt : s.written id < data.length := Nat.lt_of_le_of_ne hle hready
      refine ⟨hst.not_room hans hr hrun hw₁ hp hlt, ?_⟩
      by_contra hshort
      have hfull := hst.full hrun hp hlt
      have hwindow := (windows_of_reachable hans hr).toServer id hid
      have hputlen := congrArg List.length hput
      have hgotlen := congrArg List.length hgot
      rw [List.length_append, List.length_take] at hputlen
      have hsentle := ((hans.relays id).sent_isPrefix (server_of_fits hr)).length_le
      -- all that the server owes has room in the connection back
      obtain ⟨u, hsteps, hsame, hlen⟩ := exists_sent hans hr hid
        (n := (V.received id s.server).length - (V.sent id s.server).length) (by omega) (by omega)
      have hclosed :=
        (hst.steps hsteps).not_room hans (reachable_of_goesOn hr hsteps) hrun hw₁ hp hlt
      dsimp only at hclosed
      rw [hsame, hlen, show (V.received id s.server).length - ((V.sent id s.server).length +
        ((V.received id s.server).length - (V.sent id s.server).length)) = 0 by omega] at hclosed
      exact hclosed hroom

end Answering

end Stuck

/-! ### How a client gets stuck -/

/-- In its first round, client `0` has put `i` bytes into the connection, of which the server has
taken in `j` and sent back `k`. -/
structure Jam (V : Served σ α β) (s : State σ β) (i j k : Nat) : Prop where
  run : s.tester.phase = .run
  pending : s.tester.pending 0 = .write
  written : s.written 0 = i
  put : (s.put 0).length = i
  received : (V.received 0 s.server).length = j
  sent : (V.sent 0 s.server).length = k
  got : s.got 0 = []

/-- The benchmark gets there. -/
def Jams (V : Served σ α β) (count w₁ w₂ : Nat) (data : List β) (i j k : Nat) : Prop :=
  ∃ s, (bench V count data).Reachable (fits V count w₁ w₂) s ∧ Jam V s i j k

variable {i j k cap m : Nat}

theorem jams_connected (hans : Relay.Answers V.machine V.obeys room V.received V.sent)
    (hinit : ∃ u, V.machine.init u) (hcount : 0 < count) : Jams V count w₁ w₂ data 0 0 0 := by
  obtain ⟨u, hu⟩ := hinit
  have hp : (Tester.State.start count).pending 0 = .connect := if_pos hcount
  obtain ⟨t, ht, hrun, hwrite⟩ : ∃ t, (Tester.State.start count).step count (.complete 0 true) =
      some t ∧ t.phase = .run ∧ t.pending 0 = .write := by
    simp only [Tester.State.step, Tester.State.complete, hp]
    refine ⟨_, rfl, rfl, ?_⟩
    simp [Tester.State.onConnect, Tester.State.setPending, Tester.State.emit, Tester.State.start]
  let s₀ : State σ β := State.start count u
  have hr : (bench V count data).Reachable (fits V count w₁ w₂) s₀ := .start ⟨_, hu, rfl⟩
  have hready : s₀.ready data (.complete 0 true) := by
    have hp₀ : s₀.tester.pending 0 = .connect := hp
    rw [State.ready, hp₀]
    trivial
  have hs : s₀.step V count data (.tester (.complete 0 true)) = some (s₀.handled 0 t) := by
    have ht₀ : s₀.tester.step count (.complete 0 true) = some t := ht
    simp only [State.step, State.testerStep, if_pos hready, ht₀]
  obtain ⟨hi, ho⟩ := (hans.relays 0).starts u hu
  refine ⟨_, hr.step (a := .tester (.complete 0 true)) trivial hs, ?_⟩
  exact ⟨hrun, hwrite, by simp [State.handled], rfl, congrArg List.length hi,
    congrArg List.length ho, rfl⟩

namespace Jams

theorem put (h : Jams V count w₁ w₂ data i j k) (hn : 0 < n) (hi : i + n ≤ data.length)
    (hroom : i + n ≤ j + w₁) : Jams V count w₁ w₂ data (i + n) j k := by
  obtain ⟨s, hr, hjam⟩ := h
  have hfits : fits V count w₁ w₂ s (.put 0 n) := by
    have hle : (s.put 0).length + n ≤ (V.received 0 s.server).length + w₁ := by
      rw [hjam.put, hjam.received]
      exact hroom
    exact hle
  have hs : s.step V count data (.put 0 n) = some (s.wrote data 0 n) := by
    apply if_pos
    rw [hjam.written]
    exact ⟨hjam.run, hjam.pending, hn, hi⟩
  refine ⟨_, hr.step hfits hs, hjam.run, hjam.pending, ?_, ?_, hjam.received, hjam.sent, hjam.got⟩
  · simp [State.wrote, hjam.written]
  · simp only [State.wrote, Function.update_self, List.length_append, List.length_take,
      List.length_drop, hjam.written, hjam.put]
    omega

variable (hans : Relay.Answers V.machine V.obeys room V.received V.sent)

include hans

theorem receive (h : Jams V count w₁ w₂ data i j k) (hj : j < i) (hroom : room (j - k) 1) :
    Jams V count w₁ w₂ data i (j + 1) k := by
  obtain ⟨s, hr, hjam⟩ := h
  have hid : 0 < count := (flow_of_answers hans hr).lt_of_pending (by simp [hjam.pending])
  obtain ⟨u, hsteps, hlen, hsame⟩ := exists_received hans hr hid
    (by rw [hjam.received, hjam.sent]; exact hroom) (by rw [hjam.received, hjam.put]; exact hj)
  refine ⟨_, reachable_of_goesOn hr hsteps, hjam.run, hjam.pending, hjam.written, hjam.put, ?_, ?_,
    hjam.got⟩
  · rw [← hjam.received]
    exact hlen
  · rw [← hjam.sent]
    exact congrArg List.length hsame

theorem send (h : Jams V count w₁ w₂ data i j k) (hk : k < j) (hroom : k < w₂) :
    Jams V count w₁ w₂ data i j (k + 1) := by
  obtain ⟨s, hr, hjam⟩ := h
  have hid : 0 < count := (flow_of_answers hans hr).lt_of_pending (by simp [hjam.pending])
  obtain ⟨u, hsteps, hsame, hlen⟩ := exists_sent (n := 1) hans hr hid
    (by rw [hjam.received, hjam.sent]; exact hk)
    (by rw [hjam.sent, hjam.got, List.length_nil]; omega)
  refine ⟨_, reachable_of_goesOn hr hsteps, hjam.run, hjam.pending, hjam.written, hjam.put, ?_, ?_,
    hjam.got⟩
  · rw [← hjam.received]
    exact congrArg List.length hsame
  · rw [← hjam.sent]
    exact hlen

end Jams

section HalfDuplex

variable (hans : Relay.Answers V.machine V.obeys (Relay.halfDuplex cap) V.received V.sent)
  (hinit : ∃ u, V.machine.init u) (hcount : 0 < count) (hcap : 0 < cap) (hw₁ : 0 < w₁)

include hans hinit hcount hcap hw₁

/-- With one buffer, a byte can go all the way around while the connection back holds it. -/
theorem jams_around (hm : m ≤ w₂) (hle : m ≤ data.length) : Jams V count w₁ w₂ data m m m := by
  induction m with
  | zero => exact jams_connected hans hinit hcount
  | succ m ih =>
    have h := ih (by omega) (by omega)
    have hput := h.put (n := 1) Nat.one_pos hle (by omega)
    have hreceive := hput.receive hans (by omega) ⟨by omega, hcap⟩
    exact hreceive.send hans (by omega) (by omega)

/-- The connection back is full, the server has one byte to send, and the connection to it is full
as well. -/
theorem jams_full (hle : w₁ + w₂ + 1 ≤ data.length) :
    Jams V count w₁ w₂ data (w₂ + 1 + w₁) (w₂ + 1) w₂ := by
  have haround : Jams V count w₁ w₂ data w₂ w₂ w₂ :=
    jams_around hans hinit hcount hcap hw₁ (Nat.le_refl _) (by omega)
  have hput := haround.put (n := 1) Nat.one_pos (by omega) (by omega)
  have hreceive := hput.receive hans (by omega) ⟨by omega, hcap⟩
  exact hreceive.put hw₁ (by omega) (Nat.le_refl _)

omit hinit hcount hcap hw₁ in
/-- Nothing moves there any more. -/
theorem Jam.step (h : Jam V s (w₂ + 1 + w₁) (w₂ + 1) w₂) (hcount : 0 < count)
    (hlt : w₁ + w₂ + 1 < data.length)
    (hr : (bench V count data).Reachable (fits V count w₁ w₂) s)
    (hgoes : goesOn V count w₁ w₂ s act) (hs : s.step V count data act = some s') :
    Jam V s' (w₂ + 1 + w₁) (w₂ + 1) w₂ ∧ s'.put 0 = s.put 0 := by
  obtain ⟨hfits, hcalm⟩ := hgoes
  cases acts_of_step hs with
  | @handles id ok t hready ht =>
    obtain ⟨id', he⟩ := hcalm _ rfl
    cases he
    have hid : id ≠ 0 := by
      rintro rfl
      rw [State.ready, h.pending, h.written] at hready
      dsimp only at hready
      omega
    obtain ⟨-, hphase, -⟩ := Tester.complete_cases ht
    have hpending : t.pending 0 = s.tester.pending 0 := by
      cases handles_of_complete ht with
      | connected _ _ hnext _ | wrote _ _ hnext _ | read _ _ hnext _ | ends _ hnext _ =>
        rw [hnext, Function.update_of_ne hid.symm]
    refine ⟨⟨hphase.trans h.run, hpending.trans h.pending, ?_, h.put, h.received, h.sent, h.got⟩,
      rfl⟩
    exact (Function.update_of_ne hid.symm _ _).trans h.written
  | @passes a t hnot _ =>
    obtain ⟨id, he⟩ := hcalm a rfl
    exact (hnot _ _ he).elim
  | @puts id n _ hn _ =>
    have hid : id ≠ 0 := by
      rintro rfl
      have hle : (s.put 0).length + n ≤ (V.received 0 s.server).length + w₁ := hfits
      rw [h.put, h.received] at hle
      omega
    have hput : (s.wrote data id n).put 0 = s.put 0 := Function.update_of_ne hid.symm _ _
    refine ⟨⟨h.run, h.pending, ?_, by rw [hput]; exact h.put, h.received, h.sent, h.got⟩, hput⟩
    exact (Function.update_of_ne hid.symm _ _).trans h.written
  | @gets id n hp _ _ _ =>
    have hid : id ≠ 0 := by
      rintro rfl
      rw [h.pending] at hp
      cases hp
    refine ⟨⟨h.run, h.pending, h.written, h.put, h.received, h.sent, ?_⟩, rfl⟩
    exact (Function.update_of_ne hid.symm _ _).trans h.got
  | @serves a u hu _ =>
    have hserver := server_of_fits hr
    have hwindow := hfits.2 u hu 0 hcount
    rw [h.got, List.length_nil, Nat.zero_add] at hwindow
    have hmoves : V.received 0 u = V.received 0 s.server ∧
        (V.sent 0 u).length = (V.sent 0 s.server).length := by
      cases (hans.relays 0).changes s.server a u hserver hfits.1 (fun hn => hn) hu with
      | stays hi ho => exact ⟨hi, congrArg List.length ho⟩
      | @receives owed bytes heq hroom _ _ =>
        have hlen := congrArg List.length heq
        rw [List.length_append, h.received, h.sent, hroom.1] at hlen
        omega
      | @sends bytes owed _ hi ho =>
        refine ⟨hi, ?_⟩
        have hlen := congrArg List.length ho
        rw [List.length_append, h.sent] at hlen
        rw [h.sent]
        omega
    refine ⟨⟨h.run, h.pending, h.written, h.put, ?_, hmoves.2.trans h.sent, h.got⟩, rfl⟩
    rw [hmoves.1]
    exact h.received

omit hinit hcap hw₁ in
theorem stuck_of_jam (h : Jam V s (w₂ + 1 + w₁) (w₂ + 1) w₂) (hlt : w₁ + w₂ + 1 < data.length)
    (hr : (bench V count data).Reachable (fits V count w₁ w₂) s) :
    Stuck V count w₁ w₂ data s 0 := by
  refine ⟨by simp [h.pending], fun s' hsteps => ?_⟩
  obtain ⟨-, hjam, hput⟩ : (bench V count data).Reachable (fits V count w₁ w₂) s' ∧
      Jam V s' (w₂ + 1 + w₁) (w₂ + 1) w₂ ∧ s'.put 0 = s.put 0 := by
    apply hsteps.invariant (I := fun s' => (bench V count data).Reachable (fits V count w₁ w₂) s' ∧
      Jam V s' (w₂ + 1 + w₁) (w₂ + 1) w₂ ∧ s'.put 0 = s.put 0) ?_ ⟨hr, h, rfl⟩
    rintro s₁ act s₂ ⟨hr₁, hjam₁, hput₁⟩ hgoes hs
    obtain ⟨hjam₂, hput₂⟩ := hjam₁.step hans hcount hlt hr₁ hgoes hs
    exact ⟨hr₁.step hgoes.1 hs, hjam₂, hput₂.trans hput₁⟩
  exact ⟨hput, hjam.got.trans h.got.symm, hjam.pending.trans h.pending.symm⟩

/-- With one buffer, no client of the tester is ever stuck if and only if the test data has room in
the two directions of a connection and one byte in the server. -/
theorem lively_iff (hw₂ : 0 < w₂) :
    Lively V count w₁ w₂ data ↔ data.length ≤ w₁ + w₂ + 1 := by
  constructor
  · intro hlively
    by_contra hlong
    have hlt : w₁ + w₂ + 1 < data.length := Nat.lt_of_not_le hlong
    obtain ⟨s, hr, hjam⟩ := jams_full hans hinit hcount hcap hw₁ (Nat.le_of_lt hlt)
    exact hlively s hr hjam.run 0 (stuck_of_jam hans hcount hjam hlt hr)
  · intro hle s hr hrun id hst
    obtain ⟨-, hlt⟩ := hst.writing hans hr hrun ⟨rfl, hcap⟩ hw₁ hw₂
    omega

end HalfDuplex

/-- With room for whatever comes, no client is ever stuck. -/
theorem lively_of_eager (hans : Relay.Answers V.machine V.obeys Relay.eager V.received V.sent)
    (hw₁ : 0 < w₁) (hw₂ : 0 < w₂) : Lively V count w₁ w₂ data := by
  intro s hr hrun id hst
  exact (hst.writing hans hr hrun trivial hw₁ hw₂).1 trivial

/-! ### The servers -/

/-- The server under another guard. -/
def Served.under (V : Served σ α β) (p : σ → α → Prop) : Served σ α β := { V with obeys := p }

/-- Each client of the tester has a connection of its own, and no operation of the server fails or
finds the end of a stream. Then no client is ever stuck with the servers that have one buffer for
each of them if and only if the test data has room in the two directions of a connection and one
byte in the server; with those that take in whatever comes, no client ever is. -/
theorem never_stuck_iff {conn : Nat → Nat} (hconn : Function.Injective conn) (hcount : 0 < count)
    (hw₁ : 0 < w₁) (hw₂ : 0 < w₂) :
    (∀ data, Lively ((boost conn).under (Sender.obeys fun _ a => Boost.unbroken a)) count w₁ w₂
      data ↔ data.length ≤ w₁ + w₂ + 1) ∧
    (∀ data, Lively ((boostCoro conn).under (Sender.obeys fun _ a => Boost.unbroken a)) count w₁ w₂
      data ↔ data.length ≤ w₁ + w₂ + 1) ∧
    (∀ data, Lively ((go conn).under (Sender.obeys fun _ a => Go.Pooled.unbroken a)) count w₁ w₂
      data ↔ data.length ≤ w₁ + w₂ + 1) ∧
    (∀ data, Lively ((dotnet conn).under (Sender.obeys fun _ a => Dotnet.unbroken a)) count w₁ w₂
      data ↔ data.length ≤ w₁ + w₂ + 1) ∧
    ∀ p data, Lively ((streams conn p).under fun _ a => Streams.unbroken a) count w₁ w₂ data := by
  refine ⟨fun data => ?_, fun data => ?_, fun data => ?_, fun data => ?_, fun p data => ?_⟩
  · exact lively_iff (Boost.answers.comp hconn)
      ⟨⟨Boost.Server.start fun _ => '0', fun _ => []⟩, ⟨_, rfl⟩, rfl⟩ hcount (by decide) hw₁ hw₂
  · exact lively_iff (Boost.Coroutine.answers.comp hconn)
      ⟨⟨Boost.Coroutine.Server.new.asyncAccept fun _ => '0', fun _ => []⟩, ⟨_, rfl⟩, rfl⟩ hcount
      (by decide) hw₁ hw₂
  · exact lively_iff (Go.Pooled.answers.comp hconn)
      ⟨⟨Go.Pooled.initial, fun _ => []⟩, rfl, rfl⟩ hcount (by decide) hw₁ hw₂
  · exact lively_iff (Dotnet.answers.comp hconn)
      ⟨⟨Dotnet.Server.initial, fun _ => []⟩, rfl, rfl⟩ hcount (by decide) hw₁ hw₂
  · exact lively_of_eager ((Streams.answers p).comp hconn) hw₁ hw₂

/-- With one byte in each direction, three bytes come back from the .NET server, and four do not
always. -/
theorem never_stuck_iff_fourBytes :
    Lively ((dotnet fun c => c).under (Sender.obeys fun _ a => Dotnet.unbroken a)) 1 1 1
        [49, 50, 51] ∧
      ¬ Lively ((dotnet fun c => c).under (Sender.obeys fun _ a => Dotnet.unbroken a)) 1 1 1
        [49, 50, 51, 52] := by
  have hone : 0 < 1 := Nat.one_pos
  obtain ⟨-, -, -, hdotnet, -⟩ := never_stuck_iff Function.injective_id hone hone hone
  exact ⟨(hdotnet _).mpr (by decide), fun h => absurd ((hdotnet _).mp h) (by decide)⟩

end EchoBenchmark.Bench
