import EchoBenchmark.Bench.Session

/-!
Where the bytes of a client are in the course of its rounds, and why the tester may be believed: at
each end of a connection arrives a beginning of what the other end put in, and a server adds
nothing.
-/

namespace EchoBenchmark.Bench

open Tester (Pending)

section Rounds

variable {β : Type*} {data put got buf : List β} {k w w' : Nat} {buf' : List β} {p : Pending}

/-- What a client has put in and taken out in `k` rounds. -/
def rounds (data : List β) (k : Nat) : List β := (List.replicate k data).flatten

theorem rounds_succ (data : List β) (k : Nat) : rounds data (k + 1) = rounds data k ++ data := by
  rw [rounds, List.replicate_succ', List.flatten_append]
  simp [rounds]

theorem length_rounds (data : List β) (k : Nat) : (rounds data k).length = k * data.length := by
  simp [rounds]

/-- Where a client is in its round `k + 1`. -/
inductive Place (data : List β) (k : Nat) (put got : List β) (written : Nat) (buf : List β) :
    Pending → Prop
  | connecting : put = [] → got = [] → k = 0 → Place data k put got written buf .connect
  | writing : put = rounds data k ++ data.take written → got = rounds data k →
      written ≤ data.length → Place data k put got written buf .write
  | reading : put = rounds data (k + 1) → got = rounds data k ++ buf → buf.length ≤ data.length →
      Place data k put got written buf .read
  | gone : put <+: rounds data (k + 1) → rounds data k <+: got →
      Place data k put got written buf .none

namespace Place

/-- A client with an operation may end in the middle of it. -/
theorem ends (h : Place data k put got w buf p) (hp : p ≠ .none) :
    Place data k put got w' buf' .none := by
  cases h with
  | connecting hput hgot hk =>
    rw [hput, hgot, hk]
    exact .gone List.nil_prefix List.nil_prefix
  | writing hput hgot hw =>
    rw [hput, hgot]
    apply Place.gone
    · rw [rounds_succ]
      exact (List.prefix_append_right_inj _).mpr (List.take_prefix _ _)
    · exact List.prefix_refl _
  | reading hput hgot _ =>
    rw [hput, hgot]
    exact .gone (List.prefix_refl _) (List.prefix_append _ _)
  | gone _ _ => exact (hp rfl).elim

/-- A client never puts in more than one buffer beyond what it has taken out. -/
theorem length_put_le (h : Place data k put got w buf p) :
    put.length ≤ got.length + data.length := by
  cases h with
  | connecting hput _ _ =>
    rw [hput]
    exact Nat.zero_le _
  | writing hput hgot hw =>
    rw [hput, hgot, List.length_append, List.length_take]
    omega
  | reading hput hgot _ =>
    rw [hput, hgot, rounds_succ, List.length_append, List.length_append]
    omega
  | gone hput hgot =>
    have hle := hput.length_le
    have hge := hgot.length_le
    rw [rounds_succ, List.length_append] at hle
    omega

theorem put_isPrefix (h : Place data k put got w buf p) : put <+: rounds data (k + 1) := by
  cases h with
  | connecting hput _ _ =>
    rw [hput]
    exact List.nil_prefix
  | writing hput _ _ =>
    rw [hput, rounds_succ]
    exact (List.prefix_append_right_inj _).mpr (List.take_prefix _ _)
  | reading hput _ _ =>
    rw [hput]
  | gone hput _ => exact hput

/-- A full buffer, of which no byte comes from elsewhere, holds what was written. -/
theorem buf_eq (h : Place data k put got w buf .read) (hsame : got.Sublist put)
    (hfull : buf.length = data.length) : buf = data := by
  cases h with
  | reading hput hgot _ =>
    have hlen : got.length = put.length := by
      rw [hput, hgot, rounds_succ, List.length_append, List.length_append, hfull]
    have heq : got = put := hsame.eq_of_length hlen
    rw [hput, hgot, rounds_succ] at heq
    exact List.append_cancel_left heq

end Place

end Rounds

section Flow

variable {σ α β : Type*} {V : Served σ α β} {count id j k n : Nat} {data : List β}
  {s s' : State σ β} {act : Action α}

/-- How many successes of client `id` were counted. -/
def State.counted (s : State σ β) (id : Nat) : Nat := s.echoes.countP fun e => e.1 == id

/-- Client `id` is in its place. -/
def State.inPlace (data : List β) (s : State σ β) (id : Nat) : Prop :=
  Place data (s.counted id) (s.put id) (s.got id) (s.written id) (s.buf id) (s.tester.pending id)

/-- At each end of a connection arrived a beginning of what the other end put in, and each client
is in its place. -/
structure Flow (V : Served σ α β) (count : Nat) (data : List β) (s : State σ β) : Prop where
  arrived : ∀ id < count, V.received id s.server <+: s.put id
  returned : ∀ id < count, s.got id <+: V.sent id s.server
  unused : ∀ id, count ≤ id → s.tester.pending id = .none
  place : ∀ id, s.inPlace data id
  total : s.echoes.length = s.tester.success
  faithful : ∀ e ∈ s.echoes, e.2 = data

/-- The server and the clients beside `id` are as they were. -/
structure Beside (id : Nat) (s s' : State σ β) : Prop where
  server : s'.server = s.server
  put : ∀ j ≠ id, s'.put j = s.put j
  got : ∀ j ≠ id, s'.got j = s.got j
  written : ∀ j ≠ id, s'.written j = s.written j
  buf : ∀ j ≠ id, s'.buf j = s.buf j
  counted : ∀ j ≠ id, s'.counted j = s.counted j
  pending : ∀ j ≠ id, s'.tester.pending j = s.tester.pending j

theorem beside_handled {t : Tester.State} {p : Pending}
    (hnext : t.pending = Function.update s.tester.pending id p)
    (hechoes : (s.handled id t).echoes = s.echoes ∨
      ∃ bytes, (s.handled id t).echoes = (id, bytes) :: s.echoes) :
    Beside id s (s.handled id t) where
  server := rfl
  put _ _ := rfl
  got _ _ := rfl
  written _ h := Function.update_of_ne h _ _
  buf _ h := Function.update_of_ne h _ _
  counted j h := by
    rcases hechoes with he | ⟨bytes, he⟩
    · rw [State.counted, he]
      rfl
    · have hne : ¬ (id == j) = true := by simpa using fun he : id = j => h he.symm
      rw [State.counted, he, List.countP_cons_of_neg (p := fun e : Nat × List β => e.1 == j) hne]
      rfl
  pending j h := (congrFun hnext j).trans (Function.update_of_ne h _ _)

/-- After a handler the client begins its next operation. -/
theorem inPlace_handled {t : Tester.State} {p : Pending}
    (hnext : t.pending = Function.update s.tester.pending id p) :
    (s.handled id t).inPlace data id ↔
      Place data ((s.handled id t).counted id) (s.put id) (s.got id) 0 [] p := by
  have hp : (s.handled id t).tester.pending id = p :=
    (congrFun hnext id).trans (Function.update_self _ _ _)
  rw [State.inPlace, hp]
  simp [State.handled]

namespace Flow

theorem start {u : σ} (hrecv : ∀ id, V.received id u = []) :
    Flow V count data (State.start count u) where
  arrived id _ := by
    have hnone : V.received id (State.start count u : State σ β).server = [] := hrecv id
    rw [hnone]
    exact List.nil_prefix
  returned _ _ := List.nil_prefix
  unused id hid := if_neg (Nat.not_lt.mpr hid)
  place id := by
    by_cases hid : id < count
    · have hp : (State.start count u : State σ β).tester.pending id = .connect := if_pos hid
      rw [State.inPlace, hp]
      exact .connecting rfl rfl rfl
    · have hp : (State.start count u : State σ β).tester.pending id = .none := if_neg hid
      rw [State.inPlace, hp]
      exact .gone List.nil_prefix List.nil_prefix
  total := rfl
  faithful _ he := by cases he

/-- Along a server that sends back nothing but what came in, a client takes out nothing but what it
put in. -/
theorem got_sublist (hi : Flow V count data s)
    (hsent : ∀ id, (V.sent id s.server).Sublist (V.received id s.server)) (hid : id < count) :
    (s.got id).Sublist (s.put id) :=
  ((hi.returned id hid).sublist.trans (hsent id)).trans (hi.arrived id hid).sublist

theorem lt_of_pending (hi : Flow V count data s) (hp : s.tester.pending id ≠ .none) :
    id < count := by
  by_contra hid
  exact hp (hi.unused id (Nat.not_lt.mp hid))

/-- What one client does concerns no other. -/
theorem of_beside (hi : Flow V count data s) (hb : Beside id s s') (hid : id < count)
    (harrived : V.received id s.server <+: s'.put id)
    (hreturned : s'.got id <+: V.sent id s.server) (hplace : s'.inPlace data id)
    (htotal : s'.echoes.length = s'.tester.success) (hfaithful : ∀ e ∈ s'.echoes, e.2 = data) :
    Flow V count data s' where
  arrived j hj := by
    rw [hb.server]
    by_cases h : j = id
    · rw [h]
      exact harrived
    · rw [hb.put j h]
      exact hi.arrived j hj
  returned j hj := by
    rw [hb.server]
    by_cases h : j = id
    · rw [h]
      exact hreturned
    · rw [hb.got j h]
      exact hi.returned j hj
  unused j hj := by
    have hne : j ≠ id := by omega
    rw [hb.pending j hne]
    exact hi.unused j hj
  place j := by
    by_cases h : j = id
    · rw [h]
      exact hplace
    · rw [State.inPlace, hb.put j h, hb.got j h, hb.written j h, hb.buf j h, hb.counted j h,
        hb.pending j h]
      exact hi.place j
  total := htotal
  faithful := hfaithful

theorem wrote (hi : Flow V count data s) (hp : s.tester.pending id = .write)
    (hle : s.written id + n ≤ data.length) : Flow V count data (s.wrote data id n) := by
  have hid : id < count := hi.lt_of_pending (by simp [hp])
  have hb : Beside id s (s.wrote data id n) :=
    ⟨rfl, fun _ h => Function.update_of_ne h _ _, fun _ _ => rfl,
      fun _ h => Function.update_of_ne h _ _, fun _ _ => rfl, fun _ _ => rfl, fun _ _ => rfl⟩
  have hput : (s.wrote data id n).put id = s.put id ++ (data.drop (s.written id)).take n :=
    Function.update_self _ _ _
  have hwritten : (s.wrote data id n).written id = s.written id + n := Function.update_self _ _ _
  refine hi.of_beside hb hid ?_ (hi.returned id hid) ?_ hi.total hi.faithful
  · rw [hput]
    exact (hi.arrived id hid).trans (List.prefix_append _ _)
  · have hplace := hi.place id
    rw [State.inPlace, hp] at hplace
    cases hplace with
    | writing hold hgot hw =>
      rw [State.inPlace, hput, hwritten, show (s.wrote data id n).tester.pending id = _ from hp]
      apply Place.writing _ hgot hle
      rw [hold, List.append_assoc, ← List.take_add]

theorem took (hi : Flow V count data s) (hp : s.tester.pending id = .read)
    (hle : (s.buf id).length + n ≤ data.length) :
    Flow V count data (s.took id ((s.unread V id).take n)) := by
  have hid : id < count := hi.lt_of_pending (by simp [hp])
  have hb : Beside id s (s.took id ((s.unread V id).take n)) :=
    ⟨rfl, fun _ _ => rfl, fun _ h => Function.update_of_ne h _ _, fun _ _ => rfl,
      fun _ h => Function.update_of_ne h _ _, fun _ _ => rfl, fun _ _ => rfl⟩
  have hgot : (s.took id ((s.unread V id).take n)).got id = s.got id ++ (s.unread V id).take n :=
    Function.update_self _ _ _
  have hbuf : (s.took id ((s.unread V id).take n)).buf id = s.buf id ++ (s.unread V id).take n :=
    Function.update_self _ _ _
  refine hi.of_beside hb hid (hi.arrived id hid) ?_ ?_ hi.total hi.faithful
  · rw [hgot]
    obtain ⟨rest, hrest⟩ := hi.returned id hid
    rw [State.unread, ← hrest, List.drop_left]
    exact (List.prefix_append_right_inj _).mpr (List.take_prefix _ _)
  · have hplace := hi.place id
    rw [State.inPlace, hp] at hplace
    cases hplace with
    | reading hput hold hlen =>
      rw [State.inPlace, hgot, hbuf,
        show (s.took id ((s.unread V id).take n)).tester.pending id = _ from hp]
      apply Place.reading hput
      · rw [hold, List.append_assoc]
      · rw [List.length_append, List.length_take]
        omega

/-- The handler of a client moves it to its next place. -/
theorem handled {ok : Bool} {t : Tester.State} (hi : Flow V count data s)
    (hsent : ∀ id, (V.sent id s.server).Sublist (V.received id s.server))
    (hready : s.ready data (.complete id ok)) (hh : Handles s.tester id ok t) :
    Flow V count data (s.handled id t) := by
  have hold := hi.place id
  cases hh with
  | connected _ hp hnext hsucc =>
    have hechoes : (s.handled id t).echoes = s.echoes := if_pos hsucc
    have hid : id < count := hi.lt_of_pending (by simp [hp])
    refine hi.of_beside (beside_handled hnext (.inl hechoes)) hid (hi.arrived id hid)
      (hi.returned id hid) ?_ (by rw [hechoes, hi.total]; exact hsucc.symm)
      (by rw [hechoes]; exact hi.faithful)
    rw [State.inPlace, hp] at hold
    rw [inPlace_handled hnext, State.counted, hechoes]
    cases hold with
    | connecting hput hgot hk =>
      have hzero : (s.echoes.countP fun e => e.1 == id) = 0 := hk
      rw [hzero, hput, hgot]
      exact .writing rfl rfl (Nat.zero_le _)
  | wrote htrue hp hnext hsucc =>
    have hechoes : (s.handled id t).echoes = s.echoes := if_pos hsucc
    have hid : id < count := hi.lt_of_pending (by simp [hp])
    refine hi.of_beside (beside_handled hnext (.inl hechoes)) hid (hi.arrived id hid)
      (hi.returned id hid) ?_ (by rw [hechoes, hi.total]; exact hsucc.symm)
      (by rw [hechoes]; exact hi.faithful)
    have hall : s.written id = data.length := by
      rw [htrue] at hready
      simpa only [State.ready, hp] using hready
    rw [State.inPlace, hp, hall] at hold
    rw [inPlace_handled hnext, State.counted, hechoes]
    cases hold with
    | writing hput hgot _ =>
      apply Place.reading
      · rw [hput, List.take_length, ← rounds_succ]
        rfl
      · rw [hgot, List.append_nil]
        rfl
      · exact Nat.zero_le _
  | read htrue hp hnext hsucc =>
    have hechoes : (s.handled id t).echoes = (id, s.buf id) :: s.echoes :=
      if_neg (by rw [hsucc]; omega)
    have hid : id < count := hi.lt_of_pending (by simp [hp])
    have hfull : (s.buf id).length = data.length := by
      rw [htrue] at hready
      simpa only [State.ready, hp] using hready
    rw [State.inPlace, hp] at hold
    have hbuf : s.buf id = data := hold.buf_eq (hi.got_sublist hsent hid) hfull
    refine hi.of_beside (beside_handled hnext (.inr ⟨_, hechoes⟩)) hid (hi.arrived id hid)
      (hi.returned id hid) ?_ ?_ ?_
    · rw [inPlace_handled hnext, State.counted, hechoes, List.countP_cons_of_pos (by simp)]
      cases hold with
      | reading hput hgot _ =>
        apply Place.writing
        · rw [hput, List.take_zero, List.append_nil]
          rfl
        · rw [hgot, hbuf, ← rounds_succ]
          rfl
        · exact Nat.zero_le _
    · rw [hechoes, List.length_cons, hi.total]
      exact hsucc.symm
    · rw [hechoes]
      intro e he
      rcases List.mem_cons.mp he with rfl | he
      · exact hbuf
      · exact hi.faithful e he
  | ends hp hnext hsucc =>
    have hechoes : (s.handled id t).echoes = s.echoes := if_pos hsucc
    have hid : id < count := hi.lt_of_pending hp
    refine hi.of_beside (beside_handled hnext (.inl hechoes)) hid (hi.arrived id hid)
      (hi.returned id hid) ?_ (by rw [hechoes, hi.total]; exact hsucc.symm)
      (by rw [hechoes]; exact hi.faithful)
    rw [inPlace_handled hnext, State.counted, hechoes]
    exact hold.ends hp

theorem passes {t : Tester.State} (hi : Flow V count data s)
    (hpending : t.pending = s.tester.pending) (hsuccess : t.success = s.tester.success) :
    Flow V count data { s with tester := t } where
  arrived := hi.arrived
  returned := hi.returned
  unused id hid := (congrFun hpending id).trans (hi.unused id hid)
  place id := by
    have hold := hi.place id
    dsimp only [State.inPlace] at hold ⊢
    rw [hpending]
    exact hold
  total := hi.total.trans hsuccess.symm
  faithful := hi.faithful

theorem step (hi : Flow V count data s)
    (hsent : ∀ id, (V.sent id s.server).Sublist (V.received id s.server))
    (ha : Acts V count data s act s') : Flow V count data s' := by
  cases ha with
  | handles hready ht => exact hi.handled hsent hready (handles_of_complete ht)
  | passes hnot ht =>
    obtain ⟨hpending, hsuccess⟩ := step_eq_of_not_complete ht hnot
    exact hi.passes hpending hsuccess
  | puts hp _ hle => exact hi.wrote hp hle
  | gets hp _ _ hle => exact hi.took hp hle
  | serves _ hall =>
    exact ⟨fun id hid => (hall id hid).1, fun id hid => (hall id hid).2, hi.unused, hi.place,
      hi.total, hi.faithful⟩

end Flow

variable [DecidableEq β]

/-- In a run of the benchmark the server makes a run of its own. -/
theorem server_reachable (hr : (bench V count data).Reachable (obeys V) s) :
    V.machine.Reachable V.obeys s.server := by
  apply hr.invariant (I := fun s => V.machine.Reachable V.obeys s.server)
  · rintro s₀ ⟨u, hu, rfl⟩
    exact .start hu
  · intro s₀ act s₁ _ hserver hp hs
    cases acts_of_step hs with
    | serves hu _ => exact hserver.step hp hu
    | handles _ _ | passes _ _ | puts _ _ _ | gets _ _ _ _ => exact hserver

/-- A server that sends back nothing but what came in, in that order. -/
structure Thins (V : Served σ α β) : Prop where
  starts : ∀ u, V.machine.init u → ∀ id, V.received id u = []
  sent : ∀ s, V.machine.Reachable V.obeys s → ∀ id, (V.sent id s).Sublist (V.received id s)

omit [DecidableEq β] in
/-- So does a relay toward each client. -/
theorem thins_of_isRelay {room : Relay.Room} {renews : Nat → σ → α → Prop}
    (h : ∀ id, Relay.IsRelay V.machine V.obeys (renews id) room (V.received id) (V.sent id)) :
    Thins V where
  starts u hu id := ((h id).starts u hu).1
  sent _ hr id := ((h id).sent_isPrefix hr).sublist

theorem flow_of_reachable (hthins : Thins V)
    (hr : (bench V count data).Reachable (obeys V) s) : Flow V count data s := by
  apply hr.invariant (I := Flow V count data)
  · rintro s₀ ⟨u, hu, rfl⟩
    exact .start (hthins.starts u hu)
  · intro s₀ act s₁ hr hi hp hs
    exact hi.step (hthins.sent _ (server_reachable hr)) (acts_of_step hs)

/-- Every success that was counted is one in which the client read back what it had written, what a
client takes out is nothing but what it put in, and never is more than one buffer on its way. -/
structure Echoed (count : Nat) (data : List β) (s : State σ β) : Prop where
  counted : s.echoes.length = s.tester.success
  whole : ∀ e ∈ s.echoes, e.2 = data
  same : ∀ id < count, (s.got id).Sublist (s.put id)
  window : ∀ id, (s.put id).length ≤ (s.got id).length + data.length

/-- The tester may be believed about this server. -/
def Trusted (V : Served σ α β) : Prop :=
  ∀ count data s, (bench V count data).Reachable (obeys V) s → Echoed count data s

theorem Thins.trusted (hthins : Thins V) : Trusted V := by
  intro count data s hr
  have hi := flow_of_reachable hthins hr
  have hsent := hthins.sent _ (server_reachable hr)
  exact ⟨hi.total, hi.faithful, fun id hid => hi.got_sublist hsent hid,
    fun id => (hi.place id).length_put_le⟩

end Flow

end EchoBenchmark.Bench
