import EchoBenchmark.Bench.Servers

/-!
A server that loses bytes is never believed to have echoed them; but the client whose bytes they
were waits for them, and counts no success any more.
-/

namespace EchoBenchmark.Bench

section Counted

variable {σ α β : Type*} {V : Served σ α β} {count id : Nat} {data : List β} {s s' : State σ β}
  {act : Action α}

/-- A success of a client is counted only when it has taken out as much as it has put in. -/
theorem counted_of_acts (hi : Flow V count data s) (ha : Acts V count data s act s') (id : Nat) :
    s'.counted id = s.counted id ∨ (s.got id).length = (s.put id).length := by
  cases ha with
  | passes _ _ | puts _ _ _ | gets _ _ _ _ | serves _ _ => exact .inl rfl
  | @handles j ok t hready ht =>
    have hsame : t.success = s.tester.success → (s.handled j t).counted id = s.counted id := by
      intro hsucc
      rw [State.counted, State.handled, if_pos hsucc]
      rfl
    cases handles_of_complete ht with
    | connected _ _ _ hsucc | wrote _ _ _ hsucc | ends _ _ hsucc => exact .inl (hsame hsucc)
    | read htrue hp hnext hsucc =>
      by_cases hj : j = id
      · subst hj
        right
        have hfull : (s.buf j).length = data.length := by
          rw [htrue] at hready
          simpa only [State.ready, hp] using hready
        have hplace := hi.place j
        rw [State.inPlace, hp] at hplace
        cases hplace with
        | reading hput hgot _ =>
          rw [hput, hgot, rounds_succ, List.length_append, List.length_append, hfull]
      · left
        have hechoes : (s.handled j t).echoes = (j, s.buf j) :: s.echoes :=
          if_neg (by omega)
        exact (beside_handled hnext (.inr ⟨_, hechoes⟩)).counted id fun he => hj he.symm

end Counted

variable {conn : Nat → Nat} {p : Nio.Program} {count id : Nat} {data : List UInt8}
  {s t : State Nio.Server UInt8}

/-- The server has left out a byte that came in from client `id`. -/
def LeftOut (conn : Nat → Nat) (p : Nio.Program) (s : State Nio.Server UInt8) (id : Nat) : Prop :=
  ((nio conn p).sent id s.server).length < ((nio conn p).received id s.server).length

instance (s : State Nio.Server UInt8) (id : Nat) : Decidable (LeftOut conn p s id) :=
  inferInstanceAs (Decidable (_ < _))

/-- After one short write of the Java or the Kotlin server to a client of the tester, whatever
happens, no success of that client is counted any more. -/
theorem left_out_for_good (hr : (bench (nio conn p) count data).Reachable (obeys (nio conn p)) s)
    (hst : (bench (nio conn p) count data).Steps (obeys (nio conn p)) s t) (hid : id < count)
    (hlost : LeftOut conn p s id) : t.counted id = s.counted id := by
  have hboth : t.counted id = s.counted id ∧ LeftOut conn p t id := by
    apply hr.steps_invariant
      (I := fun t => t.counted id = s.counted id ∧ LeftOut conn p t id) ?_ hst ⟨rfl, hlost⟩
    intro u act v hr ih hp hs
    obtain ⟨hcounted, hlost⟩ := ih
    have hi := flow_of_reachable (thins_nio conn p) hr
    have ha := acts_of_step hs
    constructor
    · rcases counted_of_acts hi ha id with hsame | hall
      · exact hsame.trans hcounted
      · exfalso
        have hback := (hi.returned id hid).length_le
        have hforth := (hi.arrived id hid).length_le
        have hless : ((nio conn p).sent id u.server).length <
          ((nio conn p).received id u.server).length := hlost
        omega
    · cases ha with
      | handles _ _ | passes _ _ | puts _ _ _ | gets _ _ _ _ => exact hlost
      | serves hu _ =>
        exact Nio.Server.left_out_of_step (server_reachable hr) hu (conn id) hlost
  exact hboth.1

/-- Of two bytes the Java server writes back one. -/
def shortWrite : List (Action Nio.Action) :=
  [.tester (.complete 0 true), .server (.select [.server]),
    .server (.round .client .eof (.wrote 0)), .server (.round .null .eof (.wrote 0)), .put 0 2,
    .server (.select [.client 0]), .server (.round .null (.got [65, 66]) (.wrote 1))]

theorem obeys_nio {s : State Nio.Server UInt8} {a : Action Nio.Action}
    (_ : Machine.free s a) : obeys (nio conn p) s a := by
  cases a with
  | server a => trivial
  | tester a | put id n | get id n => trivial

theorem left_out_for_good_shortWrite : ∃ s t : State Nio.Server UInt8,
    (bench (nio (fun j => j) Nio.java) 1 [65, 66]).Steps (obeys (nio (fun j => j) Nio.java)) s t ∧
      LeftOut (fun j => j) Nio.java s 0 ∧ t.got 0 = [65] ∧ t.counted 0 = s.counted 0 := by
  obtain ⟨s, hs, hlost⟩ := Option.map_eq_some_iff.mp
    (show ((bench (nio (fun j => j) Nio.java) 1 [65, 66]).exec Machine.free
      (State.start 1 Nio.Server.initial) shortWrite).map (fun s =>
        decide (LeftOut (fun j => j) Nio.java s 0)) = some true from by decide +kernel)
  obtain ⟨t, ht, hgot⟩ := Option.map_eq_some_iff.mp
    (show ((bench (nio (fun j => j) Nio.java) 1 [65, 66]).exec Machine.free
      (State.start 1 Nio.Server.initial)
      (shortWrite ++ [.tester (.complete 0 true), .get 0 1])).map (fun s => s.got 0) =
        some [65] from by decide +kernel)
  rw [Machine.exec_append, hs, Option.bind_some] at ht
  have hinit : (bench (nio (fun j => j) Nio.java) 1 [65, 66]).init
      (State.start 1 Nio.Server.initial) := ⟨_, rfl, rfl⟩
  have hr : (bench (nio (fun j => j) Nio.java) 1 [65, 66]).Reachable
      (obeys (nio (fun j => j) Nio.java)) s :=
    (Machine.exec_reachable hinit hs).mono fun _ _ => obeys_nio
  have hst : (bench (nio (fun j => j) Nio.java) 1 [65, 66]).Steps
      (obeys (nio (fun j => j) Nio.java)) s t :=
    (Machine.exec_steps ht).mono fun _ _ => obeys_nio
  have hlost := of_decide_eq_true hlost
  exact ⟨s, t, hst, hlost, hgot, left_out_for_good hr hst (by decide) hlost⟩

end EchoBenchmark.Bench
