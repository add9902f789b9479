import EchoBenchmark.Proactor.Bookkeeping

/-!
The timer list compares deadlines only. Two operations with the same deadline are one element to
it, which loses timeouts: the exact conditions under which none is lost.
-/

namespace EchoBenchmark.Proactor

variable {κ : Type} {s s' : State κ} {act : Action κ} {q : Request κ}

/-! ### Arming -/

/-- A pending operation with a timeout is in the timer list, with its own deadline, exactly when no
other operation has that deadline. -/
theorem timeout_armed_iff (hr : (proactor κ).Reachable Machine.free s)
    (hq : act.request = some q) (hl : s.heap.live q.token.sock = true)
    (hs : s.step act = some s') (hms : 0 < q.timeoutMsec) (hok : s.answer act = true)
    (hp : (s'.heap.tok q.token).mode.pending) :
    (q.token ∈ s'.heap.timerList ∧
      (s'.heap.tv q.token).micros = q.clock.micros + q.timeoutMsec * 1000) ↔
    ∀ u ∈ s.heap.timerList, s.heap.tv u ≠ timeradd q.clock (ofMsec q.timeoutMsec) := by
  have hb := (consistent_of_reachable hr).books
  have ho := State.opens_of_request hq hl hs
  rw [hok] at ho
  generalize s'.heap = h' at ho hp ⊢
  cases ho with
  | finished hg hf =>
    rw [Heap.tok_finish, if_pos rfl] at hp
    exact absurd hf (Mode.not_finished_of_pending hp)
  | @parked e h₁ n hg hm he =>
    have hne : q.timeoutMsec ≠ 0 := by omega
    have hfree : q.token ∉ h₁.timerList := by
      rw [hg.timerList]
      exact hb.not_timed hg.free
    have htv : (h₁.park q.token n q.mode q.timeoutMsec q.clock).tv q.token =
        timeradd q.clock (ofMsec q.timeoutMsec) := by
      simp [Heap.tv, Heap.tok_park, Heap.deadline, hne]
    have hkey : ∀ u ∈ s.heap.timerList,
        (h₁.park q.token n q.mode q.timeoutMsec q.clock).tv u = s.heap.tv u := by
      intro u hu
      have hut : u ≠ q.token := by
        rintro rfl
        exact hb.not_timed hg.free hu
      rw [Heap.Books.tv_park_of_ne hut, Heap.tv, hg.other u hut]
      rfl
    have hmicros : ((h₁.park q.token n q.mode q.timeoutMsec q.clock).tv q.token).micros =
        q.clock.micros + q.timeoutMsec * 1000 := by
      rw [htv, micros_timeradd, micros_ofMsec]
    rw [and_iff_left hmicros, Heap.timerList_park hne, KeyedSet.mem_insert_self_iff hfree, htv,
      hg.timerList]
    exact forall₂_congr fun u hu => by rw [hkey u hu]

/-- Two Sockets. -/
def twoSockets : List (Action Unit) :=
  [.createUnbound 0 ⟨0, 0⟩ ⟨0, 0⟩, .createUnbound 1 ⟨0, 0⟩ ⟨0, 0⟩]

/-- A read on a Socket that has to wait, at one reading of the clock. -/
def readAt10 (id : SockId) : Action Unit := .readSome id ⟨id, 0⟩ 8 () 5000 (.fail EAGAIN) ⟨10, 0⟩

/-- The same a second later. -/
def readAt11 (id : SockId) : Action Unit := .readSome id ⟨id, 0⟩ 8 () 5000 (.fail EAGAIN) ⟨11, 0⟩

/-- Beside a Socket with another deadline, a Socket is armed. -/
theorem timeout_armed_iff_otherDeadline : ∃ s s' : State Unit,
    (proactor Unit).Reachable Machine.free s ∧ s.step (readAt11 1) = some s' ∧
    s.heap.timerList = [⟨0, .read⟩] ∧ ⟨1, .read⟩ ∈ s'.heap.timerList ∧
    (s'.heap.tv ⟨1, .read⟩).micros = 11000000 + 5000 * 1000 := by
  obtain ⟨s, hr, hf⟩ := Machine.exists_of_exec (M := proactor Unit) (p := Machine.free)
    (s := State.initial fun _ _ => 0) (l := twoSockets ++ [readAt10 0])
    (f := fun s => ((s.heap.live 1, s.answer (readAt11 1)), s.heap.timerList,
      s.heap.tv ⟨0, .read⟩,
      (s.step (readAt11 1)).map fun s' => (s'.heap.tok ⟨1, .read⟩).mode))
    (b := ((true, true), [⟨0, .read⟩], ⟨15, 0⟩, some .some)) ⟨_, rfl⟩ rfl
  simp only [Prod.mk.injEq] at hf
  obtain ⟨⟨hl, hok⟩, ht, htv, hmode⟩ := hf
  obtain ⟨s', hs, hmode⟩ := Option.map_eq_some_iff.mp hmode
  have hq : (readAt11 1).request = some _ := rfl
  have hother : ∀ u ∈ s.heap.timerList, s.heap.tv u ≠ timeradd ⟨11, 0⟩ (ofMsec 5000) := by
    rw [ht]
    intro u hu
    rw [List.mem_singleton.mp hu, htv]
    decide
  have harmed := (timeout_armed_iff hr hq hl hs (by decide) hok (.inl hmode)).mpr hother
  exact ⟨s, s', hr, hs, ht, harmed⟩

/-- The second of two reads with one deadline is pending without its timeout. -/
theorem timeout_not_armed : ∃ s s' : State Unit, (proactor Unit).Reachable Machine.free s ∧
    s.step (readAt10 1) = some s' ∧ s.answer (readAt10 1) = true ∧
    (s'.heap.tok ⟨1, .read⟩).mode.pending ∧ ⟨1, .read⟩ ∉ s'.heap.timerList := by
  obtain ⟨s, hr, hf⟩ := Machine.exists_of_exec (M := proactor Unit) (p := Machine.free)
    (s := State.initial fun _ _ => 0) (l := twoSockets ++ [readAt10 0])
    (f := fun s => (s.answer (readAt10 1),
      (s.step (readAt10 1)).map fun s' => ((s'.heap.tok ⟨1, .read⟩).mode, s'.heap.timerList)))
    (b := (true, some (.some, [⟨0, .read⟩]))) ⟨_, rfl⟩ rfl
  simp only [Prod.mk.injEq] at hf
  obtain ⟨hok, hafter⟩ := hf
  obtain ⟨s', hs, hafter⟩ := Option.map_eq_some_iff.mp hafter
  obtain ⟨hmode, ht⟩ := Prod.mk.inj hafter
  refine ⟨s, s', hr, hs, hok, .inl hmode, ?_⟩
  rw [ht]
  decide

/-! ### Taking out of the timer list -/

/-- The tokens whose operations a step ends: by a completion, by a timeout or with their Socket. -/
def State.ends (s : State κ) : Action κ → List TokenId
  | .processCompletion => s.heap.queue.head?.toList
  | .processTimer =>
    match s.pc with
    | .timer now => (s.heap.timerList.head?.filter fun t => timercmp (s.heap.tv t) now).toList
    | _ => []
  | .destroy id => if s.heap.live id then [⟨id, .read⟩, ⟨id, .write⟩] else []
  | _ => []

namespace State

theorem ends_processCompletion (he : s.ends .processCompletion ≠ []) :
    ∃ cur rest, s.heap.queue = cur :: rest ∧ s.ends .processCompletion = [cur] := by
  simp only [ends] at he ⊢
  cases hq : s.heap.queue with
  | nil =>
    rw [hq] at he
    exact (he rfl).elim
  | cons cur rest => exact ⟨cur, rest, rfl, rfl⟩

theorem ends_processTimer (he : s.ends .processTimer ≠ []) :
    ∃ now cur rest, s.pc = .timer now ∧ s.heap.timerList = cur :: rest ∧
      timercmp (s.heap.tv cur) now = true ∧ s.ends .processTimer = [cur] := by
  unfold ends at he ⊢
  cases hpc : s.pc with
  | timer now =>
    cases ht : s.heap.timerList with
    | nil =>
      simp only [hpc, ht] at he
      exact (he rfl).elim
    | cons cur rest =>
      cases hlt : timercmp (s.heap.tv cur) now with
      | false => simp [hpc, ht, hlt] at he
      | true => exact ⟨now, cur, rest, rfl, rfl, hlt, by simp [hlt]⟩
  | _ =>
    simp only [hpc] at he
    exact (he rfl).elim

theorem ends_destroy {id : SockId} (he : s.ends (.destroy id) ≠ []) :
    s.heap.live id = true ∧ s.ends (.destroy id) = [⟨id, .read⟩, ⟨id, .write⟩] := by
  have hends : s.ends (.destroy id) =
      if s.heap.live id then [⟨id, .read⟩, ⟨id, .write⟩] else [] := rfl
  rw [hends] at he ⊢
  split at he
  · rename_i hl
    exact ⟨hl, if_pos hl⟩
  · exact (he rfl).elim

end State

/-- A round of `_processCompletion` erases what has the deadline of the delivered token. -/
theorem timerList_processCompletion (hb : s.heap.Books) {cur : TokenId} {rest : List TokenId}
    (hq : s.heap.queue = cur :: rest) (hs : s.processCompletion = some s') :
    s'.heap.timerList = KeyedSet.erase s.heap.tv cur s.heap.timerList := by
  have hlive : s.heap.live cur.sock = true := by
    apply Bool.of_not_eq_false
    intro hd
    have hmem := (hb.queued cur).mp (by rw [hq]; exact List.mem_cons_self)
    exact Mode.ne_none_of_finished hmem (hb.gone cur hd)
  cases State.processCompletion_cases hs with
  | ends _ hq' => cases hq.symm.trans hq'
  | faults _ hq' hdead =>
    cases hq.symm.trans hq'
    exact absurd (hlive.symm.trans hdead) (by decide)
  | completes _ hq' _ he =>
    cases hq.symm.trans hq'
    rw [he, State.timerList_invoke]
    rfl

/-- A round of `_processTimer` takes out the head, whose deadline no other member has. -/
theorem timerList_processTimer (hb : s.heap.Books) {now : Timeval} {cur : TokenId}
    {rest : List TokenId} (hpc : s.pc = .timer now) (ht : s.heap.timerList = cur :: rest)
    (hlt : timercmp (s.heap.tv cur) now = true) (hs : s.processTimer = some s') :
    s'.heap.timerList = KeyedSet.erase s.heap.tv cur s.heap.timerList := by
  have hlive : s.heap.live cur.sock = true := by
    apply Bool.of_not_eq_false
    intro hd
    exact hb.timed cur (by rw [ht]; exact List.mem_cons_self) (hb.gone cur hd)
  have hsorted := hb.sorted
  rw [ht] at hsorted
  unfold State.processTimer at hs
  simp only [hpc, ht, hlive, hlt, Bool.true_eq_false, if_false, if_true] at hs
  cases hs
  rw [State.timerList_invoke, ht, KeyedSet.erase, List.filter_cons_of_neg (by simp)]
  refine (List.filter_eq_self.mpr fun u hu => ?_).symm
  simpa using (hsorted.head_lt hu).ne'

theorem timerList_destroySocket {id : SockId} : (s.destroySocket id).heap.timerList =
    KeyedSet.eraseAll s.heap.tv [⟨id, .read⟩, ⟨id, .write⟩] s.heap.timerList := by
  have hclose : ∀ s₁ : State κ, Heap.Noted s.heap s₁.heap →
      (s₁.onHeap fun h => (h.unlink id).release id).heap.timerList =
        KeyedSet.eraseAll s.heap.tv [⟨id, .read⟩, ⟨id, .write⟩] s.heap.timerList := by
    intro s₁ hn
    have htv : s₁.heap.tv = s.heap.tv := funext hn.tv
    change (s₁.heap.unlink id).timerList = _
    rw [Heap.timerList_unlink, hn.timerList, htv]
    rfl
  unfold State.destroySocket
  dsimp only
  split
  · exact hclose _ State.closeSocket_noted
  · exact hclose s (Heap.Noted.refl _)

/-- What a step that ends operations leaves in the timer list. -/
theorem timerList_of_ends (hb : s.heap.Books) (hs : s.step act = some s')
    (he : s.ends act ≠ []) :
    s'.heap.timerList = KeyedSet.eraseAll s.heap.tv (s.ends act) s.heap.timerList := by
  cases act with
  | processCompletion =>
    obtain ⟨cur, rest, hq, hends⟩ := State.ends_processCompletion he
    rw [hends]
    exact timerList_processCompletion hb hq (State.library_some hs).2
  | processTimer =>
    obtain ⟨now, cur, rest, hpc, ht, hlt, hends⟩ := State.ends_processTimer he
    rw [hends]
    exact timerList_processTimer hb hpc ht hlt (State.library_some hs).2
  | destroy id =>
    obtain ⟨hl, hends⟩ := State.ends_destroy he
    unfold State.step at hs
    rw [hends, State.user_live (h := .socket id) hl hs]
    exact timerList_destroySocket
  | _ => exact (he rfl).elim

/-- Ending operations leaves all other tokens in the timer list exactly when none of them has a
deadline that an ended token holds, old deadlines included. -/
theorem ends_spares_iff (hr : (proactor κ).Reachable Machine.free s)
    (hs : s.step act = some s') (he : s.ends act ≠ []) :
    s'.heap.timerList = s.heap.timerList.filter (fun u => u ∉ s.ends act) ↔
      ∀ u ∈ s.heap.timerList, u ∉ s.ends act →
        ∀ t ∈ s.ends act, s.heap.tv u ≠ s.heap.tv t := by
  have hb := (consistent_of_reachable hr).books
  rw [timerList_of_ends hb hs he]
  exact KeyedSet.eraseAll_spares_iff hb.sorted

/-- Of two armed tokens with different deadlines, the one whose Socket is destroyed goes. -/
theorem ends_spares_iff_otherDeadline : ∃ s s' : State Unit,
    (proactor Unit).Reachable Machine.free s ∧ s.step (.destroy 0) = some s' ∧
    s.heap.timerList = [⟨0, .read⟩, ⟨1, .read⟩] ∧ s'.heap.timerList = [⟨1, .read⟩] := by
  obtain ⟨s, hr, hf⟩ := Machine.exists_of_exec (M := proactor Unit) (p := Machine.free)
    (s := State.initial fun _ _ => 0) (l := twoSockets ++ [readAt10 0, readAt11 1])
    (f := fun s => ((s.heap.timerList, s.ends (.destroy 0)),
      [s.heap.tv ⟨0, .read⟩, s.heap.tv ⟨0, .write⟩, s.heap.tv ⟨1, .read⟩],
      (s.step (.destroy 0)).isSome))
    (b := (([⟨0, .read⟩, ⟨1, .read⟩], [⟨0, .read⟩, ⟨0, .write⟩]),
      [⟨15, 0⟩, ⟨0, 0⟩, ⟨16, 0⟩], true)) ⟨_, rfl⟩ rfl
  simp only [Prod.mk.injEq, List.cons.injEq, and_true] at hf
  obtain ⟨⟨ht, he⟩, ⟨hread, hwrite, hother⟩, hstep⟩ := hf
  obtain ⟨s', hs⟩ := Option.isSome_iff_exists.mp hstep
  have hspares := (ends_spares_iff hr hs (by rw [he]; simp)).mpr (by
    rw [ht, he]
    simp only [List.mem_cons, List.not_mem_nil, or_false, forall_eq_or_imp, forall_eq]
    rw [hread, hwrite, hother]
    decide)
  refine ⟨s, s', hr, hs, ht, ?_⟩
  rw [hspares, ht, he]
  rfl

/-- With the Socket of a token that shares its deadline, an armed token leaves the timer list. -/
theorem ends_takes_other : ∃ s s' : State Unit, (proactor Unit).Reachable Machine.free s ∧
    s.step (.destroy 1) = some s' ∧ s.heap.timerList = [⟨0, .read⟩] ∧
    (s.heap.tok ⟨0, .read⟩).mode.pending ∧ s'.heap.timerList = [] := by
  obtain ⟨s, hr, hf⟩ := Machine.exists_of_exec (M := proactor Unit) (p := Machine.free)
    (s := State.initial fun _ _ => 0) (l := twoSockets ++ [readAt10 0, readAt10 1])
    (f := fun s => (s.heap.timerList, (s.heap.tok ⟨0, .read⟩).mode,
      (s.step (.destroy 1)).map (·.heap.timerList)))
    (b := ([⟨0, .read⟩], .some, some [])) ⟨_, rfl⟩ rfl
  simp only [Prod.mk.injEq] at hf
  obtain ⟨ht, hmode, hafter⟩ := hf
  obtain ⟨s', hs, hafter⟩ := Option.map_eq_some_iff.mp hafter
  exact ⟨s, s', hr, hs, ht, .inl hmode, hafter⟩

/-- A timeout never takes out another token. -/
theorem timeout_spares (hr : (proactor κ).Reachable Machine.free s)
    (hs : s.step .processTimer = some s') (he : s.ends .processTimer ≠ []) :
    s'.heap.timerList = s.heap.timerList.filter (fun u => u ∉ s.ends .processTimer) := by
  have hb := (consistent_of_reachable hr).books
  rw [timerList_of_ends hb hs he, KeyedSet.eraseAll_spares_iff hb.sorted]
  obtain ⟨now, cur, rest, -, ht, -, hends⟩ := State.ends_processTimer he
  rw [hends]
  intro u hu hne t hmem hk
  rw [List.mem_singleton.mp hmem] at hk
  have hcur : cur ∈ s.heap.timerList := by
    rw [ht]
    exact List.mem_cons_self
  exact hne (List.mem_singleton.mpr (hb.sorted.eq_of_key hu hcur hk))

end EchoBenchmark.Proactor
