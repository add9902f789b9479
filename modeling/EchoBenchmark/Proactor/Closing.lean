import EchoBenchmark.Proactor.Acceptors
import EchoBenchmark.Proactor.Control

/-!
What a closed Acceptor still hears. `close` neither ends the accept loop above it nor takes back an
event of the batch, and it removes one descriptor only.
-/

namespace EchoBenchmark.Proactor

open History (Adds)

variable {κ : Type} {s s' : State κ} {act : Action κ} {a : AccId} {log log' : List Event}

/-- The Acceptor was closed, and no `listen` has succeeded since. -/
def closedSince (a : AccId) : List Event → Prop
  | [] => False
  | .removed (.acceptor b) :: log => b = a ∨ closedSince a log
  | .registered (.acceptor b) _ :: log => b ≠ a ∧ closedSince a log
  | _ :: log => closedSince a log

instance decidableClosedSince (a : AccId) : (log : List Event) → Decidable (closedSince a log)
  | [] => isFalse id
  | e :: log =>
    have hlog : Decidable (closedSince a log) := decidableClosedSince a log
    match e with
    | .removed (.acceptor b) => inferInstanceAs (Decidable (b = a ∨ closedSince a log))
    | .registered (.acceptor b) _ => inferInstanceAs (Decidable (b ≠ a ∧ closedSince a log))
    | .removed (.socket _) | .registered (.socket _) _ | .created _ | .destroyed _ | .started _ _
    | .refused _ _ | .called _ _ _ _ _ | .sysRead _ _ _ _ | .sysWrite _ _ _ _ _ | .copied _ _ _
    | .armed _ _ | .polled _ | .dispatched _ _ | .accepted _ _ _ | .opened _ _ _ | .closedFd _
    | .useAfterFree _ | .kernel _ => hlog

/-- No accept callback was invoked while the Acceptor was closed. -/
def SilentWhileClosed (a : AccId) : List Event → Prop
  | [] => True
  | .accepted b _ _ :: log => (b = a → ¬ closedSince a log) ∧ SilentWhileClosed a log
  | _ :: log => SilentWhileClosed a log

theorem closedSince_cons {e : Event} (he : e.acceptor ≠ some a ∨ State.socketOpened a e) :
    closedSince a (e :: log) ↔ closedSince a log := by
  rcases he with he | ⟨fd, rfl⟩
  · cases e with
    | removed h =>
      cases h with
      | socket id => exact Iff.rfl
      | acceptor b => exact or_iff_right (by simpa [Event.acceptor] using he)
    | registered h fd =>
      cases h with
      | socket id => exact Iff.rfl
      | acceptor b => exact and_iff_right (by simpa [Event.acceptor] using he)
    | _ => exact Iff.rfl
  · exact Iff.rfl

theorem silentWhileClosed_cons {e : Event} (he : ∀ code soc, e ≠ .accepted a code soc) :
    SilentWhileClosed a (e :: log) ↔ SilentWhileClosed a log := by
  cases e with
  | accepted b code soc =>
    refine and_iff_right ?_
    rintro rfl
    exact (he code soc rfl).elim
  | _ => exact Iff.rfl

/-- Entries for a call of an Acceptor and of its callback. -/
def Event.isAccept : Event → Prop
  | .opened .. | .accepted .. | .dispatched .. => True
  | _ => False

/-- The Acceptor whose loop `run` is in. -/
def Pc.accepting : Pc → Option AccId
  | .acceptLoop a _ _ => some a
  | _ => none

/-- `run` will call back an Acceptor for this event. -/
def PollEvent.callsBack (ev : PollEvent) : Prop :=
  ev.events.hangup = true ∨ ev.events.input = true

instance (ev : PollEvent) : Decidable ev.callsBack := inferInstanceAs (Decidable (_ ∨ _))

/-- The running callback returns. -/
def Action.isRet : Action κ → Bool
  | .ret => true
  | _ => false

namespace State

/-- The loop of the Acceptor is not running, no event of the batch is for it, and the epoll set
knows it by the descriptor in its handle alone. -/
def atRest (a : AccId) (s : State κ) : Prop :=
  s.pc.accepting ≠ some a ∧
  (∀ ev ∈ s.pc.waiting, ev.handler = .acceptor a → ¬ ev.callsBack) ∧
  ∀ i ∈ s.interest, i.handler = .acceptor a → i.fd = (s.acceptors a).soc

instance : Decidable (s.atRest a) := inferInstanceAs (Decidable (_ ∧ _))

/-- Nothing is left by which `run` would come to the Acceptor. -/
structure Shut (a : AccId) (s : State κ) : Prop where
  loop : s.pc.accepting ≠ some a
  waiting : ∀ ev ∈ s.pc.waiting, ev.handler = .acceptor a → ¬ ev.callsBack
  interest : ∀ i ∈ s.interest, i.handler ≠ .acceptor a

instance : Decidable (s.Shut a) :=
  decidable_of_iff (s.pc.accepting ≠ some a ∧
    (∀ ev ∈ s.pc.waiting, ev.handler = .acceptor a → ¬ ev.callsBack) ∧
    ∀ i ∈ s.interest, i.handler ≠ .acceptor a)
    ⟨fun h => ⟨h.1, h.2.1, h.2.2⟩, fun h => ⟨h.loop, h.waiting, h.interest⟩⟩

/-- Outside a callback the Acceptor is closed only at rest; a callback that closes it and does not
let it listen again leaves nothing, when it returns, by which `run` would come to it. -/
def closesAtRest (a : AccId) (s : State κ) (act : Action κ) : Prop :=
  (s.removes act = some (.acceptor a) → s.callback.isSome ∨ s.atRest a) ∧
  (act.isRet = true → closedSince a s.heap.log → s.Shut a)

instance : Decidable (s.closesAtRest a act) := inferInstanceAs (Decidable (_ ∧ _))

/-- `run` reports what is in the epoll set, and what it reports is what it comes to. -/
theorem Shut.step (hsh : Shut a s) (hc : Control s act s')
    (hint : ∀ i ∈ s'.interest, i.handler ≠ .acceptor a) : Shut a s' := by
  refine ⟨?_, ?_, hint⟩
  · intro hacc
    cases hpc' : s'.pc with
    | acceptLoop b ev rest =>
      rw [hpc'] at hacc
      cases hacc
      rcases hc.acceptLoop hpc' with hpc | ⟨hpc, hin, hev⟩
      · exact hsh.loop (by rw [hpc]; rfl)
      · exact hsh.waiting ev (by rw [hpc]; exact List.mem_cons_self) hev (.inr hin)
    | _ =>
      rw [hpc'] at hacc
      cases hacc
  · intro ev hev hh
    rcases hc.waiting with hsub | ⟨evs, -, hrep, hpc'⟩
    · exact hsh.waiting ev (hsub.subset hev) hh
    · rw [hpc'] at hev
      obtain ⟨-, -, -, -, hreg⟩ := hrep
      obtain ⟨i, hi, -, hhi, -⟩ := hreg ev hev
      exact (hsh.interest i hi (hhi.trans hh)).elim

/-- Closing at rest leaves no registration. -/
theorem shut_of_closed (hrest : s.atRest a) (hnil : s.fd = INVALID_HANDLE → s.interest = [])
    (hpc : s'.pc = s.pc) (hint : s'.interest = (s.closeAcceptor a).interest) : Shut a s' := by
  obtain ⟨hloop, hwait, hreg⟩ := hrest
  refine ⟨by rw [hpc]; exact hloop, by rw [hpc]; exact hwait, fun i hi hh => ?_⟩
  rw [hint, (closeAcceptor_epoll hnil).2, List.mem_filter] at hi
  have hne : i.fd ≠ (s.acceptors a).soc := of_decide_eq_true hi.2
  exact hne (hreg i hi.1 hh)

/-- A closed Acceptor was not called back, and is shut once no callback runs. -/
structure Silent (a : AccId) (s : State κ) : Prop where
  silent : SilentWhileClosed a s.heap.log
  shut : s.callback = none → closedSince a s.heap.log → s.pc.dead ∨ Shut a s

/-- As long as the Acceptor stays closed, `run` does not come to it. -/
theorem Silent.shut_of_step (hi : Silent a s) (hp : s.closesAtRest a act)
    (hs : s.step act = some s') (hcl : closedSince a s.heap.log)
    (hint : ∀ i ∈ s'.interest, i.handler = .acceptor a → i ∈ s.interest)
    (hnone : s'.callback = none) : s'.pc.dead ∨ Shut a s' := by
  have hctl := step_control hs
  have hstays : Shut a s → Shut a s' := fun hsh =>
    hsh.step hctl fun i hi' hh => hsh.interest i (hint i hi' hh) hh
  cases hcb : s.callback with
  | none =>
    rcases hi.shut hcb hcl with hd | hsh
    · exact .inl (hctl.dead hd)
    · exact .inr (hstays hsh)
  | some inv =>
    rcases callback_kept hcb hs with rfl | hkept | hd
    · exact .inr (hstays (hp.2 rfl hcl))
    · rw [hnone] at hkept
      cases hkept
    · exact .inl hd

theorem Silent.adds {P : Event → Prop} (hi : Silent a s) (hp : s.closesAtRest a act)
    (hs : s.step act = some s') (hlog : Adds P s.heap.log s'.heap.log)
    (hP : ∀ e, P e → e.acceptor ≠ some a ∨ socketOpened a e)
    (hint : ∀ i ∈ s'.interest, i.handler = .acceptor a → i ∈ s.interest) : Silent a s' := by
  have hboth : SilentWhileClosed a s'.heap.log ∧
      (closedSince a s'.heap.log ↔ closedSince a s.heap.log) := by
    refine hlog.rule (R := fun l => SilentWhileClosed a l ∧
      (closedSince a l ↔ closedSince a s.heap.log)) ⟨hi.silent, Iff.rfl⟩ ?_
    rintro e l he ⟨hs, hcl⟩
    refine ⟨(silentWhileClosed_cons ?_).mpr hs, (closedSince_cons (hP e he)).trans hcl⟩
    rintro code soc rfl
    rcases hP _ he with h | ⟨fd, h⟩
    · exact h rfl
    · cases h
  exact ⟨hboth.1, fun hnone hcl => hi.shut_of_step hp hs (hboth.2.mp hcl) hint hnone⟩

theorem Silent.step (hnil : s.fd = INVALID_HANDLE → s.interest = []) (hi : Silent a s)
    (hp : s.closesAtRest a act) (hs : s.step act = some s') : Silent a s' := by
  -- a `close`, by itself or in the destructor; outside a callback it is one at rest
  have hclose : s.removes act = some (.acceptor a) → s'.pc = s.pc → s'.callback = s.callback →
      s'.interest = (s.closeAcceptor a).interest →
      s'.heap.log = (s.closeAcceptor a).heap.log → Silent a s' := by
    intro hrem hpc hcb hint hlog
    refine ⟨?_, fun hnone _ => ?_⟩
    · obtain ⟨l, rfl, hadds⟩ := closeAcceptor_adds (s := s) (a := a)
      rw [hlog]
      refine hadds.rule (R := SilentWhileClosed a) hi.silent ?_
      rintro e l ⟨fd, rfl⟩ hsl
      exact hsl
    · rcases hp.1 hrem with hsome | hrest
      · rw [← hcb, hnone] at hsome
        cases hsome
      · exact .inr (shut_of_closed hrest hnil hpc hint)
  -- calls of an Acceptor that is not closed
  have hcalled : ¬ closedSince a s.heap.log →
      Adds Event.isAccept s.heap.log s'.heap.log → Silent a s' := by
    intro hopen hadds
    have hboth : SilentWhileClosed a s'.heap.log ∧ ¬ closedSince a s'.heap.log := by
      refine hadds.rule (R := fun l => SilentWhileClosed a l ∧ ¬ closedSince a l)
        ⟨hi.silent, hopen⟩ ?_
      rintro e l he ⟨hsl, hno⟩
      cases e with
      | accepted b code soc => exact ⟨⟨fun _ => hno, hsl⟩, hno⟩
      | opened | dispatched => exact ⟨hsl, hno⟩
      | _ => exact he.elim
    exact ⟨hboth.1, fun _ hcl => (hboth.2 hcl).elim⟩
  cases step_acceptor a hs with
  | aside ha => exact hi.adds hp hs ha.log (fun _ => .inl) ha.interest
  | created _ _ _ he =>
    subst he
    exact hi.adds (P := fun _ => False) hp hs .refl (fun _ h => h.elim) fun _ h _ => h
  | @listened cb r _ _ _ he =>
    subst he
    rcases listen_adds (s := s) (a := a) cb r with ⟨hint, hadds⟩ | ⟨i, l, -, -, hadds, hlog⟩
    · refine hi.adds hp hs hadds (fun _ => .inr) fun i h _ => ?_
      rw [← hint]
      exact h
    · refine ⟨?_, fun _ hcl => ?_⟩
      · rw [hlog]
        refine (silentWhileClosed_cons (by simp)).mpr (hadds.rule hi.silent ?_)
        rintro e l ⟨fd, rfl⟩ hsl
        exact hsl
      · rw [hlog] at hcl
        exact (hcl.1 rfl).elim
  | closed ha _ _ he =>
    subst ha
    subst he
    exact hclose rfl pc_closeAcceptor callback_closeAcceptor rfl rfl
  | destroyed ha _ _ he =>
    subst ha
    rcases destroyAcceptor_cases (s := s) (a := a) with ⟨hsoc, h⟩ | ⟨-, h⟩
    · rw [h] at he
      subst he
      exact hclose (if_pos hsoc) (by simp) (by simp) rfl rfl
    · rw [h] at he
      subst he
      exact hi.adds (P := fun _ => False) hp hs .refl (fun _ h => h.elim) fun _ h _ => h
  | accepted ha hc hpc hl hacc =>
    subst ha
    have hopen : ¬ closedSince a s.heap.log := by
      intro hcl
      rcases hi.shut hc hcl with hd | hsh
      · rw [hpc] at hd
        exact hd.elim
      · exact hsh.loop (by rw [hpc]; rfl)
    refine hcalled hopen ?_
    cases accept_round hc hpc hl hacc with
    | drained _ _ hlog =>
      rw [hlog]
      exact .refl
    | failed _ _ hlog =>
      rcases hlog with hlog | hlog
      · rw [hlog]
        exact .refl
      · rw [hlog]
        exact Adds.refl.cons (by trivial)
    | passed _ h =>
      rcases h with ⟨-, hlog⟩ | ⟨-, -, hlog⟩
      · rw [hlog]
        exact (Adds.refl.cons (by trivial)).cons (by trivial)
      · rw [hlog]
        exact Adds.refl.cons (by trivial)
    | dropped _ _ hlog =>
      rcases hlog with hlog | hlog
      · rw [hlog]
        exact Adds.refl.cons (by trivial)
      · rw [hlog]
        exact (Adds.refl.cons (by trivial)).cons (by trivial)
  | @hungup ev rest hc hpc hup hh hl he =>
    have hopen : ¬ closedSince a s.heap.log := by
      intro hcl
      rcases hi.shut hc hcl with hd | hsh
      · rw [hpc] at hd
        exact hd.elim
      · exact hsh.waiting ev (by rw [hpc]; exact List.mem_cons_self) hh (.inl hup)
    obtain ⟨-, -, hlog⟩ := onCloseAcceptor_cases (a := a)
      (s := { s with pc := .event rest }.emit (.dispatched ev.handler .onClose))
    refine hcalled hopen ?_
    rw [he]
    rcases hlog with ⟨-, hlog⟩ | ⟨-, hlog⟩
    · rw [hlog]
      exact (Adds.refl.cons (by trivial)).cons (by trivial)
    · rw [hlog]
      exact Adds.refl.cons (by trivial)

end State

/-- If an Acceptor is closed only while neither its loop runs nor an event of the batch is for it,
and has no second registration, its callback is not called between a `close` and a `listen`. A
callback may close it at any time, if it lets it listen again before it returns. -/
theorem closed_stays_silent (a : AccId) (hr : (proactor κ).Reachable (State.closesAtRest a) s) :
    SilentWhileClosed a s.heap.log := by
  have hi : s.Silent a := by
    apply hr.invariant (I := fun s => s.Silent a)
    · rintro s₀ ⟨mem, rfl⟩
      exact ⟨trivial, fun _ h => h.elim⟩
    · intro s₀ act s₁ hr₀ hi hp hs
      exact hi.step (State.interest_nil_of_reachable hr₀) hp hs
  exact hi.silent

/-- An Acceptor that listens on descriptor 5, and an event for it. -/
def oneListener : List (Action Unit) :=
  [.epollCreate 3 0, .createAcceptor 0 INVALID_SOCKET, .listen 0 () ⟨.ok 5, 0, .ok, 0, 0, 0⟩, .run,
    .epollWait (.events [⟨5, .acceptor 0, ⟨true, false, false, false, false⟩⟩]),
    .dispatch (.got []) (.accepted 0)]

/-- The callback closes the Acceptor on its first connection and lets it listen again, on
descriptor 7; then it gets an error of `::accept`, which ended the loop, and closes the Acceptor
for good. -/
theorem closed_stays_silent_error : ∃ s : State Unit,
    (proactor Unit).Reachable (State.closesAtRest 0) s ∧ s.pc = .event [] ∧
    s.heap.log.count (.removed (.acceptor 0)) = 2 ∧ .accepted 0 24 (-1) ∈ s.heap.log ∧
    SilentWhileClosed 0 s.heap.log := by
  obtain ⟨s, hr, hf⟩ := Machine.exists_of_exec (M := proactor Unit) (p := State.closesAtRest 0)
    (s := State.initial fun _ _ => 0)
    (l := oneListener ++ [.accept (.conn 6 .ok), .closeAcceptor 0,
      .listen 0 () ⟨.ok 7, 0, .ok, 0, 0, 0⟩, .ret, .accept (.fail 24), .closeAcceptor 0, .ret,
      .processCompletion])
    (f := fun s => (s.pc, s.heap.log.count (.removed (.acceptor 0)),
      decide (.accepted 0 24 (-1) ∈ s.heap.log)))
    (b := (.event [], 2, true)) ⟨_, rfl⟩ rfl
  simp only [Prod.mk.injEq] at hf
  obtain ⟨hpc, hrem, hacc⟩ := hf
  exact ⟨s, hr, hpc, hrem, of_decide_eq_true hacc, closed_stays_silent 0 hr⟩

/-- The callback closes the Acceptor on its first connection; the loop goes on with the descriptor
`-1` and calls it again. -/
theorem closed_called_again : ∃ s : State Unit, (proactor Unit).Reachable Machine.free s ∧
    s.heap.log.take 5 = [.accepted 0 EBADF (-1), .closedFd 5, .removed (.acceptor 0),
      .accepted 0 0 6, .opened 0 .accept 6] ∧ ¬ SilentWhileClosed 0 s.heap.log := by
  obtain ⟨s, hr, hlog⟩ := Machine.exists_of_exec (M := proactor Unit) (p := Machine.free)
    (s := State.initial fun _ _ => 0)
    (l := oneListener ++ [.accept (.conn 6 .ok), .closeAcceptor 0, .ret, .accept (.fail EBADF)])
    (f := fun s => s.heap.log.take 5)
    (b := [.accepted 0 EBADF (-1), .closedFd 5, .removed (.acceptor 0), .accepted 0 0 6,
      .opened 0 .accept 6]) ⟨_, rfl⟩ rfl
  refine ⟨s, hr, hlog, fun h => ?_⟩
  rw [← List.take_append_drop 5 s.heap.log, hlog] at h
  exact h.1 rfl (.inl rfl)

end EchoBenchmark.Proactor
