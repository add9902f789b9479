import EchoBenchmark.Lib.History
import EchoBenchmark.Proactor.Accounts
import EchoBenchmark.Proactor.Control

/-! What one step of the machine can do to one token, for the results about a single operation. -/

namespace EchoBenchmark.Proactor

open History (Adds)
open Heap (Noted)

variable {κ : Type} {t u : TokenId} {log : List Event} {e : Event}

/-- The token an entry is about. -/
def Event.token : Event → Option TokenId
  | .started t _ | .refused t _ | .called t .. | .armed t _ => some t
  | .sysRead id .. => some ⟨id, .read⟩
  | .sysWrite id .. => some ⟨id, .write⟩
  | _ => none

/-- How the callback of token `t` was called for the call with number `i`. -/
def Event.callOf (t : TokenId) (i : Nat) : Event → Option (Via × Int × Int)
  | .called u j code n via => if u = t ∧ j = i then some (via, code, n) else none
  | _ => none

def calls (t : TokenId) (i : Nat) (log : List Event) : List (Via × Int × Int) :=
  log.filterMap (Event.callOf t i)

theorem Event.isIo.token_eq (he : e.isIo t) : e.token = some t := by
  cases e with
  | sysRead | sysWrite => exact congrArg some (Eq.symm he)
  | _ => exact he.elim

theorem Event.isNote.token_eq (he : e.isNote) : e.token = none := by
  cases e <;> first | rfl | exact he.elim

/-- The history grew by entries that are not about the token. -/
abbrev Elsewhere (t : TokenId) : List Event → List Event → Prop := Adds fun e => e.token ≠ some t

theorem Noted.elsewhere {h h' : Heap κ} (hn : Noted h h') : Elsewhere t h.log h'.log := by
  obtain ⟨evs, he, hlog⟩ := hn.log
  refine ⟨evs, hlog, fun e hm ht => ?_⟩
  rw [(he e hm).token_eq] at ht
  cases ht

namespace Heap

variable {h h' : Heap κ} {q : Request κ} {ok : Bool}

theorem Begun.elsewhere (hs : Begun h q e h') (ht : t ≠ q.token) :
    Elsewhere t h.log h'.log := by
  have hne : some q.token ≠ some t := fun he => ht (Option.some.inj he).symm
  rw [hs.log]
  refine (Adds.refl.cons ?_).cons ?_
  · exact hne
  · rw [hs.io.token_eq]
    exact hne

/-- A call of the API leaves the other tokens alone. -/
theorem Opens.elsewhere (ho : Opens h q (h', ok)) (ht : t ≠ q.token) :
    h'.tok t = h.tok t ∧ Elsewhere t h.log h'.log := by
  have hne : some q.token ≠ some t := fun he => ht (Option.some.inj he).symm
  cases ho with
  | refused d _ =>
    rw [tok_refuse, if_neg ht]
    exact ⟨rfl, Adds.refl.cons hne⟩
  | finished hs _ =>
    rw [tok_finish, if_neg ht, hs.other t ht]
    exact ⟨rfl, hs.elsewhere ht⟩
  | @parked e h₁ n hs _ _ =>
    rw [tok_park, if_neg ht, hs.other t ht]
    refine ⟨rfl, ?_⟩
    rcases log_park_cases h₁ q.token n q.mode q.timeoutMsec q.clock with hlog | ⟨tv, hlog⟩
    · rw [hlog]
      exact hs.elsewhere ht
    · rw [hlog]
      exact (hs.elsewhere ht).cons hne

/-- A call on a free token makes its kernel call, and may arm the timer. -/
theorem Opens.log_eq (ho : Opens h q (h', ok)) (hm : (h.tok q.token).mode = .none) :
    ∃ evs, (∀ e ∈ evs, ∃ tv, e = .armed q.token tv) ∧
      h'.log = evs ++ q.call h.mem :: .started q.token h.nextCall :: h.log := by
  cases ho with
  | refused d hne => exact (hne hm).elim
  | finished hs _ =>
    refine ⟨[], by simp, ?_⟩
    rw [log_finish, hs.log, hs.made]
    rfl
  | @parked e h₁ n hs _ _ =>
    rcases log_park_cases h₁ q.token n q.mode q.timeoutMsec q.clock with hlog | ⟨tv, hlog⟩
    · refine ⟨[], by simp, ?_⟩
      rw [hlog, hs.log, hs.made]
      rfl
    · refine ⟨[.armed q.token tv], by simp, ?_⟩
      rw [hlog, hs.log, hs.made]
      rfl

theorem Progresses.elsewhere (hp : Progresses h u h') (ht : t ≠ u) :
    Elsewhere t h.log h'.log := by
  rcases hp.log with hlog | ⟨e, he, hlog⟩
  · rw [hlog]
    exact Adds.refl
  · rw [hlog]
    exact Adds.refl.cons (he.token_eq ▸ fun he' => ht (Option.some.inj he').symm)

end Heap

/-! ### The event of a turn -/

variable {s s' : State κ} {act : Action κ}

/-- The batch calls `onRead` or `onWrite` for the token. -/
theorem heap_of_turn (hs : s.step act = some s') (ht : Turn s s' t) :
    (t.dir = .read ∧ ∃ ev r,
      s'.heap = (s.heap.emit (.dispatched ev .onRead)).onRead t.sock r) ∨
    (t.dir = .write ∧ ∃ ev w,
      s'.heap = (s.heap.emit (.dispatched ev .onWrite)).onWrite t.sock w) := by
  cases ht with
  | read hpc hup hin hh hpc' =>
    have hno : ∀ {p : Pc} {P : Prop}, s.pc = p → p ≠ s.pc → P := fun hp hne => (hne hp.symm).elim
    cases State.step_control hs with
    | reads hpc₂ _ _ _ _ _ _ hheap =>
      cases hpc.symm.trans hpc₂
      rcases hheap _ hh with hd | ⟨r, w, -, he⟩
      · rw [hpc'] at hd
        exact hd.elim
      · exact .inl ⟨rfl, _, r, he⟩
    | stays h _ _ | removes _ _ h _ _ _ =>
      rw [hpc', hpc] at h
      cases h
    | dies hd _ _ =>
      rw [hpc'] at hd
      exact hd.elim
    | closes hpc₂ hup₂ _ _ =>
      cases hpc.symm.trans hpc₂
      rw [hup] at hup₂
      cases hup₂
    | skips hpc₂ _ hin₂ _ _ _ =>
      cases hpc.symm.trans hpc₂
      rw [hin] at hin₂
      cases hin₂
    | enters h _ _ _ | leaves h _ _ _ | idles h _ _ _ | polls _ h _ _ _ _ _
    | writes h _ _ _ _ _ | passes h _ _ _ _ | accepts _ h _ _ | drops h _ _ _ _ _
    | continues h _ _ _ _ _ | ends h _ _ _ _ | times h _ _ _ | loops h _ _ _ =>
      exact hno h (by rw [hpc]; simp)
  | write hpc hout hh hpc' =>
    have hno : ∀ {p : Pc} {P : Prop}, s.pc = p → p ≠ s.pc → P := fun hp hne => (hne hp.symm).elim
    cases State.step_control hs with
    | writes hpc₂ _ _ _ _ hheap =>
      cases hpc.symm.trans hpc₂
      rcases hheap _ hh with hd | ⟨r, w, -, he⟩
      · rw [hpc'] at hd
        exact hd.elim
      · exact .inr ⟨rfl, _, w, he⟩
    | stays h _ _ | removes _ _ h _ _ _ =>
      rw [hpc', hpc] at h
      cases h
    | dies hd _ _ =>
      rw [hpc'] at hd
      exact hd.elim
    | passes hpc₂ hout₂ _ _ _ =>
      cases hpc.symm.trans hpc₂
      rw [hout] at hout₂
      cases hout₂
    | enters h _ _ _ | leaves h _ _ _ | idles h _ _ _ | polls _ h _ _ _ _ _
    | closes h _ _ _ | reads h _ _ _ _ _ _ _ | skips h _ _ _ _ _ | accepts _ h _ _
    | drops h _ _ _ _ _ | continues h _ _ _ _ _ | ends h _ _ _ _ | times h _ _ _
    | loops h _ _ _ =>
      exact hno h (by rw [hpc]; simp)

/-! ### The step of a token -/

/-- How a token, and what the history says about it, follow from those before the step. -/
inductive TokenStep (s : State κ) (act : Action κ) (s' : State κ) (t : TokenId) : Prop
  | aside : s'.heap.tok t = s.heap.tok t → Elsewhere t s.heap.log s'.heap.log →
      TokenStep s act s' t
  | remade {tv : Timeval} : s'.heap.tok t = .new tv → Elsewhere t s.heap.log s'.heap.log →
      TokenStep s act s' t
  | opened {q : Request κ} : act.request = some q → q.token = t →
      s.heap.live t.sock = true → s.heap.Opens q (s'.heap, s.answer act) → TokenStep s act s' t
  | read {ev : Handler} {r : ReadResult} : t.dir = .read → s.heap.live t.sock = true →
      s'.heap = (s.heap.emit (.dispatched ev .onRead)).onRead t.sock r → TokenStep s act s' t
  | wrote {ev : Handler} {w : WriteResult} : t.dir = .write → s.heap.live t.sock = true →
      s'.heap = (s.heap.emit (.dispatched ev .onWrite)).onWrite t.sock w → TokenStep s act s' t
  | completed {cb : Callback κ} : (s.heap.tok t).mode.finished → (s.heap.tok t).cb = some cb →
      s'.heap.tok t = { s.heap.tok t with mode := .none } →
      s'.heap.log = .called t cb.call (s.heap.tok t).err.code (s.heap.tok t).ioSize .completion ::
        s.heap.log → TokenStep s act s' t
  | fired {cb : Callback κ} : (s.heap.tok t).mode.pending → (s.heap.tok t).cb = some cb →
      s'.heap.tok t = { s.heap.tok t with mode := .none, err := ⟨ETIMEDOUT, .timeout⟩ } →
      s'.heap.log = .called t cb.call ETIMEDOUT 0 .timer :: s.heap.log → TokenStep s act s' t
  | hungup {r : ReadResult} {w : WriteResult} : act = .dispatch r w → s.hangsUp t.sock →
      TokenStep s act s' t

theorem elsewhere_invoke {err : Error} {bytes : Int} {via : Via} (ht : t ≠ u)
    (hl : Elsewhere t log s.heap.log) :
    Elsewhere t log (s.invoke u err bytes via).heap.log := by
  obtain ⟨-, he⟩ | ⟨cb, -, he⟩ := State.invoke_cases s u err bytes via
  · rw [he]
    exact hl
  · rw [he]
    exact hl.cons fun he' => ht (Option.some.inj he').symm

theorem elsewhere_onCloseSocket {id : SockId} (ht : t.sock ≠ id)
    (hl : Elsewhere t log s.heap.log) : Elsewhere t log (s.onCloseSocket id).heap.log := by
  refine State.onCloseSocket_rule (P := fun s' => Elsewhere t log s'.heap.log) hl fun u hu => ?_
  refine elsewhere_invoke (by rintro rfl; exact ht hu) ?_
  exact hl

/-- Every step of a run does one of these to every token. -/
theorem step_token (hb : Consistent s) (hd : s.heap.Delivers) (hs : s.step act = some s')
    (t : TokenId) : TokenStep s act s' t := by
  have hcb : (s.heap.tok t).mode ≠ .none → ∃ cb, (s.heap.tok t).cb = some cb := fun hm =>
    (hd.busy t hm).imp fun _ h => h.1
  cases State.step_effect hs with
  | noted hn _ => exact .aside (hn.tok t) (Noted.elsewhere hn)
  | @created id soc rtv wtv hl hn hpc =>
    have hlog : Elsewhere t s.heap.log s'.heap.log :=
      (Adds.refl.cons (by simp [Event.token])).trans (Noted.elsewhere hn)
    by_cases hid : t.sock = id
    · obtain ⟨tv, hnew⟩ : ∃ tv, (s.heap.create id soc rtv wtv).tok t = .new tv := by
        rw [Heap.tok_create, if_pos hid]
        exact ⟨_, rfl⟩
      exact .remade ((hn.tok t).trans hnew) hlog
    · refine .aside ((hn.tok t).trans ?_) hlog
      rw [Heap.tok_create, if_neg hid]
  | @opened q hq hl ho hpc =>
    by_cases ht : t = q.token
    · exact .opened hq ht.symm (ht ▸ hl) ho
    · obtain ⟨htok, hlog⟩ := ho.elsewhere ht
      exact .aside htok hlog
  | @progressed u h₁ hl hn hpr htu =>
    by_cases ht : t = u
    · subst ht
      obtain ⟨hdir, ev, r, he⟩ | ⟨hdir, ev, w, he⟩ := heap_of_turn hs htu
      · exact .read hdir hl he
      · exact .wrote hdir hl he
    · exact .aside ((hpr.other ht).trans (hn.tok t))
        ((Noted.elsewhere hn).trans (hpr.elsewhere ht))
  | @destroyed id h₁ hl hn he hpc =>
    have hlog : Elsewhere t s.heap.log s'.heap.log := by
      rw [he]
      refine (Noted.elsewhere hn).trans ⟨[.destroyed id], ?_, by simp [Event.token]⟩
      exact congrArg (Event.destroyed id :: ·) Heap.log_unlink
    by_cases hid : t.sock = id
    · obtain ⟨tv, hnew⟩ : ∃ tv, s'.heap.tok t = .new tv := by
        rw [he, Heap.tok_release, if_pos hid]
        exact ⟨_, rfl⟩
      exact .remade hnew hlog
    · refine .aside ?_ hlog
      rw [he, Heap.tok_release, if_neg hid, Heap.tok_unlink, hn.tok]
  | @completed u rest hc hpc hq hl he =>
    have hlog : (s.onHeap (·.complete u)).heap.log = s.heap.log := rfl
    by_cases ht : t = u
    · subst ht
      have hfin : (s.heap.tok t).mode.finished :=
        (hb.books.queued t).mp (by rw [hq]; exact List.mem_cons_self)
      have htok : (s.heap.complete t).tok t = { s.heap.tok t with mode := .none } := by
        rw [Heap.tok_complete, if_pos rfl]
      obtain ⟨cb, hcb⟩ := hcb (Mode.ne_none_of_finished hfin)
      obtain ⟨hno, -⟩ | ⟨cb', hcb', hi⟩ := State.invoke_cases (s.onHeap (·.complete t)) t
        ((s.heap.tok t).err) ((s.heap.tok t).ioSize) .completion
      · rw [State.heap_onHeap, htok, hcb] at hno
        cases hno
      · rw [State.heap_onHeap, htok] at hcb'
        refine .completed hfin hcb' ?_ ?_
        · rw [he, State.tok_invoke]
          exact htok
        · rw [he, hi]
          rfl
    · refine .aside ?_ ?_
      · rw [he, State.tok_invoke, State.heap_onHeap, Heap.tok_complete, if_neg ht]
      · rw [he]
        exact elsewhere_invoke ht Adds.refl
  | @fired u rest now hc hpc hq hl hlt he =>
    by_cases ht : t = u
    · subst ht
      have hpend : (s.heap.tok t).mode.pending :=
        hb.settled (by rw [hpc]; trivial) t (by rw [hq]; exact List.mem_cons_self)
      have htok : (s.heap.expire t rest).tok t =
          { s.heap.tok t with mode := .none, err := ⟨ETIMEDOUT, .timeout⟩ } := by
        rw [Heap.tok_expire, if_pos rfl]
      obtain ⟨cb, hcb⟩ := hcb (Mode.ne_none_of_pending hpend)
      obtain ⟨hno, -⟩ | ⟨cb', hcb', hi⟩ := State.invoke_cases (s.onHeap (·.expire t rest)) t
        ⟨ETIMEDOUT, .timeout⟩ 0 .timer
      · rw [State.heap_onHeap, htok, hcb] at hno
        cases hno
      · rw [State.heap_onHeap, htok] at hcb'
        refine .fired hpend hcb' ?_ ?_
        · rw [he, State.tok_invoke]
          exact htok
        · rw [he, hi]
          rfl
    · refine .aside ?_ ?_
      · rw [he, State.tok_invoke, State.heap_onHeap, Heap.tok_expire, if_neg ht]
      · rw [he]
        exact elsewhere_invoke ht Adds.refl
  | @hungup id ev rest r w ha hc hpc hup hh hl he =>
    by_cases hid : t.sock = id
    · exact .hungup ha ⟨ev, rest, hpc, hup, hid ▸ hh, hid ▸ hl⟩
    · refine .aside ?_ ?_
      · rw [he]
        refine State.onCloseSocket_rule (P := fun s' => s'.heap.tok t = s.heap.tok t) ?_ ?_
        · rw [State.tok_resetErrs, if_neg hid]
          rfl
        · intro u _
          rw [State.tok_invoke, State.tok_resetErrs, if_neg hid]
          rfl
      · rw [he]
        exact elsewhere_onCloseSocket hid (Adds.refl.cons (by simp [Event.token]))

/-! ### Writes wait for all of their bytes -/

theorem mode_of_write_request {q : Request κ} (hq : act.request = some q)
    (hd : q.token.dir = .write) : q.mode = .all := by
  cases act with
  | readSome | readAll =>
    cases hq
    cases hd
  | writeAll =>
    cases hq
    rfl
  | _ => cases hq

/-- The mode of a write token after a step. -/
theorem write_mode_step (hs : s.step act = some s') (hd : t.dir = .write) :
    (s'.heap.tok t).mode = (s.heap.tok t).mode ∨ (s'.heap.tok t).mode ≠ .some := by
  cases State.step_effect hs with
  | noted hn _ => exact .inl (congrArg Token.mode (hn.tok t))
  | @created id soc rtv wtv hl hn hpc =>
    rw [hn.tok, Heap.tok_create]
    split
    · exact .inr nofun
    · exact .inl rfl
  | @opened q hq hl ho hpc =>
    by_cases ht : t = q.token
    · have hmode : q.mode = .all := mode_of_write_request hq (ht ▸ hd)
      generalize hx : s'.heap = h' at ho
      generalize s.answer act = ok at ho
      cases ho with
      | refused d _ =>
        left
        rw [ht, Heap.tok_refuse, if_pos rfl]
      | finished _ hf =>
        right
        rw [ht, Heap.tok_finish, if_pos rfl]
        rcases hf with rfl | rfl <;> exact nofun
      | parked _ _ _ =>
        right
        rw [ht, Heap.tok_park, if_pos rfl, hmode]
        exact nofun
    · exact .inl (congrArg Token.mode (ho.other ht))
  | @progressed u h₁ hl hn hp htu =>
    by_cases ht : t = u
    · subst ht
      generalize hx : s'.heap = h' at hp
      cases hp with
      | idle _ => exact .inl (congrArg Token.mode (hn.tok t))
      | waits _ hto _ => exact .inl (hto.mode.trans (congrArg Token.mode (hn.tok t)))
      | finishes _ _ hf =>
        right
        rw [Heap.tok_finish, if_pos rfl]
        rcases hf with rfl | rfl <;> exact nofun
    · exact .inl (congrArg Token.mode ((hp.other ht).trans (hn.tok t)))
  | @destroyed id h₁ hl hn he hpc =>
    rw [he, Heap.tok_release]
    split
    · exact .inr nofun
    · rw [Heap.tok_unlink, hn.tok]
      exact .inl rfl
  | @completed u rest hc hpc hq hl he =>
    rw [he, State.tok_invoke, State.heap_onHeap, Heap.tok_complete]
    split
    · exact .inr nofun
    · exact .inl rfl
  | @fired u rest now hc hpc hq hl hlt he =>
    rw [he, State.tok_invoke, State.heap_onHeap, Heap.tok_expire]
    split
    · exact .inr nofun
    · exact .inl rfl
  | @hungup id ev rest r w ha hc hpc hup hh hl he =>
    left
    have hreset : ∀ s₀ : State κ,
        ((s₀.resetErrs id).heap.tok t).mode = (s₀.heap.tok t).mode := by
      intro s₀
      rw [State.tok_resetErrs]
      split <;> rfl
    rw [he]
    refine State.onCloseSocket_rule
      (P := fun s' => (s'.heap.tok t).mode = (s.heap.tok t).mode) ?_ ?_
    · exact hreset _
    · intro u _
      rw [State.tok_invoke]
      exact hreset _

theorem write_mode_of_reachable {p : State κ → Action κ → Prop}
    (hr : (proactor κ).Reachable p s) (hd : t.dir = .write) : (s.heap.tok t).mode ≠ .some := by
  apply hr.invariant (I := fun s => (s.heap.tok t).mode ≠ .some)
  · rintro s₀ ⟨mem, rfl⟩
    obtain ⟨i, d⟩ := t
    cases d <;> exact nofun
  · intro s₀ act s₁ _ hm _ hs
    rcases write_mode_step hs hd with he | he
    · rw [he]
      exact hm
    · exact he

end EchoBenchmark.Proactor
