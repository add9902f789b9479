import EchoBenchmark.Lib.Due
import EchoBenchmark.Proactor.Accounts
import EchoBenchmark.Proactor.Control

/-!
`_processTimer` while its callbacks start and end operations: it ends, and it fires the operations
whose deadline has passed, in the order of their deadlines.
-/

namespace EchoBenchmark.Proactor

open Due (due Refills Scan)

variable {κ : Type}

/-- The members of the timer list with their deadlines. -/
def Heap.timers (h : Heap κ) : List (TokenId × Timeval) := h.timerList.map fun t => (t, h.tv t)

/-- The timeouts delivered, latest first, with the deadlines that the tokens were armed with. -/
def fires : List Event → List (TokenId × Option Timeval)
  | [] => []
  | .called t _ _ _ .timer :: past => (t, armedAt t past) :: fires past
  | _ :: past => fires past

/-- The next step is in the scan that read `now`, and a call of the API in it has no negative
timeout and no earlier reading of the clock. -/
def State.scans (now : Timeval) (s : State κ) (act : Action κ) : Prop :=
  s.pc = .timer now ∧ ∀ q ∈ act.request, 0 ≤ q.timeoutMsec ∧ now ≤ q.clock

instance (now : Timeval) (s : State κ) (act : Action κ) : Decidable (s.scans now act) :=
  inferInstanceAs (Decidable (_ ∧ _))

/-- The next step is one of a callback that the scan called. -/
def State.scansInside (now : Timeval) (s : State κ) (act : Action κ) : Prop :=
  s.scans now act ∧ s.callback.isSome = true

/-- A round of the scan that calls a callback, up to its return. -/
def State.scanRound (now : Timeval) (s s' : State κ) : Prop :=
  ∃ s₁ s₂, s.pc = .timer now ∧ s.step .processTimer = some s₁ ∧ s₁.callback.isSome = true ∧
    (proactor κ).Steps (State.scansInside now) s₁ s₂ ∧ s₂.step .ret = some s'

/-- A deadline is no earlier than the reading of the clock it was computed from. -/
theorem le_timeradd {clock : Timeval} {ms : Int} (hms : 0 ≤ ms) :
    clock ≤ timeradd clock (ofMsec ms) := by
  have hsec : 0 ≤ ms.tdiv 1000 := Int.tdiv_nonneg hms (by decide)
  have husec : 0 ≤ ms.tmod 1000 := Int.tmod_nonneg _ hms
  refine not_lt.mp fun hlt => ?_
  rw [Timeval.lt_iff_timercmp, timercmp_iff] at hlt
  unfold timeradd at hlt
  split at hlt
  · simp only [ofMsec] at hlt
    omega
  · simp only [ofMsec] at hlt
    omega

section Steps

open Heap (Noted)

variable {s s' s₁ s₂ : State κ} {act : Action κ} {now : Timeval} {h h' : Heap κ} {t : TokenId}
  {log log' evs : List Event}

theorem nodup_timers (hb : h.Books) : h.timers.Nodup :=
  hb.sorted.nodup.map_on fun _ _ _ _ he => congrArg Prod.fst he

/-- Members that were there with the same deadline refill the list. -/
theorem refills_of_tv (ht : ∀ t ∈ h'.timerList, t ∈ h.timerList ∧ h'.tv t = h.tv t) :
    Refills now h.timers h'.timers := by
  intro e he
  obtain ⟨t, hmem, rfl⟩ := List.mem_map.mp he
  obtain ⟨hold, htv⟩ := ht t hmem
  refine .inl (List.mem_map.mpr ⟨t, hold, ?_⟩)
  rw [htv]

theorem refills_of_noted (hn : Noted h h') : Refills now h.timers h'.timers :=
  refills_of_tv fun t hmem => ⟨hn.timerList ▸ hmem, hn.tv t⟩

/-- A call of the API arms at most its own token, with a deadline that is not due. -/
theorem refills_of_opens {q : Request κ} {ok : Bool} (hb : h.Books) (ho : h.Opens q (h', ok))
    (hms : 0 ≤ q.timeoutMsec) (hclock : now ≤ q.clock) : Refills now h.timers h'.timers := by
  have hkeep : ∀ {h₁ : Heap κ} {e : Event}, h.Begun q e h₁ → ∀ t ∈ h.timerList,
      h₁.tv t = h.tv t := by
    intro h₁ e hs t hmem
    have hne : t ≠ q.token := by
      rintro rfl
      exact hb.not_timed hs.free hmem
    exact congrArg Token.tv (hs.other t hne)
  cases ho with
  | refused d hm =>
    refine refills_of_tv fun t hmem => ⟨hmem, ?_⟩
    rw [Heap.tv, Heap.tok_refuse]
    split
    · rename_i ht
      rw [ht]
      rfl
    · rfl
  | finished hs hf =>
    refine refills_of_tv fun t hmem => ?_
    rw [Heap.timerList_finish, hs.timerList] at hmem
    refine ⟨hmem, ?_⟩
    rw [← hkeep hs t hmem, Heap.tv, Heap.tok_finish]
    split
    · rename_i ht
      rw [ht]
      rfl
    · rfl
  | @parked e h₁ n hs hp he =>
    intro x hx
    obtain ⟨t, hmem, rfl⟩ := List.mem_map.mp hx
    by_cases ht : t = q.token
    · right
      have hne : q.timeoutMsec ≠ 0 := by
        intro hz
        rw [hz, Heap.timerList_park_zero, hs.timerList, ht] at hmem
        exact hb.not_timed hs.free hmem
      have htv : (h₁.park q.token n q.mode q.timeoutMsec q.clock).tv t =
          timeradd q.clock (ofMsec q.timeoutMsec) := by
        rw [Heap.tv, Heap.tok_park, if_pos ht, Heap.deadline, if_neg hne]
      change now ≤ Heap.tv _ t
      rw [htv]
      exact hclock.trans (le_timeradd hms)
    · left
      have hold : t ∈ h.timerList := by
        rw [← hs.timerList]
        by_cases hz : q.timeoutMsec = 0
        · rw [hz, Heap.timerList_park_zero] at hmem
          exact hmem
        · rw [Heap.timerList_park hz] at hmem
          exact (KeyedSet.mem_of_mem_insert hmem).resolve_left ht
      refine List.mem_map.mpr ⟨t, hold, ?_⟩
      rw [Heap.Books.tv_park_of_ne ht, hkeep hs t hold]

/-- What one step of a scan does to the timer list: it refills it, or it takes the first member,
which is due, and calls its callback. -/
inductive ScanStep (s s' : State κ) (now : Timeval) : Prop
  | refills : callLog s'.heap.log = callLog s.heap.log → Refills now s.heap.timers s'.heap.timers →
      ScanStep s s' now
  | fires {t : TokenId} {i : Nat} : s.callback = none → s'.callback.isSome = true →
      s'.pc = s.pc → t ∈ s.heap.timerList → s.heap.timers = (t, s.heap.tv t) :: s'.heap.timers →
      s.heap.tv t < now → s'.heap.log = .called t i ETIMEDOUT 0 .timer :: s.heap.log →
      ScanStep s s' now

theorem scan_step (hb : Consistent s) (hd : s.heap.Delivers) (hg : s.scans now act)
    (hs : s.step act = some s') : ScanStep s s' now := by
  obtain ⟨hpc, hreq⟩ := hg
  cases State.step_effect hs with
  | noted hn _ => exact .refills (callLog_noted hn) (refills_of_noted hn)
  | @created id soc rtv wtv hl hn hpc' =>
    refine .refills ((callLog_noted hn).trans (callLog_cons_of_not rfl)) ?_
    refine refills_of_tv fun t hmem => ?_
    rw [hn.timerList] at hmem
    have hne : t.sock ≠ id := by
      rintro rfl
      exact hb.books.timed t hmem (hb.books.gone t hl)
    refine ⟨hmem, (hn.tv t).trans ?_⟩
    rw [Heap.tv, Heap.tok_create, if_neg hne]
    rfl
  | @opened q hq hl ho hpc' =>
    obtain ⟨hms, hclock⟩ := hreq q hq
    exact .refills (callLog_opens ho) (refills_of_opens hb.books ho hms hclock)
  | progressed hl hn hpr ht =>
    refine (ht.not_looping ?_).elim
    rw [hpc]
    trivial
  | @destroyed id h₁ hl hn he hpc' =>
    refine .refills ?_ (refills_of_tv fun t hmem => ?_)
    · rw [he]
      refine Eq.trans ?_ (callLog_noted hn)
      exact (callLog_cons_of_not rfl).trans (congrArg callLog Heap.log_unlink)
    · rw [he] at hmem ⊢
      have hne := Heap.sock_ne_of_mem_unlink hmem
      have hold := (Heap.mem_timerList_unlink.mp hmem).1
      rw [hn.timerList] at hold
      refine ⟨hold, ?_⟩
      rw [Heap.tv, Heap.tok_release, if_neg hne, Heap.tok_unlink, hn.tok]
      rfl
  | completed hc hdr hq hl he =>
    rw [hpc] at hdr
    exact hdr.elim
  | @fired t rest now' hc hpc' ht hl hlt he =>
    cases hpc.symm.trans hpc'
    have hmem : t ∈ s.heap.timerList := by
      rw [ht]
      exact List.mem_cons_self
    have hpend := hb.settled (by rw [hpc]; trivial) t hmem
    obtain ⟨cb, hcb, -⟩ := hd.busy t (Mode.ne_none_of_pending hpend)
    obtain ⟨hno, -⟩ | ⟨cb', hcb', hi⟩ := State.invoke_cases (s.onHeap (·.expire t rest)) t
      ⟨ETIMEDOUT, .timeout⟩ 0 .timer
    · rw [State.heap_onHeap, Heap.tok_expire, if_pos rfl, hcb] at hno
      cases hno
    · rw [hi] at he
      have hsorted := hb.books.sorted
      rw [ht] at hsorted
      have htimers : s'.heap.timers = rest.map fun u => (u, s.heap.tv u) := by
        rw [he]
        refine List.map_congr_left fun u hu => ?_
        have hne : u ≠ t := by
          rintro rfl
          exact lt_irrefl _ (hsorted.head_lt hu)
        have htok := Heap.tok_expire (h := s.heap) (t := t) (u := u) rest
        rw [if_neg hne] at htok
        exact congrArg (fun k : Token κ => (u, k.tv)) htok
      refine .fires (t := t) (i := cb'.call) hc ?_ ?_ hmem ?_ hlt ?_
      · rw [he]
        rfl
      · rw [he]
        rfl
      · rw [htimers, Heap.timers, ht]
        rfl
      · rw [he]
        rfl
  | hungup ha hc hpc' hup hh hl he =>
    rw [hpc] at hpc'
    cases hpc'

/-! ### The run of a scan -/

theorem fires_append (hn : callLog evs = []) : fires (evs ++ log) = fires log := by
  induction evs with
  | nil => rfl
  | cons e evs ih =>
    cases e with
    | called t i code n via => cases hn
    | _ => exact ih hn

theorem fires_of_callLog (hsuf : log <:+ log') (hc : callLog log' = callLog log) :
    fires log' = fires log := by
  obtain ⟨evs, rfl⟩ := hsuf
  refine fires_append ?_
  have happ : callLog (evs ++ log) = callLog evs ++ callLog log := List.filter_append _ _
  rw [happ] at hc
  exact List.append_left_eq_self.mp hc

/-- What the scan from `s` has done when it stands at `s'`. -/
structure Scanned (now : Timeval) (s s' : State κ) (fs : List (TokenId × Timeval)) : Prop where
  fires : Proactor.fires s'.heap.log = fs.map (Prod.map id some) ++ Proactor.fires s.heap.log
  scan : Scan now (due now s.heap.timers).length s'.heap.timers fs

theorem Scanned.step {s₀ : State κ} {fs : List (TokenId × Timeval)} (hb : Consistent s)
    (hd : s.heap.Delivers) (hi : Scanned now s₀ s fs) (hg : s.scans now act)
    (hs : s.step act = some s') : ∃ fs', Scanned now s₀ s' fs' := by
  have hb' := (hb.step hs).books
  cases scan_step hb hd hg hs with
  | refills hcalls hr =>
    refine ⟨fs, ?_, hi.scan.refill hr (nodup_timers hb')⟩
    rw [fires_of_callLog (State.log_suffix_of_step hs) hcalls, hi.fires]
  | @fires t i hc hc' hpc hmem htimers hlt hlog =>
    refine ⟨(t, s.heap.tv t) :: fs, ?_, ?_⟩
    · rw [hlog]
      change (t, armedAt t s.heap.log) :: Proactor.fires s.heap.log = _
      rw [hb.books.armed t hmem, hi.fires]
      rfl
    · have hscan := hi.scan
      have hsorted : s.heap.timers.Pairwise fun a b => a.2 < b.2 :=
        List.pairwise_map.mpr hb.books.sorted
      have hnodup := nodup_timers hb.books
      rw [htimers] at hscan hsorted hnodup
      refine hscan.take hlt (fun x hx => ((List.pairwise_cons.mp hsorted).1 x hx).le) ?_
      intro x hx heq
      have hx' : x ∈ s.heap.timers := by
        rw [htimers]
        exact List.mem_cons_of_mem _ hx
      obtain ⟨u, -, rfl⟩ := List.mem_map.mp hx'
      have heq : u = t := heq
      subst heq
      exact lt_irrefl _ ((List.pairwise_cons.mp hsorted).1 _ hx)

/-- Only the loop of `_processTimer` itself ends the scan. -/
theorem eq_processTimer_of_ends (hpc : s.pc = .timer now) (hs : s.step act = some s')
    (hpoll : s'.pc = .poll) : act = .processTimer ∧ s.callback = none := by
  have hnone : s'.callback = none := by
    cases State.step_control hs with
    | stays hpc' | removes _ _ hpc' =>
      rw [hpc'.symm.trans hpoll] at hpc
      cases hpc
    | dies hdead =>
      rw [hpoll] at hdead
      exact hdead.elim
    | loops _ _ hc _ => exact hc
    | enters hpc' | leaves hpc' | idles hpc' | polls _ hpc' | closes hpc' | reads hpc' | skips hpc'
    | writes hpc' | passes hpc' | accepts _ hpc' | drops hpc' | continues hpc' | ends hpc'
    | times hpc' =>
      rw [hpc] at hpc'
      cases hpc'
  cases hc : s.callback with
  | some inv =>
    rcases State.callback_kept hc hs with rfl | hc' | hdead
    · dsimp only [State.step] at hs
      split at hs
      · cases hs
        cases hpc.symm.trans hpoll
      · cases hs
    · rw [hnone] at hc'
      cases hc'
    · rw [hpoll] at hdead
      exact hdead.elim
  | none =>
    refine ⟨?_, rfl⟩
    have hidle : s.userActive = false := by simp [State.userActive, hc, hpc]
    cases act with
    | processTimer => rfl
    | stop | environment =>
      cases hs
      cases hpc.symm.trans hpoll
    | _ =>
      simp [State.step, State.user, State.library, State.dispatch, State.accept,
        State.processCompletion, State.startTimer, hidle, hc, hpc] at hs

/-- A round of the scan: it finds no due member and ends, or it calls the callback of the first. -/
theorem processTimer_round (hb : Consistent s) (hd : s.heap.Delivers) (hpc : s.pc = .timer now)
    (hc : s.callback = none) : ∃ s', s.step .processTimer = some s' ∧
      (due now s.heap.timers = [] ∧ s' = { s with pc := .poll } ∨
        s'.pc = .timer now ∧ s'.callback.isSome = true ∧
          callLog s'.heap.log ≠ callLog s.heap.log) := by
  have hstep : s.step .processTimer = s.processTimer := by
    simp only [State.step, State.library, hc]
  rw [hstep]
  unfold State.processTimer
  rw [hpc]
  dsimp only
  cases ht : s.heap.timerList with
  | nil =>
    refine ⟨_, rfl, .inl ⟨?_, rfl⟩⟩
    simp [Heap.timers, ht, due]
  | cons cur rest =>
    have hmem : cur ∈ s.heap.timerList := by
      rw [ht]
      exact List.mem_cons_self
    have hbusy := hb.books.timed cur hmem
    have hlive : s.heap.live cur.sock ≠ false := fun hl => hbusy (hb.books.gone cur hl)
    dsimp only
    rw [if_neg hlive]
    split
    · refine ⟨_, rfl, .inr ?_⟩
      obtain ⟨cb, hcb, -⟩ := hd.busy cur hbusy
      obtain ⟨hno, -⟩ | ⟨cb', hcb', hi⟩ := State.invoke_cases (s.onHeap (·.expire cur rest)) cur
        (((s.onHeap (·.expire cur rest)).heap.tok cur).err) 0 .timer
      · rw [State.heap_onHeap, Heap.tok_expire, if_pos rfl, hcb] at hno
        cases hno
      · rw [hi]
        exact ⟨hpc, rfl, List.cons_ne_self _ _⟩
    · rename_i hlt
      refine ⟨_, rfl, .inl ⟨?_, rfl⟩⟩
      refine List.filter_eq_nil_iff.mpr fun e he => ?_
      obtain ⟨u, hu, rfl⟩ := List.mem_map.mp he
      rw [decide_eq_true_eq]
      have hsorted := hb.books.sorted
      rw [ht] at hu hsorted
      rcases List.mem_cons.mp hu with rfl | hu
      · exact hlt
      · exact fun h => hlt ((hsorted.head_lt hu).trans h)

/-- A round that calls a callback leaves fewer due members. -/
theorem due_lt_of_scanRound (hb : Consistent s) (hd : s.heap.Delivers)
    (hr : s.scanRound now s') : Consistent s' ∧ s'.heap.Delivers ∧
      (due now s'.heap.timers).length < (due now s.heap.timers).length := by
  obtain ⟨s₁, s₂, hpc, hs, hc₁, hst, hret⟩ := hr
  have hc : s.callback = none := (State.library_some hs).1
  have hfired : (due now s₁.heap.timers).length < (due now s.heap.timers).length := by
    obtain ⟨s₁', hs', ⟨-, rfl⟩ | ⟨-, -, hcalls⟩⟩ := processTimer_round hb hd hpc hc
    · cases hs.symm.trans hs'
      rw [hc] at hc₁
      cases hc₁
    · cases hs.symm.trans hs'
      have hscan : s.scans now .processTimer := ⟨hpc, fun _ hq => by cases hq⟩
      cases scan_step hb hd hscan hs with
      | refills hsame _ => exact (hcalls hsame).elim
      | fires _ _ _ _ htimers hlt _ =>
        rw [htimers, Due.length_due_cons hlt]
        exact Nat.lt_succ_self _
  have hinside : Consistent s₂ ∧ s₂.heap.Delivers ∧
      (due now s₂.heap.timers).length ≤ (due now s₁.heap.timers).length := by
    refine Machine.Steps.invariant (I := fun u => Consistent u ∧ u.heap.Delivers ∧
      (due now u.heap.timers).length ≤ (due now s₁.heap.timers).length) ?_ hst
      ⟨hb.step hs, State.delivers_step hd hb hs, Nat.le_refl _⟩
    rintro u act u' ⟨hbu, hdu, hle⟩ ⟨hg, hcu⟩ hu
    refine ⟨hbu.step hu, State.delivers_step hdu hbu hu, ?_⟩
    cases scan_step hbu hdu hg hu with
    | refills _ hrefill =>
      exact (hrefill.length_due_le (nodup_timers (hbu.step hu).books)).trans hle
    | fires hnone =>
      rw [hnone] at hcu
      cases hcu
  obtain ⟨hb₂, hd₂, hle⟩ := hinside
  refine ⟨hb₂.step hret, State.delivers_step hd₂ hb₂ hret, ?_⟩
  dsimp only [State.step] at hret
  split at hret
  · cases hret
    exact Nat.lt_of_le_of_lt hle hfired
  · cases hret

theorem acc_scanRound (n : Nat) : ∀ {s : State κ}, Consistent s → s.heap.Delivers →
    (due now s.heap.timers).length = n → Acc (fun s₂ s₁ => State.scanRound now s₁ s₂) s := by
  induction n using Nat.strong_induction_on with
  | _ n ih =>
    intro s hb hd hn
    refine Acc.intro s fun s' hr => ?_
    obtain ⟨hb', hd', hlt⟩ := due_lt_of_scanRound hb hd hr
    exact ih _ (hn ▸ hlt) hb' hd' rfl

theorem startTimer_frame (hs : s.step (.startTimer now) = some s₁) :
    s₁ = { s with pc := .timer now } := by
  obtain ⟨-, hs⟩ := State.library_some hs
  unfold State.startTimer at hs
  split at hs
  · cases hs
    rfl
  · cases hs

/-- The scan ends. Each of its rounds that the callbacks allow is possible; what has been fired at
any point are operations that were armed with deadlines before `now`, in the order of these, none of
them twice; and no operation with such a deadline is left when the scan ends. -/
theorem timer_scan_ends (hr : (proactor κ).Reachable Machine.free s)
    (hs : s.step (.startTimer now) = some s₁) :
    Acc (fun s₃ s₂ => State.scanRound now s₂ s₃) s₁ ∧
    ∀ s₂, (proactor κ).Steps (State.scans now) s₁ s₂ →
      (s₂.pc = .timer now → s₂.callback = none → ∃ s₃, s₂.step .processTimer = some s₃ ∧
        (s₃.pc = .poll ∨ s₃.pc = .timer now ∧ s₃.callback.isSome = true)) ∧
      ∃ fs : List (TokenId × Timeval),
        fires s₂.heap.log = fs.map (Prod.map id some) ++ fires s₁.heap.log ∧
        fs.length ≤ (due now s₁.heap.timers).length ∧ (∀ f ∈ fs, f.2 < now) ∧
        (fs.Pairwise fun f g => g.2 ≤ f.2) ∧ (fs.map Prod.fst).Nodup ∧
        (s₂.pc = .poll → ∀ t ∈ s₂.heap.timerList, ¬ s₂.heap.tv t < now) := by
  have hr₁ : (proactor κ).Reachable Machine.free s₁ := hr.step (a := .startTimer now) trivial hs
  have hb₁ := consistent_of_reachable hr₁
  have hd₁ := State.delivers_of_reachable hr₁
  refine ⟨acc_scanRound _ hb₁ hd₁ rfl, fun s₂ hst => ?_⟩
  have hpc₁ : s₁.pc ≠ .poll := by
    rw [startTimer_frame hs]
    exact nofun
  obtain ⟨hb, hd, ⟨fs, hi⟩, hend⟩ : Consistent s₂ ∧ s₂.heap.Delivers ∧
      (∃ fs, Scanned now s₁ s₂ fs) ∧ (s₂.pc = .poll → due now s₂.heap.timers = []) := by
    refine Machine.Steps.invariant (I := fun u => Consistent u ∧ u.heap.Delivers ∧
      (∃ fs, Scanned now s₁ u fs) ∧ (u.pc = .poll → due now u.heap.timers = [])) ?_ hst
      ⟨hb₁, hd₁, ⟨[], rfl, Scan.start⟩, fun hpc => (hpc₁ hpc).elim⟩
    rintro u act u' ⟨hbu, hdu, ⟨fs, hiu⟩, -⟩ hg hu
    refine ⟨hbu.step hu, State.delivers_step hdu hbu hu, hiu.step hbu hdu hg hu, fun hpoll => ?_⟩
    obtain ⟨rfl, hc⟩ := eq_processTimer_of_ends hg.1 hu hpoll
    obtain ⟨u'', hu', ⟨hnil, rfl⟩ | ⟨hpc, -⟩⟩ := processTimer_round hbu hdu hg.1 hc
    · cases hu.symm.trans hu'
      exact hnil
    · cases hu.symm.trans hu'
      cases hpc.symm.trans hpoll
  refine ⟨fun hpc hc => ?_, fs, hi.fires, ?_, hi.scan.early, hi.scan.ordered, hi.scan.once, ?_⟩
  · obtain ⟨s₃, hs₃, ⟨-, rfl⟩ | ⟨hpc₃, hc₃, -⟩⟩ := processTimer_round hb hd hpc hc
    · exact ⟨_, hs₃, .inl rfl⟩
    · exact ⟨_, hs₃, .inr ⟨hpc₃, hc₃⟩⟩
  · have hcount := hi.scan.count
    omega
  · intro hpoll t ht hlt
    have hmem : (t, s₂.heap.tv t) ∈ due now s₂.heap.timers :=
      List.mem_filter.mpr ⟨List.mem_map.mpr ⟨t, ht, rfl⟩, decide_eq_true hlt⟩
    rw [hend hpoll] at hmem
    exact List.not_mem_nil hmem

end Steps

/-- Two reads that time out at 15 and at 16 seconds. -/
def twoTimeouts : List (Action Unit) :=
  [.epollCreate 3 0, .create 0 5 ⟨0, 0⟩ ⟨0, 0⟩ 0, .create 1 6 ⟨0, 0⟩ ⟨0, 0⟩ 0,
    .readSome 1 ⟨1, 0⟩ 8 () 6000 (.fail EAGAIN) ⟨10, 0⟩,
    .readSome 0 ⟨0, 0⟩ 8 () 5000 (.fail EAGAIN) ⟨10, 0⟩, .run, .epollWait .timeout]

/-- The first callback arms the timer of its Socket again. -/
def scanWithRearm : List (Action Unit) :=
  [.processTimer, .readSome 0 ⟨0, 0⟩ 8 () 5000 (.fail EAGAIN) ⟨20, 0⟩, .ret, .processTimer, .ret,
    .processTimer]

theorem timer_scan_ends_rearm : ∃ s₁ s₂ : State Unit,
    (proactor Unit).Steps (State.scans ⟨20, 0⟩) s₁ s₂ ∧ s₂.pc = .poll ∧
    fires s₂.heap.log = [(⟨1, .read⟩, some ⟨16, 0⟩), (⟨0, .read⟩, some ⟨15, 0⟩)] ∧
    s₂.heap.timers = [(⟨0, .read⟩, ⟨25, 0⟩)] ∧
    Acc (fun s₃ s₂ => State.scanRound ⟨20, 0⟩ s₂ s₃) s₁ ∧
    ∀ t ∈ s₂.heap.timerList, ¬ s₂.heap.tv t < ⟨20, 0⟩ := by
  obtain ⟨s, hr, hrun⟩ := Machine.exists_of_exec (M := proactor Unit) (p := Machine.free)
    (s := State.initial fun _ _ => 0) (l := twoTimeouts) (b := some true)
    (f := fun s : State Unit => (s.step (.startTimer ⟨20, 0⟩)).bind fun s₁ : State Unit =>
        ((proactor Unit).exec (State.scans ⟨20, 0⟩) s₁ scanWithRearm).map fun s₂ : State Unit =>
          decide (s₂.pc = .poll ∧
            fires s₂.heap.log = [(⟨1, .read⟩, some ⟨16, 0⟩), (⟨0, .read⟩, some ⟨15, 0⟩)] ∧
            s₂.heap.timers = [(⟨0, .read⟩, ⟨25, 0⟩)])) ⟨_, rfl⟩ rfl
  obtain ⟨s₁, hs, hrest⟩ := Option.bind_eq_some_iff.mp hrun
  obtain ⟨s₂, hexec, hobs⟩ := Option.map_eq_some_iff.mp hrest
  obtain ⟨hpc, hfires, htimers⟩ := of_decide_eq_true hobs
  have hst := Machine.exec_steps hexec
  obtain ⟨hacc, hscan⟩ := timer_scan_ends hr hs
  obtain ⟨-, _, -, -, -, -, -, hend⟩ := hscan s₂ hst
  exact ⟨s₁, s₂, hst, hpc, hfires, htimers, hacc, hend hpc⟩

end EchoBenchmark.Proactor
