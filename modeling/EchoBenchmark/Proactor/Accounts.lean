import EchoBenchmark.Lib.Ledger
import EchoBenchmark.Proactor.Bookkeeping

/-!
The history of every run is a legal history of the ledger whose slots are the tokens and whose
operations are the calls. A hang-up settles nothing: it calls back and leaves the token in its slot.
-/

namespace EchoBenchmark.Proactor

variable {κ : Type}

/-- The entries of the ledger that an entry of the history stands for. -/
def Event.entries : Event → List (Ledger.Entry TokenId Nat)
  | .started t i => [.opened t i]
  | .refused _ i => [.refused i]
  | .called t i _ _ via => if via = .hangup then [] else [.settled t i]
  | .destroyed id => [.dropped ⟨id, .write⟩, .dropped ⟨id, .read⟩]
  | _ => []

def ledger (log : List Event) : List (Ledger.Entry TokenId Nat) := log.flatMap Event.entries

/-- The codes and byte counts with which the callback of call `i` was invoked, latest first. -/
def deliveries (i : Nat) : List Event → List (Int × Int)
  | [] => []
  | .called _ j code bytes _ :: log =>
    if j = i then (code, bytes) :: deliveries i log else deliveries i log
  | _ :: log => deliveries i log

/-- Call `i` took token `t`, its callback has not been invoked and the Socket is not destroyed. -/
def Outstanding (t : TokenId) (i : Nat) : List Event → Prop
  | [] => False
  | .started u j :: log => (u = t ∧ j = i) ∨ Outstanding t i log
  | .called _ j _ _ _ :: log => j ≠ i ∧ Outstanding t i log
  | .destroyed id :: log => id ≠ t.sock ∧ Outstanding t i log
  | _ :: log => Outstanding t i log

/-- A hang-up invoked the callback of call `i`. -/
def HungUp (i : Nat) : List Event → Prop
  | [] => False
  | .called _ j _ _ .hangup :: log => j = i ∨ HungUp i log
  | _ :: log => HungUp i log

theorem ledger_cons (e : Event) (log : List Event) : ledger (e :: log) = e.entries ++ ledger log :=
  rfl

theorem ledger_notes {evs log : List Event} (hn : ∀ e ∈ evs, e.isNote) :
    ledger (evs ++ log) = ledger log := by
  induction evs with
  | nil => rfl
  | cons e evs ih =>
    have he := hn e List.mem_cons_self
    rw [List.cons_append, ledger_cons, ih fun e' he' => hn e' (List.mem_cons_of_mem e he')]
    cases e <;> first | rfl | exact he.elim

theorem Event.isIo.entries_nil {e : Event} {t : TokenId} (he : e.isIo t) : e.entries = [] := by
  cases e <;> first | rfl | exact he.elim

/-- But for hang-ups, the ledger counts the deliveries. -/
theorem length_deliveries {i : Nat} {log : List Event} (hn : ¬ HungUp i log) :
    (deliveries i log).length = Ledger.settledCount i (ledger log) := by
  induction log with
  | nil => rfl
  | cons e log ih =>
    rw [ledger_cons]
    cases e with
    | called t j code bytes via =>
      have hrest : ¬ HungUp i log := by
        cases via with
        | hangup => exact fun h => hn (.inr h)
        | completion | timer => exact hn
      cases via with
      | hangup =>
        have hj : j ≠ i := fun h => hn (.inl h)
        simp [deliveries, Event.entries, hj, ih hrest]
      | completion | timer =>
        by_cases hj : j = i <;> simp [deliveries, Event.entries, Ledger.settledCount, hj, ih hrest]
    | _ => exact ih hn

theorem unsettled_of_outstanding {t : TokenId} {i : Nat} {log : List Event}
    (ho : Outstanding t i log) : Ledger.Unsettled t i (ledger log) := by
  induction log with
  | nil => exact ho.elim
  | cons e log ih =>
    rw [ledger_cons]
    cases e with
    | started u j => exact ho.imp id ih
    | called u j code bytes via =>
      cases via with
      | hangup => exact ih ho.2
      | completion | timer => exact ⟨ho.1, ih ho.2⟩
    | destroyed id =>
      obtain ⟨k, d⟩ := t
      have hne : ∀ d', (⟨id, d'⟩ : TokenId) ≠ ⟨k, d⟩ := by
        rintro d' he
        exact ho.1 (congrArg TokenId.sock he)
      exact ⟨hne _, hne _, ih ho.2⟩
    | _ => exact ih ho

namespace Heap

/-- The ledger knows which call holds which token. -/
structure Delivers (h : Heap κ) : Prop where
  legal : Ledger.Legal (ledger h.log)
  idle : ∀ t, (h.tok t).mode = .none → Ledger.holder (ledger h.log) t = none
  busy : ∀ t, (h.tok t).mode ≠ .none →
    ∃ cb, (h.tok t).cb = some cb ∧ Ledger.holder (ledger h.log) t = some cb.call
  fresh : ∀ e ∈ ledger h.log, ∀ i, e.names i → i < h.nextCall

variable {h h' : Heap κ} {t u : TokenId} {id : SockId} {n ms : Int} {m : Mode} {now : Timeval}
  {fn : κ} {cb : Callback κ} {q : Request κ} {e : Event} {ok : Bool}

theorem ledger_park : ledger (h.park t n m ms now).log = ledger h.log := by
  by_cases hms : ms = 0
  · subst hms
    rw [log_park_zero]
  · rw [log_park hms]
    split <;> rfl

theorem Begun.ledger_eq (hs : Begun h q e h') :
    ledger h'.log = .opened q.token h.nextCall :: ledger h.log := by
  rw [hs.log, ledger_cons, hs.io.entries_nil]
  rfl

theorem Touched.ledger_eq (hs : Touched h t e h') : ledger h'.log = ledger h.log := by
  rw [hs.log, ledger_cons, hs.io.entries_nil]
  rfl

namespace Delivers

/-- The invariant reads nothing else. -/
theorem frame (hd : Delivers h) (hmode : ∀ t, (h'.tok t).mode = (h.tok t).mode)
    (hcb : ∀ t, (h'.tok t).cb = (h.tok t).cb) (hnext : h'.nextCall = h.nextCall)
    (hlog : ledger h'.log = ledger h.log) : Delivers h' where
  legal := by rw [hlog]; exact hd.legal
  idle t hm := by
    rw [hmode] at hm
    rw [hlog]
    exact hd.idle t hm
  busy t hm := by
    rw [hmode] at hm
    rw [hlog, hcb]
    exact hd.busy t hm
  fresh := by rw [hlog, hnext]; exact hd.fresh

theorem noted (hd : Delivers h) (hn : Noted h h') : Delivers h' := by
  obtain ⟨evs, he, hlog⟩ := hn.log
  refine hd.frame (fun t => by rw [hn.tok]) (fun t => by rw [hn.tok]) hn.nextCall ?_
  rw [hlog, ledger_notes he]

theorem touched (hd : Delivers h) (hs : Touched h t e h') : Delivers h' := by
  refine hd.frame ?_ ?_ hs.nextCall hs.ledger_eq
  · intro u
    by_cases hu : u = t
    · rw [hu, hs.mode]
    · rw [hs.other u hu]
  · intro u
    by_cases hu : u = t
    · rw [hu, hs.cb]
    · rw [hs.other u hu]

/-- A token that ends or goes on waiting keeps its call. -/
theorem busier (hd : Delivers h) (hm : (h.tok t).mode ≠ .none)
    (htok : ∀ u, u ≠ t → h'.tok u = h.tok u) (hm' : (h'.tok t).mode ≠ .none)
    (hcb : (h'.tok t).cb = (h.tok t).cb) (hnext : h'.nextCall = h.nextCall)
    (hlog : ledger h'.log = ledger h.log) : Delivers h' where
  legal := by rw [hlog]; exact hd.legal
  idle u hu := by
    have hne : u ≠ t := by
      rintro rfl
      exact hm' hu
    rw [htok u hne] at hu
    rw [hlog]
    exact hd.idle u hu
  busy u hu := by
    rw [hlog]
    by_cases hut : u = t
    · rw [hut, hcb]
      exact hd.busy t hm
    · rw [htok u hut] at hu ⊢
      exact hd.busy u hu
  fresh := by rw [hlog, hnext]; exact hd.fresh

/-- A call that is accepted takes the free token under a new number. -/
theorem taken (hd : Delivers h) (hfree : (h.tok t).mode = .none)
    (htok : ∀ u, u ≠ t → h'.tok u = h.tok u) (hm : (h'.tok t).mode ≠ .none)
    (hcb : (h'.tok t).cb = some ⟨h.nextCall, fn⟩) (hnext : h'.nextCall = h.nextCall + 1)
    (hlog : ledger h'.log = .opened t h.nextCall :: ledger h.log) : Delivers h' where
  legal := by
    rw [hlog]
    refine .opened hd.legal (hd.idle t hfree) fun e he hn => ?_
    exact lt_irrefl _ (hd.fresh e he _ hn)
  idle u hu := by
    have hne : u ≠ t := by
      rintro rfl
      exact hm hu
    rw [htok u hne] at hu
    rw [hlog]
    simpa [Ledger.holder, hne] using hd.idle u hu
  busy u hu := by
    rw [hlog]
    by_cases hut : u = t
    · subst hut
      exact ⟨_, hcb, by simp [Ledger.holder]⟩
    · rw [htok u hut] at hu ⊢
      simpa [Ledger.holder, hut] using hd.busy u hu
  fresh e he i hn := by
    rw [hlog] at he
    rw [hnext]
    rcases List.mem_cons.mp he with rfl | he
    · have hi : h.nextCall = i := hn
      omega
    · have hi := hd.fresh e he i hn
      omega

theorem refuse (hd : Delivers h) (d : Detail) : Delivers (h.refuse t d) := by
  have hmode : ∀ u, ((h.refuse t d).tok u).mode = (h.tok u).mode := by
    intro u
    rw [tok_refuse]
    split
    · rename_i hu
      rw [hu]
    · rfl
  have hcb : ∀ u, ((h.refuse t d).tok u).cb = (h.tok u).cb := by
    intro u
    rw [tok_refuse]
    split
    · rename_i hu
      rw [hu]
    · rfl
  have hlog : ledger (h.refuse t d).log = .refused h.nextCall :: ledger h.log := rfl
  refine ⟨?_, ?_, ?_, ?_⟩
  · rw [hlog]
    exact .refused hd.legal fun e he hn => lt_irrefl _ (hd.fresh e he _ hn)
  · intro u hu
    rw [hmode] at hu
    exact hd.idle u hu
  · intro u hu
    rw [hmode] at hu
    rw [hcb]
    exact hd.busy u hu
  · intro e he i hn
    rw [hlog] at he
    rw [nextCall_refuse]
    rcases List.mem_cons.mp he with rfl | he
    · have hi : h.nextCall = i := hn
      omega
    · have hi := hd.fresh e he i hn
      omega

theorem opens (hd : Delivers h) (ho : Opens h q (h', ok)) : Delivers h' := by
  cases ho with
  | refused d hm => exact hd.refuse d
  | finished hs hf =>
    have hcb := hs.cb
    refine hd.taken hs.free ?_ ?_ (Eq.trans ?_ hcb) ?_ ?_
    · intro u hu
      rw [tok_finish, if_neg hu, hs.other u hu]
    · rw [tok_finish, if_pos rfl]
      exact Mode.ne_none_of_finished hf
    · rw [tok_finish, if_pos rfl]
    · rw [nextCall_finish, hs.nextCall]
    · rw [log_finish, hs.ledger_eq]
  | parked hs hp he =>
    have hcb := hs.cb
    refine hd.taken hs.free ?_ ?_ (Eq.trans ?_ hcb) ?_ ?_
    · intro u hu
      rw [tok_park, if_neg hu, hs.other u hu]
    · rw [tok_park, if_pos rfl]
      exact Mode.ne_none_of_pending hp
    · rw [tok_park, if_pos rfl]
    · rw [nextCall_park, hs.nextCall]
    · rw [ledger_park, hs.ledger_eq]

theorem progresses (hd : Delivers h) (hp : Progresses h t h') : Delivers h' := by
  cases hp with
  | idle => exact hd
  | waits hm hs he => exact hd.touched hs
  | finishes hm hs hf =>
    refine hd.busier (t := t) (Mode.ne_none_of_pending hm) ?_ ?_ ?_ ?_ ?_
    · intro u hu
      rw [tok_finish, if_neg hu, hs.other u hu]
    · rw [tok_finish, if_pos rfl]
      exact Mode.ne_none_of_finished hf
    · rw [tok_finish, if_pos rfl, hs.cb]
    · rw [nextCall_finish, hs.nextCall]
    · rw [log_finish, hs.ledger_eq]

theorem setErr (hd : Delivers h) (code : Int) (d : Detail) : Delivers (h.setErr t code d) := by
  have hsame : ∀ u, ((h.setErr t code d).tok u).mode = (h.tok u).mode ∧
      ((h.setErr t code d).tok u).cb = (h.tok u).cb := by
    intro u
    rw [tok_setErr]
    split
    · rename_i hu
      rw [hu]
      exact ⟨rfl, rfl⟩
    · exact ⟨rfl, rfl⟩
  exact hd.frame (fun u => (hsame u).1) (fun u => (hsame u).2) rfl rfl

/-- A callback that is invoked after its token became idle settles the call. -/
theorem settle (hd : Delivers h) (hm : (h.tok t).mode ≠ .none) (hcb : (h.tok t).cb = some cb)
    (htok : ∀ u, u ≠ t → h'.tok u = h.tok u) (hm' : (h'.tok t).mode = .none)
    (hcb' : (h'.tok t).cb = (h.tok t).cb) (hnext : h'.nextCall = h.nextCall)
    (hlog : ledger h'.log = .settled t cb.call :: ledger h.log) : Delivers h' where
  legal := by
    obtain ⟨cb₁, hc, hh⟩ := hd.busy t hm
    rw [hcb] at hc
    cases hc
    rw [hlog]
    exact .settled hd.legal hh
  idle u hu := by
    rw [hlog]
    by_cases hut : u = t
    · simp [Ledger.holder, hut]
    · rw [htok u hut] at hu
      simpa [Ledger.holder, hut] using hd.idle u hu
  busy u hu := by
    have hut : u ≠ t := by
      rintro rfl
      exact hu hm'
    rw [htok u hut] at hu ⊢
    rw [hlog]
    simpa [Ledger.holder, hut] using hd.busy u hu
  fresh e he i hn := by
    rw [hlog] at he
    rw [hnext]
    rcases List.mem_cons.mp he with rfl | he
    · exact hn.elim
    · exact hd.fresh e he i hn

theorem create (hd : Delivers h) (hb : Books h) (hl : h.live id = false) (soc : Int)
    (rtv wtv : Timeval) : Delivers (h.create id soc rtv wtv) := by
  refine ⟨hd.legal, ?_, ?_, hd.fresh⟩
  · intro u hu
    refine hd.idle u ?_
    rw [tok_create] at hu
    split at hu
    · rename_i hs
      exact hb.gone u (by rw [hs, hl])
    · exact hu
  · intro u hu
    rw [tok_create] at hu ⊢
    split at hu
    · exact (hu rfl).elim
    · rename_i hs
      rw [if_neg hs]
      exact hd.busy u hu

/-- A destroyed Socket drops both of its slots. -/
theorem destroy (hd : Delivers h) : Delivers ((h.unlink id).release id) := by
  have hlog : ledger ((h.unlink id).release id).log =
      .dropped ⟨id, .write⟩ :: .dropped ⟨id, .read⟩ :: ledger h.log := by
    change ledger (.destroyed id :: (h.unlink id).log) = _
    rw [log_unlink]
    rfl
  have hholder : ∀ u : TokenId, Ledger.holder (ledger ((h.unlink id).release id).log) u =
      if u.sock = id then none else Ledger.holder (ledger h.log) u := by
    rintro ⟨i, d⟩
    rw [hlog]
    cases d <;> simp [Ledger.holder]
  refine ⟨?_, ?_, ?_, ?_⟩
  · rw [hlog]
    exact .dropped (.dropped hd.legal)
  · intro u hu
    rw [hholder]
    rw [tok_release, tok_unlink] at hu
    split
    · rfl
    · rename_i hs
      rw [if_neg hs] at hu
      exact hd.idle u hu
  · intro u hu
    rw [hholder]
    rw [tok_release, tok_unlink] at hu ⊢
    split
    · rename_i hs
      rw [if_pos hs] at hu
      exact (hu rfl).elim
    · rename_i hs
      rw [if_neg hs] at hu
      exact hd.busy u hu
  · intro e he i hn
    rw [hlog] at he
    change i < (h.unlink id).nextCall
    rw [nextCall_unlink]
    rcases List.mem_cons.mp he with rfl | he
    · exact hn.elim
    · rcases List.mem_cons.mp he with rfl | he
      · exact hn.elim
      · exact hd.fresh e he i hn

end Delivers

end Heap

namespace State

variable {s s' : State κ} {act : Action κ} {t : TokenId} {err : Error} {bytes : Int} {via : Via}
  {id : SockId}

theorem delivers_invoke {s₀ : State κ} {cb : Callback κ} (hd : s₀.heap.Delivers)
    (hvia : via ≠ .hangup) (hm : (s₀.heap.tok t).mode ≠ .none)
    (htok : ∀ u, u ≠ t → s.heap.tok u = s₀.heap.tok u)
    (hcb : (s₀.heap.tok t).cb = some cb) (hcb' : (s.heap.tok t).cb = (s₀.heap.tok t).cb)
    (hm' : (s.heap.tok t).mode = .none) (hnext : s.heap.nextCall = s₀.heap.nextCall)
    (hlog : s.heap.log = s₀.heap.log) : (s.invoke t err bytes via).heap.Delivers := by
  obtain ⟨hn, -⟩ | ⟨c, hc, he⟩ := invoke_cases s t err bytes via
  · rw [hcb', hcb] at hn
    cases hn
  · rw [hcb', hcb] at hc
    cases hc
    rw [he]
    refine hd.settle hm hcb htok hm' hcb' hnext ?_
    change ledger (.called t cb.call err.code bytes via :: s.heap.log) = _
    rw [hlog, ledger_cons]
    simp [Event.entries, hvia]

/-- The callback of a hang-up is no entry of the ledger. -/
theorem delivers_invoke_hangup (hd : s.heap.Delivers) :
    (s.invoke t err bytes .hangup).heap.Delivers := by
  obtain ⟨-, he⟩ | ⟨c, -, he⟩ := invoke_cases s t err bytes .hangup
  · rw [he]
    exact hd
  · rw [he]
    exact hd.frame (fun _ => rfl) (fun _ => rfl) rfl rfl

theorem delivers_onCloseSocket (hd : s.heap.Delivers) : (s.onCloseSocket id).heap.Delivers := by
  have hset : (s.resetErrs id).heap.Delivers :=
    (hd.setErr (t := ⟨id, .read⟩) ECONNRESET .closed).setErr ECONNRESET .closed
  exact onCloseSocket_rule (P := fun s' => s'.heap.Delivers) hset fun _ _ =>
    delivers_invoke_hangup hset

theorem delivers_step (hd : s.heap.Delivers) (hc : Consistent s) (hs : s.step act = some s') :
    s'.heap.Delivers := by
  obtain ⟨hb, hset⟩ := hc
  cases step_effect hs with
  | noted hn _ => exact hd.noted hn
  | created hl hn hpc => exact (hd.create hb hl _ _ _).noted hn
  | opened hq hl ho hpc => exact hd.opens ho
  | progressed hl hn hpr ht => exact (hd.noted hn).progresses hpr
  | destroyed hl hn he hpc =>
    rw [he]
    exact (hd.noted hn).destroy
  | @completed t rest hc hpc hq hl he =>
    subst he
    have hm : (s.heap.tok t).mode ≠ .none := by
      apply Mode.ne_none_of_finished
      rw [← hb.queued, hq]
      exact List.mem_cons_self
    obtain ⟨cb, hcb, -⟩ := hd.busy t hm
    refine delivers_invoke hd (by simp) hm ?_ hcb ?_ ?_ rfl rfl
    · intro u hu
      rw [heap_onHeap, Heap.tok_complete, if_neg hu]
    · rw [heap_onHeap, Heap.tok_complete, if_pos rfl]
    · rw [heap_onHeap, Heap.tok_complete, if_pos rfl]
  | @fired t rest now hc hpc ht hl hlt he =>
    subst he
    have hm : (s.heap.tok t).mode ≠ .none := by
      refine hb.timed t ?_
      rw [ht]
      exact List.mem_cons_self
    obtain ⟨cb, hcb, -⟩ := hd.busy t hm
    refine delivers_invoke hd (by simp) hm ?_ hcb ?_ ?_ rfl rfl
    · intro u hu
      rw [heap_onHeap, Heap.tok_expire, if_neg hu]
    · rw [heap_onHeap, Heap.tok_expire, if_pos rfl]
    · rw [heap_onHeap, Heap.tok_expire, if_pos rfl]
  | hungup ha hc hpc hup hh hl he =>
    subst he
    exact delivers_onCloseSocket (by exact hd.noted ((Heap.Noted.refl s.heap).emit (by trivial)))

theorem delivers_of_reachable {p : State κ → Action κ → Prop}
    (hr : (proactor κ).Reachable p s) : s.heap.Delivers := by
  apply hr.invariant (I := fun s => s.heap.Delivers)
  · rintro s₀ ⟨mem, rfl⟩
    refine ⟨.nil, fun _ _ => rfl, ?_, ?_⟩
    · rintro ⟨k, d⟩ hm
      cases d <;> exact (hm rfl).elim
    · intro e he
      cases he
  · intro s₀ act s₁ hr₀ hd _ hs
    exact delivers_step hd (consistent_of_reachable hr₀) hs

end State

/-! ### Callbacks and the calls that passed them -/

/-- `h'` has the callbacks of `h`, or one more, with the next number. -/
inductive Renames (h h' : Heap κ) : Prop
  | kept : (∀ u cb, (h'.tok u).cb = some cb → (h.tok u).cb = some cb) →
      h.nextCall ≤ h'.nextCall → Renames h h'
  | named (q : Request κ) : (h'.tok q.token).cb = some ⟨h.nextCall, q.fn⟩ →
      (∀ u cb, u ≠ q.token → (h'.tok u).cb = some cb → (h.tok u).cb = some cb) →
      h.nextCall < h'.nextCall → Renames h h'

/-- The callback of call `i` is only held where `P` says. -/
structure Named (P : TokenId → κ → Prop) (i : Nat) (h : Heap κ) : Prop where
  numbered : i < h.nextCall
  holds : ∀ u cb, (h.tok u).cb = some cb → cb.call = i → P u cb.fn

/-- Calls have different numbers, below the next one. -/
structure Numbered (h : Heap κ) : Prop where
  owned : ∀ t cb, (h.tok t).cb = some cb → cb.call < h.nextCall
  distinct : ∀ t u ct cu, (h.tok t).cb = some ct → (h.tok u).cb = some cu → ct.call = cu.call →
    t = u

section Renaming

variable {h h₁ h' : Heap κ} {u : TokenId} {q : Request κ} {e : Event} {ok : Bool} {i : Nat}
  {P : TokenId → κ → Prop}

theorem renames_noted (hn : Heap.Noted h h') : Renames h h' := by
  refine .kept (fun u cb hc => ?_) hn.nextCall.ge
  rw [← hn.tok]
  exact hc

theorem Renames.trans_kept (hr : Renames h h₁)
    (hcb : ∀ u cb, (h'.tok u).cb = some cb → (h₁.tok u).cb = some cb)
    (hsame : ∀ u cb, (h₁.tok u).cb = some cb → (h'.tok u).cb = some cb)
    (hn : h₁.nextCall ≤ h'.nextCall) : Renames h h' := by
  cases hr with
  | kept hold hle => exact .kept (fun u cb hc => hold u cb (hcb u cb hc)) (hle.trans hn)
  | named q hnew hold hlt =>
    exact .named q (hsame _ _ hnew) (fun u cb hu hc => hold u cb hu (hcb u cb hc))
      (lt_of_lt_of_le hlt hn)

theorem renames_begun (hs : Heap.Begun h q e h') : Renames h h' := by
  refine .named q hs.cb (fun u cb hu hc => ?_) (by rw [hs.nextCall]; exact Nat.lt_succ_self _)
  rw [← hs.other u hu]
  exact hc

theorem renames_touched (hs : Heap.Touched h u e h') : Renames h h' := by
  refine .kept (fun v cb hc => ?_) hs.nextCall.ge
  by_cases hv : v = u
  · rw [hv, hs.cb] at hc
    rw [hv]
    exact hc
  · rw [hs.other v hv] at hc
    exact hc

theorem renames_finish {n : Int} {m : Mode} (hr : Renames h h₁) :
    Renames h (h₁.finish u n m) := by
  have hcb : ∀ v, ((h₁.finish u n m).tok v).cb = (h₁.tok v).cb := by
    intro v
    rw [Heap.tok_finish]
    split
    · rename_i hv
      rw [hv]
    · rfl
  exact hr.trans_kept (fun v cb hc => by rw [← hcb]; exact hc)
    (fun v cb hc => by rw [hcb]; exact hc)
    le_rfl

theorem renames_park {n ms : Int} {m : Mode} {now : Timeval} (hr : Renames h h₁) :
    Renames h (h₁.park u n m ms now) := by
  have hcb : ∀ v, ((h₁.park u n m ms now).tok v).cb = (h₁.tok v).cb := by
    intro v
    rw [Heap.tok_park]
    split
    · rename_i hv
      rw [hv]
    · rfl
  exact hr.trans_kept (fun v cb hc => by rw [← hcb]; exact hc)
    (fun v cb hc => by rw [hcb]; exact hc)
    (by rw [Heap.nextCall_park])

theorem renames_opens (ho : Heap.Opens h q (h', ok)) : Renames h h' := by
  cases ho with
  | refused d hm =>
    refine .kept (fun v cb hc => ?_) (Nat.le_succ _)
    rw [Heap.tok_refuse] at hc
    split at hc
    · rename_i hv
      rw [hv]
      exact hc
    · exact hc
  | finished hs hf => exact renames_finish (renames_begun hs)
  | parked hs hm he => exact renames_park (renames_begun hs)

theorem renames_progresses (hp : Heap.Progresses h u h') : Renames h h' := by
  cases hp with
  | idle => exact .kept (fun _ _ hc => hc) le_rfl
  | waits hm hs he => exact renames_touched hs
  | finishes hm hs hf => exact renames_finish (renames_touched hs)

theorem Renames.after_noted (hn : Heap.Noted h h₁) (hr : Renames h₁ h') : Renames h h' := by
  cases hr with
  | kept hold hle =>
    refine .kept (fun u cb hc => ?_) (hn.nextCall.ge.trans hle)
    rw [← hn.tok]
    exact hold u cb hc
  | named q hnew hold hlt =>
    rw [hn.nextCall] at hnew hlt
    refine .named q hnew (fun u cb hu hc => ?_) hlt
    rw [← hn.tok]
    exact hold u cb hu hc

theorem Renames.before_noted (hr : Renames h h₁) (hn : Heap.Noted h₁ h') : Renames h h' :=
  hr.trans_kept (fun u cb hc => by rw [← hn.tok]; exact hc)
    (fun u cb hc => by rw [hn.tok]; exact hc) hn.nextCall.ge

theorem cb_resetErrs {s : State κ} {id : SockId} :
    ((s.resetErrs id).heap.tok u).cb = (s.heap.tok u).cb := by
  rw [State.tok_resetErrs]
  split <;> rfl

theorem cb_onCloseSocket {s : State κ} {id : SockId} :
    ((s.onCloseSocket id).heap.tok u).cb = (s.heap.tok u).cb := by
  refine State.onCloseSocket_rule (P := fun s' => (s'.heap.tok u).cb = (s.heap.tok u).cb)
    cb_resetErrs fun _ _ => ?_
  rw [State.tok_invoke]
  exact cb_resetErrs

theorem nextCall_invoke {s : State κ} {err : Error} {bytes : Int} {via : Via} :
    (s.invoke u err bytes via).heap.nextCall = s.heap.nextCall := by
  unfold State.invoke
  split <;> rfl

theorem nextCall_onCloseSocket {s : State κ} {id : SockId} :
    (s.onCloseSocket id).heap.nextCall = s.heap.nextCall :=
  State.onCloseSocket_rule (P := fun s' => s'.heap.nextCall = s.heap.nextCall) rfl
    fun _ _ => nextCall_invoke

theorem renames_create {id : SockId} (soc : Int) (rtv wtv : Timeval) :
    Renames h (h.create id soc rtv wtv) := by
  refine .kept (fun u cb hc => ?_) le_rfl
  rw [Heap.tok_create] at hc
  split at hc
  · cases hc
  · exact hc

/-- A step names at most one call. -/
theorem renames_step {s s' : State κ} {act : Action κ} (hs : s.step act = some s') :
    Renames s.heap s'.heap := by
  cases State.step_effect hs with
  | noted hn _ => exact renames_noted hn
  | created hl hn hpc =>
    exact (renames_create _ _ _).before_noted hn
  | opened hq hl ho hpc => exact renames_opens ho
  | progressed hl hn hpr ht => exact (renames_progresses hpr).after_noted hn
  | @destroyed id h₁ hl hn he hpc =>
    rw [he]
    refine Renames.after_noted hn (.kept (fun u cb hc => ?_) ?_)
    · rw [Heap.tok_release, Heap.tok_unlink] at hc
      split at hc
      · cases hc
      · exact hc
    · have hnext : (h₁.unlink id).nextCall = h₁.nextCall := Heap.nextCall_unlink
      exact hnext.ge
  | completed hc hpc hq hl he =>
    subst he
    refine .kept (fun u cb hcb => ?_) (by rw [nextCall_invoke]; rfl)
    rw [State.tok_invoke, State.heap_onHeap, Heap.tok_complete] at hcb
    split at hcb
    · rename_i hu
      rw [hu]
      exact hcb
    · exact hcb
  | fired hc hpc ht hl hlt he =>
    subst he
    refine .kept (fun u cb hcb => ?_) (by rw [nextCall_invoke]; rfl)
    rw [State.tok_invoke, State.heap_onHeap, Heap.tok_expire] at hcb
    split at hcb
    · rename_i hu
      rw [hu]
      exact hcb
    · exact hcb
  | hungup ha hc hpc hup hh hl he =>
    subst he
    refine .kept (fun u cb hcb => ?_) (by rw [nextCall_onCloseSocket]; rfl)
    rw [cb_onCloseSocket] at hcb
    exact hcb

theorem Named.renames (hn : Named P i h) (hr : Renames h h') : Named P i h' := by
  cases hr with
  | kept hold hle =>
    exact ⟨lt_of_lt_of_le hn.numbered hle, fun u cb hc hi => hn.holds u cb (hold u cb hc) hi⟩
  | named q hnew hold hlt =>
    refine ⟨hn.numbered.trans hlt, fun u cb hc hi => ?_⟩
    by_cases hu : u = q.token
    · -- the new callback has a number that no earlier call has
      rw [hu, hnew] at hc
      cases hc
      exact absurd hn.numbered (by rw [← hi]; exact lt_irrefl _)
    · exact hn.holds u cb (hold u cb hu hc) hi

theorem Numbered.renames (hn : Numbered h) (hr : Renames h h') : Numbered h' := by
  cases hr with
  | kept hold hle =>
    exact ⟨fun t cb hc => lt_of_lt_of_le (hn.owned t cb (hold t cb hc)) hle,
      fun t u ct cu ht hu => hn.distinct t u ct cu (hold t ct ht) (hold u cu hu)⟩
  | named q hnew hold hlt =>
    refine ⟨fun t cb hc => ?_, fun t u ct cu ht hu he => ?_⟩
    · by_cases hq : t = q.token
      · rw [hq, hnew] at hc
        cases hc
        exact hlt
      · exact (hn.owned t cb (hold t cb hq hc)).trans hlt
    · by_cases hq : t = q.token <;> by_cases hq' : u = q.token
      · rw [hq, hq']
      · rw [hq, hnew] at ht
        cases ht
        have := hn.owned u cu (hold u cu hq' hu)
        dsimp only at he
        omega
      · rw [hq', hnew] at hu
        cases hu
        have := hn.owned t ct (hold t ct hq ht)
        dsimp only at he
        omega
      · exact hn.distinct t u ct cu (hold t ct hq ht) (hold u cu hq' hu) he

theorem Named.step {s s' : State κ} {act : Action κ} (hn : Named P i s.heap)
    (hs : s.step act = some s') : Named P i s'.heap :=
  hn.renames (renames_step hs)

theorem numbered_of_reachable {s : State κ} {p : State κ → Action κ → Prop}
    (hr : (proactor κ).Reachable p s) : Numbered s.heap := by
  apply hr.invariant (I := fun s => Numbered s.heap)
  · rintro s₀ ⟨mem, rfl⟩
    constructor
    · rintro ⟨k, d⟩ cb hc
      cases d <;> cases hc
    · rintro ⟨k, d⟩ u ct cu hc
      cases d <;> cases hc
  · intro s₀ act s₁ _ hn _ hs
    exact hn.renames (renames_step hs)

end Renaming

/-! ### Invocations -/

/-- An invocation of the callback of an operation. -/
def Event.isCall : Event → Bool
  | .called .. => true
  | _ => false

/-- The part of the history that tells which callbacks were invoked. -/
def callLog (log : List Event) : List Event := log.filter Event.isCall

theorem callLog_cons_of_not {e : Event} {log : List Event} (he : e.isCall = false) :
    callLog (e :: log) = callLog log := by
  simp [callLog, he]

theorem callLog_notes {evs log : List Event} (hn : ∀ e ∈ evs, e.isNote) :
    callLog (evs ++ log) = callLog log := by
  induction evs with
  | nil => rfl
  | cons e evs ih =>
    have he := hn e List.mem_cons_self
    rw [List.cons_append, callLog_cons_of_not, ih fun e' he' => hn e' (List.mem_cons_of_mem e he')]
    cases e <;> first | rfl | exact he.elim

theorem Event.isIo.not_call {e : Event} {t : TokenId} (he : e.isIo t) : e.isCall = false := by
  cases e <;> first | rfl | exact he.elim

theorem deliveries_callLog {i : Nat} {log : List Event} :
    deliveries i (callLog log) = deliveries i log := by
  induction log with
  | nil => rfl
  | cons e log ih =>
    cases e with
    | called t j code bytes via =>
      change deliveries i (.called t j code bytes via :: callLog log) = _
      by_cases hj : j = i <;> simp [deliveries, hj, ih]
    | _ => exact ih

theorem hungUp_callLog {i : Nat} {log : List Event} : HungUp i (callLog log) ↔ HungUp i log := by
  induction log with
  | nil => rfl
  | cons e log ih =>
    cases e with
    | called t j code bytes via =>
      change HungUp i (.called t j code bytes via :: callLog log) ↔ _
      cases via with
      | hangup => exact or_congr_right ih
      | completion | timer => exact ih
    | _ => exact ih

/-- The next step dispatches a hang-up to a Socket. -/
def State.hangsUp (s : State κ) (id : SockId) : Prop :=
  ∃ ev rest, s.pc = .event (ev :: rest) ∧ ev.events.hangup = true ∧ ev.handler = .socket id ∧
    s.heap.live id = true

/-- The callback that is invoked from `s` to `s'`, if any; a hang-up prefers that of the read. -/
inductive Invokes (s : State κ) (act : Action κ) (s' : State κ) : Prop
  | none : callLog s'.heap.log = callLog s.heap.log → Invokes s act s'
  | callback {t : TokenId} {cb : Callback κ} {err : Error} {bytes : Int} {via : Via} :
      s.callback = none → (s.heap.tok t).cb = some cb →
      s'.callback = some (.io t cb err bytes via) →
      callLog s'.heap.log = .called t cb.call err.code bytes via :: callLog s.heap.log →
      (via ≠ .hangup → t ∈ s.heap.queue ∨ t ∈ s.heap.timerList) →
      (via = .hangup → (∃ r w, act = .dispatch r w) ∧ s.hangsUp t.sock ∧
        ((s.heap.tok ⟨t.sock, .read⟩).mode ≠ .done → t.dir = .read) ∧
        err.code = ECONNRESET ∧ bytes = 0) → Invokes s act s'

section Invocations

variable {s s₁ s' : State κ} {act : Action κ} {h h' : Heap κ} {t : TokenId} {q : Request κ}
  {e : Event} {ok : Bool} {err : Error} {bytes : Int} {via : Via}

theorem callLog_noted (hn : Heap.Noted h h') : callLog h'.log = callLog h.log := by
  obtain ⟨evs, he, hlog⟩ := hn.log
  rw [hlog, callLog_notes he]

theorem callLog_opens (ho : Heap.Opens h q (h', ok)) : callLog h'.log = callLog h.log := by
  have hbegun : ∀ {e : Event} {h₁ : Heap κ}, Heap.Begun h q e h₁ →
      callLog h₁.log = callLog h.log := by
    intro e h₁ hs
    rw [hs.log, callLog_cons_of_not hs.io.not_call, callLog_cons_of_not rfl]
  cases ho with
  | refused d hm => exact callLog_cons_of_not rfl
  | finished hs hf =>
    rw [Heap.log_finish]
    exact hbegun hs
  | parked hs hp he =>
    rw [← hbegun hs]
    by_cases hms : q.timeoutMsec = 0
    · rw [hms, Heap.log_park_zero]
    · rw [Heap.log_park hms]
      split
      · exact callLog_cons_of_not rfl
      · rfl

theorem callLog_progresses (hp : Heap.Progresses h t h') : callLog h'.log = callLog h.log := by
  cases hp with
  | idle => rfl
  | waits _ hs _ => rw [hs.log, callLog_cons_of_not hs.io.not_call]
  | finishes _ hs _ => rw [Heap.log_finish, hs.log, callLog_cons_of_not hs.io.not_call]

theorem invokes_invoke (hc : s.callback = none) (hcb : (s₁.heap.tok t).cb = (s.heap.tok t).cb)
    (hlog : callLog s₁.heap.log = callLog s.heap.log)
    (hmem : via ≠ .hangup → t ∈ s.heap.queue ∨ t ∈ s.heap.timerList)
    (hvia : via = .hangup → (∃ r w, act = .dispatch r w) ∧ s.hangsUp t.sock ∧
      ((s.heap.tok ⟨t.sock, .read⟩).mode ≠ .done → t.dir = .read) ∧
      err.code = ECONNRESET ∧ bytes = 0) :
    Invokes s act (s₁.invoke t err bytes via) := by
  obtain ⟨-, he⟩ | ⟨cb, hcb', he⟩ := State.invoke_cases s₁ t err bytes via
  · rw [he]
    exact .none hlog
  · rw [he]
    refine .callback hc (hcb.symm.trans hcb') rfl ?_ hmem hvia
    rw [← hlog]
    rfl

/-- Callbacks are invoked one at a time, each by the token that holds it. -/
theorem invokes_step (hs : s.step act = some s') : Invokes s act s' := by
  cases State.step_effect hs with
  | noted hn _ => exact .none (callLog_noted hn)
  | created hl hn hpc => exact .none ((callLog_noted hn).trans (callLog_cons_of_not rfl))
  | opened hq hl ho hpc => exact .none (callLog_opens ho)
  | progressed hl hn hpr ht => exact .none ((callLog_progresses hpr).trans (callLog_noted hn))
  | @destroyed id h₁ hl hn he hpc =>
    refine .none ?_
    rw [he]
    refine Eq.trans ?_ (callLog_noted hn)
    exact (callLog_cons_of_not rfl).trans (congrArg callLog Heap.log_unlink)
  | completed hc hpc hq hl he =>
    subst he
    refine invokes_invoke hc ?_ rfl (fun _ => .inl (by rw [hq]; exact List.mem_cons_self)) (by simp)
    rw [State.heap_onHeap, Heap.tok_complete, if_pos rfl]
  | fired hc hpc ht hl hlt he =>
    subst he
    refine invokes_invoke hc ?_ rfl (fun _ => .inr (by rw [ht]; exact List.mem_cons_self)) (by simp)
    rw [State.heap_onHeap, Heap.tok_expire, if_pos rfl]
  | @hungup id ev rest r w ha hc hpc hup hh hl he =>
    subst he
    have hnote : callLog (.dispatched ev.handler .onClose :: s.heap.log) = callLog s.heap.log :=
      callLog_cons_of_not rfl
    obtain ⟨-, hcl⟩ | ⟨hm, -, hcl⟩ | ⟨-, -, hcl⟩ := State.onCloseSocket_cases
      ({ s with pc := .event rest }.emit (.dispatched ev.handler .onClose)) id
    · rw [hcl]
      exact invokes_invoke hc cb_resetErrs hnote (fun h => (h rfl).elim) fun _ =>
        ⟨⟨r, w, ha⟩, ⟨ev, rest, hpc, hup, hh, hl⟩, fun _ => rfl, rfl, rfl⟩
    · rw [hcl]
      exact invokes_invoke hc cb_resetErrs hnote (fun h => (h rfl).elim) fun _ =>
        ⟨⟨r, w, ha⟩, ⟨ev, rest, hpc, hup, hh, hl⟩, fun hd => (hd hm).elim, rfl, rfl⟩
    · rw [hcl]
      exact .none hnote

end Invocations

end EchoBenchmark.Proactor
