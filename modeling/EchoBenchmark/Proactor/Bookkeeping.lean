import EchoBenchmark.Proactor.Steps

/-!
The tokens, the completion queue and the timer list agree in every reachable state, hang-ups
included.
-/

namespace EchoBenchmark.Proactor

variable {κ : Type}

/-- The deadline with which the timer list last took a token. -/
def armedAt (t : TokenId) : List Event → Option Timeval
  | [] => none
  | .armed u tv :: log => if u = t then some tv else armedAt t log
  | _ :: log => armedAt t log

theorem armedAt_cons {t : TokenId} {e : Event} {log : List Event} (he : ∀ u tv, e ≠ .armed u tv) :
    armedAt t (e :: log) = armedAt t log := by
  cases e with
  | armed u tv => exact absurd rfl (he u tv)
  | _ => rfl

theorem armedAt_notes {t : TokenId} {evs log : List Event} (hn : ∀ e ∈ evs, e.isNote) :
    armedAt t (evs ++ log) = armedAt t log := by
  induction evs with
  | nil => rfl
  | cons e evs ih =>
    rw [List.cons_append, armedAt_cons, ih fun e' he' => hn e' (List.mem_cons_of_mem e he')]
    rintro u tv rfl
    exact hn _ List.mem_cons_self

theorem Event.isIo.ne_armed {e : Event} {t : TokenId} (he : e.isIo t) (u : TokenId) (tv : Timeval) :
    e ≠ .armed u tv := by
  rintro rfl
  exact he

theorem Mode.not_finished_of_none {m : Mode} (hm : m = .none) : ¬ m.finished := by
  rintro (h | h) <;> rw [hm] at h <;> cases h

theorem Mode.not_finished_of_pending {m : Mode} (hm : m.pending) : ¬ m.finished := by
  rintro (h | h) <;> rcases hm with hm | hm <;> rw [hm] at h <;> cases h

theorem Mode.pending_of_not_finished {m : Mode} (hn : m ≠ .none) (hf : ¬ m.finished) :
    m.pending := by
  cases m <;> simp_all [Mode.pending, Mode.finished]

theorem Mode.ne_none_of_pending {m : Mode} (hm : m.pending) : m ≠ .none := by
  rintro rfl
  rcases hm with hm | hm <;> cases hm

theorem Mode.ne_none_of_finished {m : Mode} (hm : m.finished) : m ≠ .none := by
  rintro rfl
  rcases hm with hm | hm <;> cases hm

namespace Heap

/-- What the queue and the timer list say about the tokens. -/
structure Books (h : Heap κ) : Prop where
  queue_nodup : h.queue.Nodup
  queued : ∀ t, t ∈ h.queue ↔ (h.tok t).mode.finished
  sorted : KeyedSet.Sorted h.tv h.timerList
  timed : ∀ t ∈ h.timerList, (h.tok t).mode ≠ .none
  armed : ∀ t ∈ h.timerList, armedAt t h.log = some (h.tv t)
  gone : ∀ t, h.live t.sock = false → (h.tok t).mode = .none

/-- No token of the timer list has a completion to be delivered. -/
def Settled (h : Heap κ) : Prop := ∀ t ∈ h.timerList, (h.tok t).mode.pending

variable {h h' : Heap κ} {t u : TokenId} {id : SockId} {n ms : Int} {m : Mode} {now : Timeval}
  {q : Request κ} {e : Event} {ok : Bool}

namespace Books

theorem not_queued (hb : Books h) (hm : ¬ (h.tok t).mode.finished) : t ∉ h.queue :=
  fun hq => hm ((hb.queued t).mp hq)

theorem not_timed (hb : Books h) (hm : (h.tok t).mode = .none) : t ∉ h.timerList :=
  fun ht => hb.timed t ht hm

/-- The invariant reads nothing else. -/
theorem frame (hb : Books h) (hmode : ∀ t, (h'.tok t).mode = (h.tok t).mode)
    (htv : ∀ t ∈ h.timerList, h'.tv t = h.tv t) (hlive : ∀ id, h'.live id = h.live id)
    (hq : h'.queue = h.queue) (ht : h'.timerList = h.timerList)
    (hlog : ∀ t, armedAt t h'.log = armedAt t h.log) : Books h' where
  queue_nodup := by rw [hq]; exact hb.queue_nodup
  queued t := by rw [hq, hmode]; exact hb.queued t
  sorted := by rw [ht]; exact hb.sorted.congr htv
  timed t hm := by
    rw [ht] at hm
    rw [hmode]
    exact hb.timed t hm
  armed t hm := by
    rw [ht] at hm
    rw [hlog, htv t hm]
    exact hb.armed t hm
  gone t hl := by
    rw [hlive] at hl
    rw [hmode]
    exact hb.gone t hl

theorem noted (hb : Books h) (hn : Noted h h') : Books h' := by
  obtain ⟨evs, he, hlog⟩ := hn.log
  refine hb.frame (fun t => by rw [hn.tok]) (fun t _ => hn.tv t) hn.live hn.queue hn.timerList ?_
  intro t
  rw [hlog, armedAt_notes he]

theorem begun (hb : Books h) (hs : Begun h q e h') : Books h' := by
  refine hb.frame ?_ ?_ hs.live hs.queue hs.timerList ?_
  · intro u
    by_cases hu : u = q.token
    · rw [hu, hs.fresh, hs.free]
    · rw [hs.other u hu]
  · intro u _
    by_cases hu : u = q.token
    · rw [hu, hs.tv]
    · exact congrArg Token.tv (hs.other u hu)
  · intro u
    rw [hs.log, armedAt_cons hs.io.ne_armed, armedAt_cons (by simp)]

theorem touched (hb : Books h) (hs : Touched h t e h') : Books h' := by
  refine hb.frame ?_ ?_ hs.live hs.queue hs.timerList ?_
  · intro u
    by_cases hu : u = t
    · rw [hu, hs.mode]
    · rw [hs.other u hu]
  · intro u _
    by_cases hu : u = t
    · rw [hu, hs.tv]
    · exact congrArg Token.tv (hs.other u hu)
  · intro u
    rw [hs.log, armedAt_cons hs.io.ne_armed]

theorem setErr (hb : Books h) (code : Int) (d : Detail) : Books (h.setErr t code d) := by
  refine hb.frame ?_ ?_ (fun _ => live_setErr code) rfl rfl (fun _ => rfl)
  · intro u
    rw [tok_setErr]
    split
    · rename_i hu
      rw [hu]
    · rfl
  · intro u _
    simp only [Heap.tv, tok_setErr]
    split
    · rename_i hu
      rw [hu]
    · rfl

theorem refuse (hb : Books h) (d : Detail) : Books (h.refuse t d) := by
  refine (hb.setErr (t := t) (-1) d).frame (fun _ => rfl) (fun _ _ => rfl) (fun _ => rfl) rfl rfl ?_
  intro u
  exact armedAt_cons (by simp)

/-- An operation that ends is queued; it was not queued before. -/
theorem finish (hb : Books h) (hm : ¬ (h.tok t).mode.finished) (hl : h.live t.sock = true)
    (hf : m.finished) : Books (h.finish t n m) where
  queue_nodup := by
    have hq := hb.not_queued hm
    rw [queue_finish]
    refine List.nodup_append.mpr ⟨hb.queue_nodup, List.nodup_singleton t, ?_⟩
    intro a ha b hb' he
    rw [List.mem_singleton] at hb'
    rw [he, hb'] at ha
    exact hq ha
  queued u := by
    rw [queue_finish, List.mem_append, List.mem_singleton, tok_finish]
    by_cases hu : u = t
    · simp [hu, hf]
    · simp [hu, hb.queued u]
  sorted := by
    refine hb.sorted.congr ?_
    intro u _
    simp only [Heap.tv, tok_finish]
    split
    · rename_i hu
      rw [hu]
    · rfl
  timed u hu := by
    rw [tok_finish]
    split
    · exact Mode.ne_none_of_finished hf
    · exact hb.timed u hu
  armed u hu := by
    have htv : (h.finish t n m).tv u = h.tv u := by
      simp only [Heap.tv, tok_finish]
      split
      · rename_i he
        rw [he]
      · rfl
    rw [htv, log_finish]
    exact hb.armed u hu
  gone u hd := by
    rw [live_finish] at hd
    have hu : u ≠ t := by
      rintro rfl
      rw [hl] at hd
      cases hd
    rw [tok_finish, if_neg hu]
    exact hb.gone u hd

/-- The deadlines of the other tokens stay. -/
theorem tv_park_of_ne (hu : u ≠ t) : (h.park t n m ms now).tv u = h.tv u := by
  simp [Heap.tv, tok_park, hu]

/-- An operation that has to wait keeps its token out of the queue, and may enter the timer list. -/
theorem park (hb : Books h) (hm : (h.tok t).mode = .none) (hl : h.live t.sock = true)
    (hp : m.pending) : Books (h.park t n m ms now) := by
  have hfree := hb.not_timed hm
  have hsorted : KeyedSet.Sorted (h.park t n m ms now).tv h.timerList := by
    apply hb.sorted.congr
    intro u hu
    exact tv_park_of_ne fun he => hfree (he ▸ hu)
  -- the cases of `t` and of an old member, for everything said about the new timer list
  have hmem : ∀ u ∈ (h.park t n m ms now).timerList,
      (u = t ∧ ms ≠ 0 ∧ armedAt t (h.park t n m ms now).log = some (timeradd now (ofMsec ms))) ∨
      (u ≠ t ∧ u ∈ h.timerList ∧ armedAt u (h.park t n m ms now).log = armedAt u h.log) := by
    intro u hu
    by_cases hms : ms = 0
    · subst hms
      rw [timerList_park_zero] at hu
      rw [log_park_zero]
      exact .inr ⟨fun he => hfree (he ▸ hu), hu, rfl⟩
    · rw [timerList_park hms] at hu
      rw [log_park hms]
      by_cases hut : u = t
      · subst hut
        have hins := (KeyedSet.mem_insert_self_iff hfree).mp hu
        rw [if_pos (KeyedSet.insert_snd_iff.mpr hins)]
        exact .inl ⟨rfl, hms, by simp [armedAt]⟩
      · refine .inr ⟨hut, (KeyedSet.mem_of_mem_insert hu).resolve_left hut, ?_⟩
        split
        · simp [armedAt, Ne.symm hut]
        · rfl
  refine ⟨?_, ?_, ?_, ?_, ?_, ?_⟩
  · rw [queue_park]
    exact hb.queue_nodup
  · intro u
    rw [queue_park, tok_park]
    by_cases hu : u = t
    · subst hu
      simp only [if_true]
      exact iff_of_false (hb.not_queued (Mode.not_finished_of_none hm))
        (Mode.not_finished_of_pending hp)
    · rw [if_neg hu]
      exact hb.queued u
  · by_cases hms : ms = 0
    · subst hms
      rw [timerList_park_zero]
      exact hsorted
    · rw [timerList_park hms]
      exact KeyedSet.sorted_insert hsorted
  · intro u hu
    rw [tok_park]
    rcases hmem u hu with ⟨he, -, -⟩ | ⟨hne, hold, -⟩
    · rw [if_pos he]
      exact Mode.ne_none_of_pending hp
    · rw [if_neg hne]
      exact hb.timed u hold
  · intro u hu
    rcases hmem u hu with ⟨rfl, hms, ha⟩ | ⟨hne, hold, ha⟩
    · rw [ha]
      simp [Heap.tv, tok_park, deadline, hms]
    · rw [ha, tv_park_of_ne hne]
      exact hb.armed u hold
  · intro u hd
    rw [live_park] at hd
    have hu : u ≠ t := by
      rintro rfl
      rw [hl] at hd
      cases hd
    rw [tok_park, if_neg hu]
    exact hb.gone u hd

theorem opens (hb : Books h) (hl : h.live q.token.sock = true) (ho : Opens h q (h', ok)) :
    Books h' := by
  cases ho with
  | refused d hm => exact hb.refuse d
  | finished hs hf =>
    exact (hb.begun hs).finish (Mode.not_finished_of_none hs.fresh) (by rw [hs.live, hl]) hf
  | parked hs hp he => exact (hb.begun hs).park hs.fresh (by rw [hs.live, hl]) hp

theorem progresses (hb : Books h) (hl : h.live t.sock = true) (hp : Progresses h t h') :
    Books h' := by
  cases hp with
  | idle hi => exact hb
  | waits hp hs he => exact hb.touched hs
  | finishes hp hs hf =>
    refine (hb.touched hs).finish ?_ (by rw [hs.live, hl]) hf
    rw [hs.mode]
    exact Mode.not_finished_of_pending hp

/-- The token at the head of the queue becomes idle and is in neither list. -/
theorem complete (hb : Books h) (hq : t ∈ h.queue) : Books (h.complete t) where
  queue_nodup := hb.queue_nodup.erase t
  queued u := by
    change u ∈ h.queue.erase t ↔ _
    rw [hb.queue_nodup.mem_erase_iff, tok_complete]
    by_cases hu : u = t
    · simp [hu, Mode.finished]
    · simp [hu, hb.queued u]
  sorted := by
    refine (KeyedSet.sorted_erase (x := t) hb.sorted).congr ?_
    intro u _
    simp only [Heap.tv, tok_complete]
    split
    · rename_i hu
      rw [hu]
    · rfl
  timed u hu := by
    have hne : u ≠ t := by
      rintro rfl
      exact KeyedSet.not_mem_erase_self hu
    rw [tok_complete, if_neg hne]
    exact hb.timed u (KeyedSet.mem_erase.mp hu).1
  armed u hu := by
    have hne : u ≠ t := by
      rintro rfl
      exact KeyedSet.not_mem_erase_self hu
    rw [Heap.tv, tok_complete, if_neg hne]
    exact hb.armed u (KeyedSet.mem_erase.mp hu).1
  gone u hd := by
    simp only [Heap.complete, live_modify, live_popTimer, live_removeToken] at hd
    rw [tok_complete]
    split
    · rfl
    · exact hb.gone u hd

/-- The token at the head of the timer list becomes idle; a settled one was not queued. -/
theorem expire (hb : Books h) {rest : List TokenId} (ht : h.timerList = t :: rest)
    (hp : (h.tok t).mode.pending) : Books (h.expire t rest) := by
  have htok : ∀ u, ((h.expire t rest).tok u).mode =
      if u = t then .none else (h.tok u).mode := by
    intro u
    rw [tok_expire]
    split <;> rfl
  have htv : ∀ u, (h.expire t rest).tv u = h.tv u := by
    intro u
    rw [Heap.tv, tok_expire]
    split
    · rename_i hu
      rw [hu]
      rfl
    · rfl
  have hsorted := hb.sorted
  rw [ht] at hsorted
  have hne : ∀ u ∈ rest, u ≠ t := by
    rintro u hu rfl
    exact lt_irrefl _ (hsorted.head_lt hu)
  have hold : ∀ u ∈ rest, u ∈ h.timerList := by
    intro u hu
    rw [ht]
    exact List.mem_cons_of_mem t hu
  refine ⟨hb.queue_nodup, ?_, ?_, ?_, ?_, ?_⟩
  · intro u
    rw [htok]
    change u ∈ h.queue ↔ _
    by_cases hu : u = t
    · subst hu
      simp only [if_true]
      exact iff_of_false (hb.not_queued (Mode.not_finished_of_pending hp))
        (Mode.not_finished_of_none rfl)
    · rw [if_neg hu]
      exact hb.queued u
  · exact hsorted.tail.congr fun u _ => htv u
  · intro u hu
    rw [htok, if_neg (hne u hu)]
    exact hb.timed u (hold u hu)
  · intro u hu
    rw [htv]
    exact hb.armed u (hold u hu)
  · intro u hd
    rw [htok]
    split
    · rfl
    · refine hb.gone u ?_
      rw [Heap.expire, live_setErr, live_modify] at hd
      exact hd

theorem create (hb : Books h) (hd : h.live id = false) (soc : Int) (rtv wtv : Timeval) :
    Books (h.create id soc rtv wtv) := by
  have htok : ∀ u, u.sock ≠ id → (h.create id soc rtv wtv).tok u = h.tok u := by
    intro u hu
    rw [tok_create, if_neg hu]
  have hmode : ∀ u, ((h.create id soc rtv wtv).tok u).mode = (h.tok u).mode := by
    intro u
    by_cases hu : u.sock = id
    · rw [tok_create, if_pos hu, hb.gone u (by rw [hu, hd])]
      rfl
    · rw [htok u hu]
  have htv : ∀ u ∈ h.timerList, (h.create id soc rtv wtv).tv u = h.tv u := by
    intro u hu
    refine congrArg Token.tv (htok u ?_)
    intro he
    exact hb.timed u hu (hb.gone u (by rw [he, hd]))
  have hlog : ∀ u, armedAt u (h.create id soc rtv wtv).log = armedAt u h.log :=
    fun u => armedAt_cons (by simp)
  refine ⟨hb.queue_nodup, ?_, hb.sorted.congr htv, ?_, ?_, ?_⟩
  · intro u
    rw [hmode]
    exact hb.queued u
  · intro u hu
    rw [hmode]
    exact hb.timed u hu
  · intro u hu
    rw [hlog, htv u hu]
    exact hb.armed u hu
  · intro u hl
    rw [hmode]
    refine hb.gone u ?_
    by_cases hu : u.sock = id
    · rw [hu, hd]
    · simpa [Heap.create, Heap.live, Heap.emit, hu] using hl

end Books

/-! ### Destruction -/

theorem mem_queue_unlink (hn : h.queue.Nodup) :
    u ∈ (h.unlink id).queue ↔ u ∈ h.queue ∧ u.sock ≠ id := by
  rw [queue_unlink, (hn.erase _).mem_erase_iff, hn.mem_erase_iff]
  obtain ⟨i, d⟩ := u
  cases d <;> simp [TokenId.mk.injEq, and_comm]

theorem nodup_queue_unlink (hn : h.queue.Nodup) : (h.unlink id).queue.Nodup := by
  rw [queue_unlink]
  exact (hn.erase _).erase _

theorem mem_timerList_unlink : u ∈ (h.unlink id).timerList ↔
    u ∈ h.timerList ∧ h.tv u ≠ h.tv ⟨id, .read⟩ ∧ h.tv u ≠ h.tv ⟨id, .write⟩ := by
  rw [timerList_unlink, KeyedSet.mem_erase, KeyedSet.mem_erase, and_assoc]

theorem sorted_timerList_unlink (hs : KeyedSet.Sorted h.tv h.timerList) :
    KeyedSet.Sorted h.tv (h.unlink id).timerList := by
  rw [timerList_unlink]
  exact KeyedSet.sorted_erase (KeyedSet.sorted_erase hs)

/-- A member of the timer list that survives the destructor is a token of another Socket. -/
theorem sock_ne_of_mem_unlink (hu : u ∈ (h.unlink id).timerList) : u.sock ≠ id := by
  obtain ⟨-, hr, hw⟩ := mem_timerList_unlink.mp hu
  obtain ⟨i, d⟩ := u
  rintro rfl
  cases d
  · exact hr rfl
  · exact hw rfl

theorem Books.destroy (hb : Books h) : Books ((h.unlink id).release id) := by
  have htok : ∀ u : TokenId, u.sock ≠ id → ((h.unlink id).release id).tok u = h.tok u := by
    intro u hu
    rw [tok_release, if_neg hu, tok_unlink]
  refine ⟨nodup_queue_unlink hb.queue_nodup, ?_, ?_, ?_, ?_, ?_⟩
  · intro u
    change u ∈ (h.unlink id).queue ↔ _
    rw [mem_queue_unlink hb.queue_nodup]
    by_cases hu : u.sock = id
    · rw [tok_release, if_pos hu]
      simp [hu, Token.new, Mode.finished]
    · rw [htok u hu]
      simp [hu, hb.queued u]
  · exact (sorted_timerList_unlink hb.sorted).congr fun u hu =>
      congrArg Token.tv (htok u (sock_ne_of_mem_unlink hu))
  · intro u hu
    rw [htok u (sock_ne_of_mem_unlink hu)]
    exact hb.timed u (mem_timerList_unlink.mp hu).1
  · intro u hu
    have htv : ((h.unlink id).release id).tv u = h.tv u :=
      congrArg Token.tv (htok u (sock_ne_of_mem_unlink hu))
    rw [htv]
    change armedAt u (.destroyed id :: (h.unlink id).log) = _
    rw [armedAt_cons (by simp), log_unlink]
    exact hb.armed u (mem_timerList_unlink.mp hu).1
  · intro u hd
    rw [tok_release]
    split
    · rfl
    · rename_i hu
      rw [live_release, if_neg hu, live_unlink] at hd
      rw [tok_unlink]
      exact hb.gone u hd

theorem Settled.of_queue_nil (hb : Books h) (hq : h.queue = []) : Settled h := by
  intro t ht
  apply Mode.pending_of_not_finished (hb.timed t ht)
  intro hf
  have hm := (hb.queued t).mpr hf
  rw [hq] at hm
  cases hm

/-! ### Pending operations in the timer list -/

namespace Settled

theorem of_tok (hs : Settled h) (ht : ∀ t ∈ h'.timerList, t ∈ h.timerList ∧
    (h'.tok t).mode = (h.tok t).mode) : Settled h' := by
  intro t hm
  rw [(ht t hm).2]
  exact hs t (ht t hm).1

theorem noted (hs : Settled h) (hn : Noted h h') : Settled h' := by
  refine hs.of_tok fun t hm => ⟨?_, by rw [hn.tok]⟩
  rw [← hn.timerList]
  exact hm

theorem setErr (hs : Settled h) (code : Int) (d : Detail) : Settled (h.setErr t code d) := by
  refine hs.of_tok fun u hm => ⟨hm, ?_⟩
  rw [tok_setErr]
  split
  · rename_i hu
    rw [hu]
  · rfl

theorem opens (hs : Settled h) (hb : Books h) (ho : Opens h q (h', ok)) : Settled h' := by
  cases ho with
  | refused d hm => exact hs.setErr (-1) d
  | finished hg hf =>
    refine hs.of_tok fun u hm => ?_
    rw [timerList_finish, hg.timerList] at hm
    have hne : u ≠ q.token := fun he => hb.not_timed hg.free (he ▸ hm)
    rw [tok_finish, if_neg hne, hg.other u hne]
    exact ⟨hm, rfl⟩
  | parked hg hp he =>
    intro u hm
    rw [tok_park]
    split
    · exact hp
    · rename_i hne
      have hold : u ∈ h.timerList := by
        rw [← hg.timerList]
        by_cases hms : q.timeoutMsec = 0
        · rw [hms, timerList_park_zero] at hm
          exact hm
        · rw [timerList_park hms] at hm
          exact (KeyedSet.mem_of_mem_insert hm).resolve_left hne
      rw [hg.other u hne]
      exact hs u hold

theorem create (hs : Settled h) (hb : Books h) (hd : h.live id = false) (soc : Int)
    (rtv wtv : Timeval) : Settled (h.create id soc rtv wtv) := by
  refine hs.of_tok fun u hm => ⟨hm, ?_⟩
  have hu : u.sock ≠ id := by
    intro he
    exact hb.timed u hm (hb.gone u (by rw [he, hd]))
  rw [tok_create, if_neg hu]

theorem destroy (hs : Settled h) : Settled ((h.unlink id).release id) := by
  refine hs.of_tok fun u hm => ⟨(mem_timerList_unlink.mp hm).1, ?_⟩
  rw [tok_release, if_neg (sock_ne_of_mem_unlink hm), tok_unlink]

theorem expire (hs : Settled h) (hb : Books h) {rest : List TokenId}
    (ht : h.timerList = t :: rest) : Settled (h.expire t rest) := by
  have hsorted := hb.sorted
  rw [ht] at hsorted
  refine hs.of_tok fun u hm => ?_
  have hmem : u ∈ rest := hm
  have hne : u ≠ t := by
    rintro rfl
    exact lt_irrefl _ (hsorted.head_lt hmem)
  refine ⟨?_, ?_⟩
  · rw [ht]
    exact List.mem_cons_of_mem t hmem
  · rw [tok_expire, if_neg hne]

end Settled

end Heap

/-! ### Whole runs -/

/-- The invariant of `run`: between deliveries the timer list holds pending operations only. -/
structure Consistent (s : State κ) : Prop where
  books : s.heap.Books
  settled : s.pc.steady → s.heap.Settled

namespace State

variable {s s' : State κ} {t : TokenId} {err : Error} {bytes : Int} {via : Via} {id : SockId}

/-- A call into user code leaves a note in the history. -/
theorem books_invoke (hb : s.heap.Books) : (s.invoke t err bytes via).heap.Books := by
  obtain ⟨-, he⟩ | ⟨cb, -, he⟩ := invoke_cases s t err bytes via
  · rw [he]
    exact hb
  · rw [he]
    exact hb.frame (fun _ => rfl) (fun _ _ => rfl) (fun _ => rfl) rfl rfl
      (fun _ => armedAt_cons (by simp))

theorem settled_invoke (hs : s.heap.Settled) : (s.invoke t err bytes via).heap.Settled := by
  obtain ⟨-, he⟩ | ⟨cb, -, he⟩ := invoke_cases s t err bytes via
  · rw [he]
    exact hs
  · rw [he]
    exact hs

theorem pc_invoke : (s.invoke t err bytes via).pc = s.pc ∨
    (s.invoke t err bytes via).pc = .thrown := by
  obtain ⟨-, he⟩ | ⟨cb, -, he⟩ := invoke_cases s t err bytes via
  · rw [he]
    exact .inr rfl
  · rw [he]
    exact .inl rfl

theorem books_onCloseSocket (hb : s.heap.Books) : (s.onCloseSocket id).heap.Books := by
  have hset : (s.resetErrs id).heap.Books :=
    (hb.setErr (t := ⟨id, .read⟩) ECONNRESET .closed).setErr ECONNRESET .closed
  exact onCloseSocket_rule (P := fun s' => s'.heap.Books) hset fun _ _ => books_invoke hset

theorem settled_onCloseSocket (hs : s.heap.Settled) : (s.onCloseSocket id).heap.Settled := by
  have hset : (s.resetErrs id).heap.Settled :=
    (hs.setErr (t := ⟨id, .read⟩) ECONNRESET .closed).setErr ECONNRESET .closed
  exact onCloseSocket_rule (P := fun s' => s'.heap.Settled) hset fun _ _ => settled_invoke hset

end State

section Runs

open Heap (Noted)

variable {s s' : State κ} {act : Action κ}

theorem Consistent.init (mem : Mem) : Consistent (State.initial mem : State κ) where
  books :=
    { queue_nodup := List.nodup_nil
      queued := by
        rintro ⟨i, d⟩
        cases d <;> simp [State.initial, Heap.tok, Socket.token, Socket.gone, Token.new,
          Mode.finished]
      sorted := List.Pairwise.nil
      timed := by simp [State.initial]
      armed := by simp [State.initial]
      gone := by
        rintro ⟨i, d⟩ _
        cases d <;> rfl }
  settled _ := by
    intro t ht
    cases ht

/-- Every step of the machine keeps the books. -/
theorem Consistent.step (hc : Consistent s) (hs : s.step act = some s') : Consistent s' := by
  obtain ⟨hb, hset⟩ := hc
  cases State.step_effect hs with
  | noted hn hp =>
    refine ⟨hb.noted hn, fun hsteady => Heap.Settled.noted ?_ hn⟩
    rcases hp hsteady with h | h
    · exact hset h
    · exact Heap.Settled.of_queue_nil hb h
  | created hd hn hp =>
    refine ⟨(hb.create hd _ _ _).noted hn, fun hsteady => ?_⟩
    rw [hp] at hsteady
    exact ((hset hsteady).create hb hd _ _ _).noted hn
  | opened hq hl ho hp =>
    refine ⟨hb.opens hl ho, fun hsteady => ?_⟩
    rw [hp] at hsteady
    exact (hset hsteady).opens hb ho
  | progressed hl hn hpr hp =>
    exact ⟨(hb.noted hn).progresses (by rw [hn.live, hl]) hpr,
      fun hsteady => (hp.draining.not_steady hsteady).elim⟩
  | destroyed hl hn he hp =>
    rw [← hp] at hset
    refine ⟨?_, fun hsteady => ?_⟩
    · rw [he]
      exact (hb.noted hn).destroy
    · rw [he]
      exact ((hset hsteady).noted hn).destroy
  | completed hc hp hq hl he =>
    subst he
    refine ⟨State.books_invoke (hb.complete ?_), fun hsteady => ?_⟩
    · rw [hq]
      exact List.mem_cons_self
    · rcases State.pc_invoke with hpc | hpc
      · rw [hpc] at hsteady
        exact (hp.not_steady hsteady).elim
      · rw [hpc] at hsteady
        exact hsteady.elim
  | fired hc hpc ht hl hlt he =>
    subst he
    have hs₀ := hset (by rw [hpc]; trivial)
    refine ⟨State.books_invoke (hb.expire ht (hs₀ _ ?_)), fun _ => ?_⟩
    · rw [ht]
      exact List.mem_cons_self
    · exact State.settled_invoke (hs₀.expire hb ht)
  | hungup ha hc hpc hup hh hl he =>
    subst he
    have hs₀ := hset (by rw [hpc]; trivial)
    exact ⟨State.books_onCloseSocket (hb.noted ((Noted.refl s.heap).emit (by trivial))),
      fun _ => State.settled_onCloseSocket (hs₀.noted ((Noted.refl s.heap).emit (by trivial)))⟩

/-- The books are consistent in every reachable state. -/
theorem consistent_of_reachable {p : State κ → Action κ → Prop}
    (hr : (proactor κ).Reachable p s) : Consistent s := by
  apply hr.invariant
  · rintro s₀ ⟨mem, rfl⟩
    exact Consistent.init mem
  · intro s₀ act s₁ _ hc _ hs
    exact hc.step hs

/-- Queue membership follows the mode, idle tokens and those of destroyed Sockets are nowhere,
`_processTimer` starts with pending tokens only, and a deadline in the set never changes. -/
theorem bookkeeping_consistent (hr : (proactor κ).Reachable Machine.free s) :
    (∀ t, s.heap.queue.count t = if (s.heap.tok t).mode.finished then 1 else 0) ∧
    (∀ t, (s.heap.tok t).mode = .none → t ∉ s.heap.queue ∧ t ∉ s.heap.timerList) ∧
    (s.pc = .event [] → ∀ t ∈ s.heap.timerList, (s.heap.tok t).mode.pending) ∧
    (∀ t ∈ s.heap.timerList, armedAt t s.heap.log = some (s.heap.tv t)) ∧
    (∀ t, s.heap.live t.sock = false → t ∉ s.heap.queue ∧ t ∉ s.heap.timerList) := by
  obtain ⟨hb, hset⟩ := consistent_of_reachable hr
  have hidle : ∀ t, (s.heap.tok t).mode = .none → t ∉ s.heap.queue ∧ t ∉ s.heap.timerList :=
    fun t hm => ⟨hb.not_queued (Mode.not_finished_of_none hm), hb.not_timed hm⟩
  refine ⟨?_, hidle, ?_, hb.armed, fun t hd => hidle t (hb.gone t hd)⟩
  · intro t
    split
    · rename_i hf
      exact List.count_eq_one_of_mem hb.queue_nodup ((hb.queued t).mpr hf)
    · rename_i hf
      exact List.count_eq_zero_of_not_mem (hb.not_queued hf)
  · intro hpc
    exact hset (by rw [hpc]; trivial)

/-- A read that waits and a write that has completed, of two Sockets. -/
def waitingAndDone : List (Action Unit) :=
  [.createUnbound 0 ⟨0, 0⟩ ⟨0, 0⟩, .createUnbound 1 ⟨0, 0⟩ ⟨0, 0⟩,
    .readSome 0 ⟨1, 0⟩ 8 () 5000 (.fail EAGAIN) ⟨10, 0⟩,
    .writeAll 1 ⟨2, 0⟩ 4 () 0 (.accepted 4) ⟨10, 0⟩]

theorem bookkeeping_consistent_waitingAndDone :
    ∃ s : State Unit, (proactor Unit).Reachable Machine.free s ∧
      s.heap.queue = [⟨1, .write⟩] ∧ s.heap.timerList = [⟨0, .read⟩] ∧
      (∀ t, s.heap.queue.count t = if (s.heap.tok t).mode.finished then 1 else 0) ∧
      armedAt ⟨0, .read⟩ s.heap.log = some (s.heap.tv ⟨0, .read⟩) := by
  obtain ⟨s, hr, hf⟩ := Machine.exists_of_exec (M := proactor Unit) (p := Machine.free)
    (s := State.initial fun _ _ => 0) (l := waitingAndDone)
    (f := fun s => (s.heap.queue, s.heap.timerList)) (b := ([⟨1, .write⟩], [⟨0, .read⟩]))
    ⟨_, rfl⟩ (by decide)
  obtain ⟨hq, ht⟩ := Prod.mk.inj hf
  obtain ⟨hcount, -, -, harmed, -⟩ := bookkeeping_consistent hr
  exact ⟨s, hr, hq, ht, hcount, harmed _ (by rw [ht]; exact List.mem_singleton.mpr rfl)⟩

end Runs

end EchoBenchmark.Proactor
