import EchoBenchmark.Echo.Server
import EchoBenchmark.Lib.History
import EchoBenchmark.Proactor.Accounts
import EchoBenchmark.Proactor.Removal

/-!
The life of an `EchoClient`: it has one operation at a time, and the batch, the queue and the timer
list hold no pointer to it any more when it is deleted.
-/

namespace EchoBenchmark.Echo

open EchoBenchmark.Proactor
open History (Adds Each)

variable {s s' : State Fn} {c : ClientId} {t : TokenId} {todo : List Stmt} {act : Action Fn}

/-! ### What the history says about a client -/

/-- The object was created last and not deleted since. -/
def Alive (c : ClientId) : List Event → Prop
  | [] => False
  | .created j :: log => j = c ∨ Alive c log
  | .destroyed j :: log => j ≠ c ∧ Alive c log
  | _ :: log => Alive c log

/-- The entry is the deletion of the client, or the use of the client or its Socket by `run`. -/
def uses (c : ClientId) : Event → Prop
  | .destroyed j => j = c
  | .dispatched (.socket j) _ => j = c
  | .called t _ _ _ _ => t.sock = c
  | .useAfterFree (.socket j) => j = c
  | _ => False

/-- The client is deleted and used only while it is there. -/
abbrev UsedAlive (c : ClientId) : List Event → Prop := Each fun past e => uses c e → Alive c past

/-- An entry that changes no object and uses objects that are there. -/
def Event.lawful (h : Heap Fn) (e : Event) : Prop :=
  (∀ j, e ≠ .created j ∧ e ≠ .destroyed j) ∧ ∀ c, uses c e → h.live c = true

/-- The history knows which clients there are, and they were used only while they were. -/
structure Chronicle (h : Heap Fn) : Prop where
  alive : ∀ c, Alive c h.log ↔ h.live c = true
  used : ∀ c, UsedAlive c h.log

namespace Chronicle

variable {h h' : Heap Fn}

theorem adds (hc : Chronicle h) (ha : Adds (Event.lawful h) h.log h'.log)
    (hlive : ∀ c, h'.live c = h.live c) : Chronicle h' := by
  obtain ⟨halive, hused⟩ := ha.rule
    (R := fun log => (∀ c, Alive c log ↔ h.live c = true) ∧ ∀ c, UsedAlive c log)
    ⟨hc.alive, hc.used⟩ fun e log he hlog => by
      refine ⟨fun c => ?_, fun c => ⟨fun hu => (hlog.1 c).mpr (he.2 c hu), hlog.2 c⟩⟩
      rw [← hlog.1 c]
      cases e with
      | created j => exact ((he.1 j).1 rfl).elim
      | destroyed j => exact ((he.1 j).2 rfl).elim
      | _ => exact Iff.rfl
  exact ⟨fun c => by rw [hlive]; exact halive c, hused⟩

theorem created (hc : Chronicle h) (hlog : h'.log = .created c :: h.log)
    (hlive : ∀ j, h'.live j = if j = c then true else h.live j) : Chronicle h' where
  alive j := by
    rw [hlog, hlive, Alive, hc.alive]
    split
    · rename_i hj
      exact iff_of_true (.inl hj.symm) rfl
    · rename_i hj
      exact or_iff_right fun hcj => hj hcj.symm
  used j := by
    rw [hlog]
    exact ⟨False.elim, hc.used j⟩

theorem destroyed (hc : Chronicle h) (hl : h.live c = true)
    (hlog : h'.log = .destroyed c :: h.log)
    (hlive : ∀ j, h'.live j = if j = c then false else h.live j) : Chronicle h' where
  alive j := by
    rw [hlog, hlive, Alive, hc.alive]
    split
    · rename_i hj
      exact iff_of_false (fun h => h.1 hj.symm) nofun
    · rename_i hj
      exact and_iff_right fun hcj => hj hcj.symm
  used j := by
    rw [hlog]
    refine ⟨?_, hc.used j⟩
    rintro (rfl : c = j)
    exact (hc.alive c).mpr hl

end Chronicle

theorem lawful_of_isIo {h : Heap Fn} {e : Event} (he : e.isIo t) : Event.lawful h e := by
  cases e <;> first | exact he.elim | exact ⟨fun _ => ⟨nofun, nofun⟩, fun _ => False.elim⟩

theorem lawful_opens {h h' : Heap Fn} {q : Request Fn} {ok : Bool} (ho : h.Opens q (h', ok)) :
    Adds (Event.lawful h) h.log h'.log := by
  have hcall : ∀ {e : Event} {h₁ : Heap Fn}, h.Begun q e h₁ →
      Adds (Event.lawful h) h.log h₁.log := by
    intro e h₁ hs
    rw [hs.log]
    refine (Adds.refl.cons ?_).cons (lawful_of_isIo hs.io)
    exact ⟨fun _ => ⟨nofun, nofun⟩, fun _ => False.elim⟩
  cases ho with
  | refused d _ => exact Adds.refl.cons ⟨fun _ => ⟨nofun, nofun⟩, fun _ => False.elim⟩
  | finished hs _ =>
    rw [Heap.log_finish]
    exact hcall hs
  | @parked e h₁ n hs _ _ =>
    rcases Heap.log_park_cases h₁ q.token n q.mode q.timeoutMsec q.clock with hlog | ⟨tv, hlog⟩
    · rw [hlog]
      exact hcall hs
    · rw [hlog]
      exact (hcall hs).cons ⟨fun _ => ⟨nofun, nofun⟩, fun _ => False.elim⟩

theorem lawful_progresses {h h' : Heap Fn} (hp : h.Progresses t h') :
    Adds (Event.lawful h) h.log h'.log := by
  rcases hp.log with hlog | ⟨e, he, hlog⟩
  · rw [hlog]
    exact Adds.refl
  · rw [hlog]
    exact Adds.refl.cons (lawful_of_isIo he)

/-! ### Clients and their tokens -/

/-- The method that is bound for the callbacks of a token. -/
def Fn.of (t : TokenId) : Fn :=
  match t.dir with
  | .read => .onRead t.sock
  | .write => .onWrite t.sock

/-- No operation of the client is in progress. -/
def Idle (h : Heap Fn) (c : ClientId) : Prop := ∀ d, (h.tok ⟨c, d⟩).mode = .none

/-- The client has one operation. -/
def Busy (h : Heap Fn) (c : ClientId) : Prop :=
  ∃ d, (h.tok ⟨c, d⟩).mode ≠ .none ∧ ∀ d', d' ≠ d → (h.tok ⟨c, d'⟩).mode = .none

def Stmt.client : Stmt → Option ClientId
  | .startRecv c | .memcpy c _ | .writeAll c _ | .close c | .destroySocket c => some c
  | _ => none

/-- The running function still works on the client. -/
def Serves (todo : List Stmt) (c : ClientId) : Prop := ∃ st ∈ todo, st.client = some c

@[simp] theorem serves_nil : ¬ Serves [] c := by simp [Serves]

/-- All clients but the one in work have one operation, and callbacks are bound to their own. -/
structure Clients (todo : List Stmt) (h : Heap Fn) : Prop where
  busy : ∀ c, h.live c = true → ¬ Serves todo c → Busy h c
  bound : ∀ t cb, (h.tok t).cb = some cb → cb.fn = Fn.of t
  reads : ∀ c, h.live c = true → ¬ Serves todo c → ∃ cb, (h.tok ⟨c, .read⟩).cb = some cb

namespace Clients

variable {h h' : Heap Fn} {todo' : List Stmt}

/-- Clients that are still not in work keep their operation. -/
theorem keep (hc : Clients todo h) (hbound : ∀ t cb, (h'.tok t).cb = some cb → cb.fn = Fn.of t)
    (hkeep : ∀ c, h'.live c = true → ¬ Serves todo' c → h.live c = true ∧ ¬ Serves todo c ∧
      ∀ d, (h'.tok ⟨c, d⟩).cb = (h.tok ⟨c, d⟩).cb ∧
        ((h'.tok ⟨c, d⟩).mode = .none ↔ (h.tok ⟨c, d⟩).mode = .none)) : Clients todo' h' where
  busy c hl hs := by
    obtain ⟨hl₀, hs₀, htok⟩ := hkeep c hl hs
    obtain ⟨d, hd, hother⟩ := hc.busy c hl₀ hs₀
    exact ⟨d, fun h => hd ((htok d).2.mp h), fun d' hd' => (htok d').2.mpr (hother d' hd')⟩
  bound := hbound
  reads c hl hs := by
    obtain ⟨hl₀, hs₀, htok⟩ := hkeep c hl hs
    rw [(htok .read).1]
    exact hc.reads c hl₀ hs₀

/-- Nothing that the invariant reads changed. -/
theorem frame (hc : Clients todo h) (hlive : ∀ c, h'.live c = h.live c)
    (hcb : ∀ t, (h'.tok t).cb = (h.tok t).cb)
    (hmode : ∀ t, (h'.tok t).mode = .none ↔ (h.tok t).mode = .none) : Clients todo h' := by
  refine hc.keep (fun t cb ht => hc.bound t cb (hcb t ▸ ht)) fun c hl hs => ?_
  rw [hlive] at hl
  exact ⟨hl, hs, fun d => ⟨hcb _, hmode _⟩⟩

/-- The running function goes on with the clients it had. -/
theorem serving (hc : Clients todo h) (hs : ∀ c, Serves todo c → Serves todo' c) :
    Clients todo' h :=
  hc.keep hc.bound fun c hl hn => ⟨hl, fun h => hn (hs c h), fun _ => ⟨rfl, Iff.rfl⟩⟩

theorem progresses (hc : Clients todo h) (hp : h.Progresses t h') : Clients todo h' := by
  have hcb : ∀ {h₁ : Heap Fn} {e : Event}, h.Touched t e h₁ →
      ∀ u, (h₁.tok u).cb = (h.tok u).cb := by
    intro h₁ e hs u
    by_cases hu : u = t
    · rw [hu, hs.cb]
    · rw [hs.other u hu]
  refine hc.frame hp.live (fun u => ?_) fun u => ?_
  · cases hp with
    | idle => rfl
    | waits _ hs _ => exact hcb hs u
    | finishes _ hs _ =>
      rw [← hcb hs u, Heap.tok_finish]
      split
      · rename_i hu
        rw [hu]
      · rfl
  · by_cases hu : u = t
    · subst hu
      cases hp with
      | idle => exact Iff.rfl
      | waits _ hs _ => rw [hs.mode]
      | finishes hm hs hf =>
        rw [Heap.tok_finish, if_pos rfl]
        exact iff_of_false (Mode.ne_none_of_finished hf) (Mode.ne_none_of_pending hm)
    · rw [hp.other hu]

/-- The client of a token that becomes idle is taken into work. -/
theorem serve (hc : Clients todo h) (hlive : ∀ c, h'.live c = h.live c)
    (htok : ∀ u : TokenId, u.sock ≠ t.sock → h'.tok u = h.tok u)
    (hcb : ∀ u, (h'.tok u).cb = (h.tok u).cb)
    (hserve : ∀ c, ¬ Serves todo' c → c ≠ t.sock ∧ ¬ Serves todo c) : Clients todo' h' := by
  refine hc.keep (fun u cb hu => hc.bound u cb (hcb u ▸ hu)) fun c hl hs => ?_
  obtain ⟨hne, hs₀⟩ := hserve c hs
  rw [hlive] at hl
  exact ⟨hl, hs₀, fun d => by rw [htok ⟨c, d⟩ hne]; exact ⟨rfl, Iff.rfl⟩⟩

/-- The call that ends the work on an idle client starts its next operation. -/
theorem opens {q : Request Fn} {ok : Bool} (hc : Clients todo h) (ho : h.Opens q (h', ok))
    (hidle : Idle h q.token.sock) (hfn : q.fn = Fn.of q.token)
    (hread : q.token.dir = .read ∨ ∃ cb, (h.tok ⟨q.token.sock, .read⟩).cb = some cb)
    (hserve : ∀ c, c ≠ q.token.sock → Serves todo c → Serves todo' c) : Clients todo' h' := by
  have hfree : (h.tok q.token).mode = .none := hidle q.token.dir
  have hafter : (∀ u, u ≠ q.token → h'.tok u = h.tok u) ∧ (h'.tok q.token).mode ≠ .none ∧
      (h'.tok q.token).cb = some ⟨h.nextCall, q.fn⟩ := by
    cases ho with
    | refused d hm => exact (hm hfree).elim
    | finished hs hf =>
      refine ⟨fun u hu => ?_, ?_, ?_⟩
      · rw [Heap.tok_finish, if_neg hu, hs.other u hu]
      · rw [Heap.tok_finish, if_pos rfl]
        exact Mode.ne_none_of_finished hf
      · rw [Heap.tok_finish, if_pos rfl]
        exact hs.cb
    | parked hs hp _ =>
      refine ⟨fun u hu => ?_, ?_, ?_⟩
      · rw [Heap.tok_park, if_neg hu, hs.other u hu]
      · rw [Heap.tok_park, if_pos rfl]
        exact Mode.ne_none_of_pending hp
      · rw [Heap.tok_park, if_pos rfl]
        exact hs.cb
  obtain ⟨hother, hmode, hcb⟩ := hafter
  obtain ⟨⟨k, d⟩, fn, ms, clock, m, call⟩ := q
  dsimp only at hidle hfn hread hserve hother hmode hcb
  have hbound : ∀ u cb, (h'.tok u).cb = some cb → cb.fn = Fn.of u := by
    intro u cb hu
    by_cases hq : u = ⟨k, d⟩
    · rw [hq, hcb] at hu
      cases hu
      rw [hq]
      exact hfn
    · rw [hother u hq] at hu
      exact hc.bound u cb hu
  have hne : ∀ {c d'}, c ≠ k → (⟨c, d'⟩ : TokenId) ≠ ⟨k, d⟩ := by
    intro c d' hck he
    cases he
    exact hck rfl
  refine ⟨fun c hl hs => ?_, hbound, fun c hl hs => ?_⟩
  · by_cases hck : c = k
    · subst hck
      refine ⟨d, hmode, fun d' hd' => ?_⟩
      rw [hother ⟨c, d'⟩ (by simpa using hd')]
      exact hidle d'
    · rw [ho.live] at hl
      obtain ⟨d', hd', hrest⟩ := hc.busy c hl fun h => hs (hserve c hck h)
      refine ⟨d', ?_, fun d'' hd'' => ?_⟩
      · rw [hother ⟨c, d'⟩ (hne hck)]
        exact hd'
      · rw [hother ⟨c, d''⟩ (hne hck)]
        exact hrest d'' hd''
  · by_cases hck : c = k
    · subst hck
      by_cases hd : d = .read
      · exact ⟨_, hd ▸ hcb⟩
      · rw [hother ⟨c, .read⟩ (by simpa using Ne.symm hd)]
        exact hread.resolve_left hd
    · rw [ho.live] at hl
      rw [hother ⟨c, .read⟩ (hne hck)]
      exact hc.reads c hl fun h => hs (hserve c hck h)

end Clients

end EchoBenchmark.Echo
