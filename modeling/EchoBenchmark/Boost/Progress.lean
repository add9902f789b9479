import EchoBenchmark.Boost.Relayed

/-!
As long as no operation fails, a client of the servers on boost::asio that has written what it read
comes to read again, and as many clients are accepted as connect.
-/

namespace EchoBenchmark.Boost

open Coroutine (callbackHistories Twins)

/-- No operation fails, and a read brings bytes. -/
def unbroken : Action → Prop
  | .accept ok _ | .write _ ok => ok = true
  | .read _ none => False
  | .read _ (some bytes) => 1 ≤ bytes.length ∧ bytes.length ≤ BUFLEN

/-- The client has an operation under way, and lives. -/
def Client.serves (c : Client) : Prop :=
  c.destroyed = false ∧ (c.pending = .read ∨ ∃ n, c.pending = .write n)

/-- The clients before the one that waits for a connection are served. -/
structure Unbroken (s : Server) : Prop where
  running : s.deleted = false
  waits : ∃ w c, s.accepting = some w ∧ s.created = w + 1 ∧ s.clients w = some c ∧
    c.destroyed = false
  served : ∀ id, id + 1 < s.created → ∃ c, s.clients id = some c ∧ c.serves

variable {s s' : Server} {a : Action} {c : Client} {id n : Nat} {b : Char}

theorem serves_onRead {bytes : Bytes} (hlive : c.destroyed = false) :
    (c.onRead (some bytes)).serves :=
  ⟨hlive, .inr ⟨_, rfl⟩⟩

theorem serves_onWrite (hlive : c.destroyed = false) : (c.onWrite true).serves := ⟨hlive, .inl rfl⟩

theorem Unbroken.set {d : Client} (h : Unbroken s) (hd : d.serves) : Unbroken (s.set id d) where
  running := h.running
  waits := by
    obtain ⟨w, c, hw, hcreated, hc, hlive⟩ := h.waits
    refine ⟨w, if w = id then d else c, hw, hcreated, ?_, ?_⟩
    · by_cases hid : w = id
      · rw [if_pos hid, hid]
        exact s.clients_set_self id d
      · rw [if_neg hid]
        exact (s.clients_set_other d hid).trans hc
    · split
      · exact hd.1
      · exact hlive
  served j hj := by
    by_cases hid : j = id
    · rw [hid]
      exact ⟨d, s.clients_set_self id d, hd⟩
    · rw [s.clients_set_other d hid]
      exact h.served j hj

/-- The client that waited is served, and the next one waits. -/
theorem Unbroken.accept {cells : Nat → Char} (h : Unbroken s) {w : Nat}
    (hw : s.accepting = some w) (hc : s.clients w = some c) :
    Unbroken ((s.set w c.open).newHandler cells) := by
  obtain ⟨w', c', hw', hcreated, hc', hlive⟩ := h.waits
  obtain rfl : w' = w := Option.some.inj (hw'.symm.trans hw)
  obtain rfl : c' = c := Option.some.inj (hc'.symm.trans hc)
  refine ⟨h.running, ?_, fun id hid => ?_⟩
  · exact ⟨s.created, Client.new cells, rfl, rfl, Server.clients_newHandler_self _ _, rfl⟩
  · have hid : id < s.created := Nat.lt_of_succ_lt_succ hid
    rw [Server.clients_newHandler_other (s.set w' c'.open) cells (Nat.ne_of_lt hid)]
    by_cases hidw : id = w'
    · rw [hidw]
      exact ⟨c'.open, s.clients_set_self w' _, hlive, .inl rfl⟩
    · rw [s.clients_set_other _ hidw]
      exact h.served id (by omega)

theorem step_accept (h : Unbroken s) (cells : Nat → Char) : ∃ w c, s.accepting = some w ∧
    s.clients w = some c ∧
    s.step (.accept true cells) = some ((s.set w c.open).newHandler cells) := by
  obtain ⟨w, c, hw, -, hc, -⟩ := h.waits
  refine ⟨w, c, hw, hc, ?_⟩
  simp only [Server.step, h.running, Server.onAccept, hw, hc, if_true]

theorem asio_of_unbroken (s : Server) (a : Action) (ha : unbroken a) : asio s a := by
  cases a with
  | accept ok cells | write id ok => trivial
  | read id r =>
    cases r with
    | none => trivial
    | some bytes => exact ha

theorem delivers_of_unbroken (ha : unbroken a) : Coroutine.delivers a := by
  cases a with
  | accept ok cells | write id ok => trivial
  | read id r =>
    cases r with
    | none => trivial
    | some bytes => exact ha.2

theorem tidy_of_unbroken (hr : server.Reachable (fun _ a => unbroken a) s) : Tidy s :=
  tidy_of_reachable (hr.mono asio_of_unbroken)

theorem unbroken_of_reachable (hr : server.Reachable (fun _ a => unbroken a) s) : Unbroken s := by
  apply hr.invariant
  · rintro s₀ ⟨cells, rfl⟩
    refine ⟨rfl, ⟨0, Client.new cells, rfl, rfl, rfl, rfl⟩, fun id hid => ?_⟩
    have hid : id + 1 < 1 := hid
    omega
  · intro s₀ a s₁ _ h ha hs
    have hs : s₀.step a = some s₁ := hs
    cases a with
    | accept ok cells =>
      obtain rfl : ok = true := ha
      obtain ⟨w, c, hw, hc, hstep⟩ := step_accept h cells
      cases hstep.symm.trans hs
      exact h.accept hw hc
    | read id r =>
      cases r with
      | none => exact ha.elim
      | some bytes =>
        simp only [Server.step, h.running] at hs
        split at hs
        · split at hs
          · rename_i hready
            cases hs
            exact h.set (serves_onRead hready.1)
          · cases hs
        · cases hs
    | write id ok =>
      obtain rfl : ok = true := ha
      simp only [Server.step, h.running] at hs
      split at hs
      · split at hs
        · split at hs
          · cases hs
          · rename_i hopen
            cases hs
            exact h.set (serves_onWrite (by simpa using hopen))
        · cases hs
      · cases hs

theorem receivedIn_callbacks :
    receivedIn (callbackHistories s) id = (s.clients id).elim [] fun c => received c.log := by
  rw [receivedIn, callbackHistories]
  cases s.clients id <;> rfl

theorem owesIn_callbacks :
    owesIn (callbackHistories s) id = (s.clients id).elim (some []) fun c => owes c.log := by
  rw [owesIn, callbackHistories]
  cases s.clients id <;> rfl

/-- Client `id` comes to read the byte. -/
def Attends (id : Nat) (b : Char) : Server → Prop :=
  Sender.Attends sender server (fun _ a => unbroken a)
    (fun id s => receivedIn (callbackHistories s) id) id b

theorem attends_reading (hrun : s.deleted = false) (hc : s.clients id = some c)
    (hlive : c.destroyed = false) (hp : c.pending = .read) : Attends id b s := by
  have hs : s.step (.read id (some [b])) = some (s.set id (c.onRead (some [b]))) := by
    simp only [Server.step, hrun, hc]
    exact if_pos ⟨hlive, hp⟩
  have hlen : 1 ≤ [b].length ∧ [b].length ≤ BUFLEN := by
    rw [List.length_singleton]
    decide
  refine .takes (a := .read id (some [b])) hlen hs rfl ?_ fun j hj => ?_
  · rw [receivedIn_callbacks, receivedIn_callbacks, hc, s.clients_set_self]
    simp [Client.onRead, Client.asyncWrite]
  · rw [receivedIn_callbacks, receivedIn_callbacks, s.clients_set_other _ hj]

theorem attends_writing (hrun : s.deleted = false) (hc : s.clients id = some c)
    (hlive : c.destroyed = false) (hp : c.pending = .write n) : Attends id b s := by
  have hs : s.step (.write id true) = some (s.set id (c.onWrite true)) := by
    simp only [Server.step, hrun, hc, hp, hlive]
    rfl
  refine .waits (a := .write id true) rfl hs (fun j hj => (Option.some.inj hj).symm) (fun j => ?_)
    (attends_reading hrun (s.clients_set_self id _) hlive rfl)
  rw [receivedIn_callbacks, receivedIn_callbacks]
  by_cases hj : j = id
  · rw [hj, hc, s.clients_set_self]
    simp [Client.onWrite, Client.asyncReadSome]
  · rw [s.clients_set_other _ hj]

/-- A client that is accepted was not read from yet. -/
theorem received_accept {w : Nat} {cells : Nat → Char} (ht : Tidy s)
    (hc : s.clients w = some c) (j : Nat) :
    receivedIn (callbackHistories ((s.set w c.open).newHandler cells)) j =
      receivedIn (callbackHistories s) j := by
  rw [receivedIn_callbacks, receivedIn_callbacks]
  by_cases hnew : j = s.created
  · have hself := Server.clients_newHandler_self (s.set w c.open) cells
    rw [hnew, ht.bound s.created (Nat.le_refl _),
      show s.created = (s.set w c.open).created from rfl, hself]
    rfl
  · rw [Server.clients_newHandler_other (s.set w c.open) cells hnew]
    by_cases hj : j = w
    · rw [hj, hc, s.clients_set_self]
      rfl
    · rw [s.clients_set_other _ hj]

theorem attends_of_reachable (hr : server.Reachable (fun _ a => unbroken a) s) (id : Nat)
    (b : Char) : Attends id b s := by
  -- the client that was created last is the one that waits
  refine Sender.attends_of_accepted (fun s => s.created - 1) (fun s hr hid => ?_)
    (fun s hr => ?_) hr
  · have h := unbroken_of_reachable hr
    obtain ⟨c, hc, hlive, hp | ⟨n, hp⟩⟩ := h.served id (by omega)
    · exact attends_reading h.running hc hlive hp
    · exact attends_writing h.running hc hlive hp
  · have h := unbroken_of_reachable hr
    obtain ⟨w, c, hw, hc, hs⟩ := step_accept h fun _ => '0'
    have hcreated : ((s.set w c.open).newHandler fun _ => '0').created = s.created + 1 := rfl
    obtain ⟨w', -, -, hlast, -⟩ := h.waits
    exact ⟨.accept true fun _ => '0', _, rfl, hs, rfl, received_accept (tidy_of_unbroken hr) hc,
      by rw [hcreated]; omega⟩

/-- A client that lives owes what it is writing. -/
theorem exists_owes (hr : server.Reachable (fun _ a => unbroken a) s) (id : Nat) :
    ∃ rest, owesIn (callbackHistories s) id = some rest := by
  have h := unbroken_of_reachable hr
  have ht := tidy_of_unbroken hr
  rw [owesIn_callbacks]
  cases hc : s.clients id with
  | none => exact ⟨[], rfl⟩
  | some c =>
    have hlive : c.destroyed = false := by
      obtain ⟨w, d, -, hcreated, hd, hlive⟩ := h.waits
      by_cases hid : id + 1 < s.created
      · obtain ⟨e, he, hserves⟩ := h.served id hid
        cases he.symm.trans hc
        exact hserves.1
      · have hle : id = w := by
          by_contra hne
          have hout := ht.bound id (by omega)
          cases hout.symm.trans hc
        rw [hle] at hc
        cases hd.symm.trans hc
        exact hlive
    have howes : ∃ rest, owes c.log = some rest := by
      cases (ht.sane id c hc).life with
      | new hl _ _ | reading hl _ _ | writing hl _ _ _ =>
        rw [hl]
        exact ⟨_, rfl⟩
      | gone _ _ hdead => cases hlive.symm.trans hdead
    exact howes

/-- As long as no operation fails, the server with callbacks goes on as a relay toward each
client. -/
theorem answers : Relay.Answers (sender.pieces server) (Sender.obeys fun _ a => unbroken a)
    (Relay.halfDuplex BUFLEN) (fun id s => receivedIn (callbackHistories s.core) id)
    fun id s => s.out id := by
  have hkeeps : ∀ id, Relay.Keeps server (fun _ a => unbroken a) (Relay.halfDuplex BUFLEN)
      (fun s => receivedIn (callbackHistories s) id) (sender.sent id) (sender.owes id) :=
    fun id => (keeps id).mono fun _ _ => delivers_of_unbroken
  have hann : ∀ id, Sender.Announces sender server (fun _ a => unbroken a) id :=
    fun id => (announces id).mono fun _ _ => delivers_of_unbroken
  have hattends : ∀ s id b, server.Reachable (fun _ a => unbroken a) s →
      Sender.Attends sender server (fun _ a => unbroken a)
        (fun id s => receivedIn (callbackHistories s) id) id b s :=
    fun s id b hr => attends_of_reachable hr id b
  exact Sender.answers hkeeps hann (fun s id hr => exists_owes hr id) hattends

namespace Coroutine

/-- The coroutines stand where callbacks stand that take the same completions. -/
theorem exists_callbacks {s : Server} (hr : coroutine.Reachable (fun _ a => unbroken a) s) :
    ∃ u, server.Reachable (fun _ a => unbroken a) u ∧ Twins s u := by
  have hsim := (bisimulation (q := unbroken) fun _ _ h => h).simulation
  obtain ⟨u, hu, ht, -⟩ := hsim.reachable (fun s hs => by
    obtain ⟨cells, hs⟩ := hs
    cases hs
    exact ⟨_, ⟨cells, rfl⟩, Twins.start cells cells, rfl⟩) hr
  exact ⟨u, hu, ht⟩

/-- So does the server with coroutines. -/
theorem answers : Relay.Answers (sender.pieces coroutine) (Sender.obeys fun _ a => unbroken a)
    (Relay.halfDuplex BUFLEN) (fun id s => receivedIn s.core.histories id)
    fun id s => s.out id := by
  have hkeeps : ∀ id, Relay.Keeps coroutine (fun _ a => unbroken a) (Relay.halfDuplex BUFLEN)
      (fun s => receivedIn s.histories id) (sender.sent id) (sender.owes id) :=
    fun id => (keeps id).mono fun _ _ => delivers_of_unbroken
  have hann : ∀ id, Sender.Announces sender coroutine (fun _ a => unbroken a) id :=
    fun id => (announces id).mono fun _ _ => delivers_of_unbroken
  have hserves : ∀ s id, coroutine.Reachable (fun _ a => unbroken a) s →
      ∃ rest, sender.owes id s = some rest := by
    intro s id hr
    obtain ⟨u, hu, ht⟩ := exists_callbacks hr
    have hsame : sender.owes id s = owesIn (callbackHistories u) id := by
      rw [← ht.histories_eq]
      rfl
    rw [hsame]
    exact exists_owes hu id
  have hattends : ∀ s id b, coroutine.Reachable (fun _ a => unbroken a) s →
      Sender.Attends sender coroutine (fun _ a => unbroken a)
        (fun id s => receivedIn s.histories id) id b s := by
    intro s id b hr
    obtain ⟨u, hu, ht⟩ := exists_callbacks hr
    refine Sender.Attends.of_simulation (simulation unbroken) ?_ rfl (attends_of_reachable hu id b)
      ht
    intro u s ht j
    rw [ht.histories_eq]
  exact Sender.answers hkeeps hann hserves hattends

end Coroutine

end EchoBenchmark.Boost
