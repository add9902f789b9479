import EchoBenchmark.Lib.Bisimulation
import Mathlib.Data.List.Basic
import Mathlib.Logic.Function.Basic
import Mathlib.Tactic.Common

/-!
A relay sends a stream back to where it comes from. What it may take in depends on what it still
owes; a machine that shows the two streams is a relay when each of its steps changes them as a step
of a relay does, but for those with which it begins anew.
-/

/-- What came in and what was sent back, which is a beginning of it. -/
structure Relay (β : Type*) where
  received : List β
  sent : List β
  isPrefix : sent <+: received

namespace Relay

variable {β : Type*} {r : Relay β} {rest : List β} {cap : Nat}

/-- What came in and was not sent back yet. -/
def owed (r : Relay β) : List β := r.received.drop r.sent.length

theorem sent_append_owed (r : Relay β) : r.sent ++ r.owed = r.received := by
  obtain ⟨owed, ho⟩ := r.isPrefix
  rw [Relay.owed, ← ho, List.drop_left]

theorem owed_eq (h : r.received = r.sent ++ rest) : r.owed = rest := by
  rw [owed, h, List.drop_left]

theorem length_owed (r : Relay β) : r.owed.length = r.received.length - r.sent.length :=
  List.length_drop

/-- A relay that was not used yet. -/
def new : Relay β := ⟨[], [], List.prefix_refl _⟩

def receive (r : Relay β) (bytes : List β) : Relay β where
  received := r.received ++ bytes
  sent := r.sent
  isPrefix := r.isPrefix.trans (List.prefix_append _ _)

def send (r : Relay β) (n : Nat) : Relay β where
  received := r.received
  sent := r.sent ++ r.owed.take n
  isPrefix := by
    obtain ⟨rest, hr⟩ := List.take_prefix n r.owed
    exact ⟨rest, by rw [List.append_assoc, hr, sent_append_owed]⟩

/-- How much may come in: the arguments are the number of places owed and that of what comes. -/
abbrev Room := Nat → Nat → Prop

/-- A relay with one buffer, which it fills only when all of it was sent. -/
def halfDuplex (cap : Nat) : Room := fun owed n => owed = 0 ∧ n ≤ cap

/-- A relay that takes in whatever comes. -/
def eager : Room := fun _ _ => True

instance : DecidableRel (halfDuplex cap) := fun owed n =>
  inferInstanceAs (Decidable (owed = 0 ∧ n ≤ cap))

instance : DecidableRel eager := fun _ _ => isTrue trivial

inductive Action (β : Type*)
  | receive (bytes : List β)
  | send (n : Nat)

def step (room : Room) [DecidableRel room] (r : Relay β) : Action β → Option (Relay β)
  | .receive bytes =>
    if room r.owed.length bytes.length then some (r.receive bytes) else none
  | .send n => if n ≤ r.owed.length then some (r.send n) else none

end Relay

/-- The relay that takes in what there is room for. -/
def relay (β : Type*) (room : Relay.Room) [DecidableRel room] :
    Machine (Relay β) (Relay.Action β) where
  init r := r = Relay.new
  step := Relay.step room

namespace Relay

variable {σ α β : Type*} {room : Room} [DecidableRel room] {M : Machine σ α}
  {p renews : σ → α → Prop} {received sent : σ → List β} {s t : σ} {r : Relay β} {cap : Nat}
  {ins outs ins' outs' : List β}

/-! ### What a relay with one buffer never does -/

theorem length_owed_receive {bytes : List β} :
    (r.receive bytes).owed.length = r.owed.length + bytes.length := by
  have hle := r.isPrefix.length_le
  simp only [length_owed, receive, List.length_append]
  omega

theorem length_owed_send {n : Nat} : (r.send n).owed.length = r.owed.length - n := by
  simp only [length_owed, send, List.length_append, List.length_take]
  omega

/-- It never owes more than its buffer holds. -/
theorem owed_le_of_reachable (hr : (relay β (halfDuplex cap)).Reachable Machine.free r) :
    r.owed.length ≤ cap := by
  apply hr.invariant (I := fun r : Relay β => r.owed.length ≤ cap)
  · rintro r rfl
    exact Nat.zero_le _
  · intro r a r' _ hle _ hs
    cases a with
    | receive bytes =>
      simp only [relay, step] at hs
      split at hs
      · rename_i hroom
        cases hs
        obtain ⟨hnone, hfits⟩ := hroom
        rw [length_owed_receive]
        omega
      · cases hs
    | send n =>
      simp only [relay, step] at hs
      split at hs
      · cases hs
        rw [length_owed_send]
        omega
      · cases hs

/-! ### Machines that are relays -/

/-- How a relay changes what came in and what was sent. -/
inductive Changes (room : Room) (ins outs ins' outs' : List β) : Prop
  | stays : ins' = ins → outs' = outs → Changes room ins outs ins' outs'
  | receives {owed bytes : List β} : ins = outs ++ owed → room owed.length bytes.length →
      ins' = ins ++ bytes → outs' = outs → Changes room ins outs ins' outs'
  | sends {bytes owed : List β} : ins = outs ++ (bytes ++ owed) → ins' = ins →
      outs' = outs ++ bytes → Changes room ins outs ins' outs'

omit [DecidableRel room] in
/-- The streams of a relay only grow. -/
theorem Changes.grows (hc : Changes room ins outs ins' outs') : ins <+: ins' ∧ outs <+: outs' := by
  cases hc with
  | stays hi ho =>
    rw [hi, ho]
    exact ⟨List.prefix_refl _, List.prefix_refl _⟩
  | receives _ _ hi ho =>
    rw [hi, ho]
    exact ⟨List.prefix_append _ _, List.prefix_refl _⟩
  | sends _ hi ho =>
    rw [hi, ho]
    exact ⟨List.prefix_refl _, List.prefix_append _ _⟩

/-- The machine never begins anew. -/
def never : σ → α → Prop := fun _ _ => False

/-- A machine each step of whose guarded runs is one of a relay or leaves the streams alone, but for
those that begin anew. -/
structure IsRelay (M : Machine σ α) (p renews : σ → α → Prop) (room : Room)
    (received sent : σ → List β) : Prop where
  starts : ∀ s, M.init s → received s = [] ∧ sent s = []
  changes : ∀ s a t, M.Reachable p s → p s a → ¬ renews s a → M.step s a = some t →
    Changes room (received s) (sent s) (received t) (sent t)
  renewed : ∀ s a t, M.Reachable p s → p s a → renews s a → M.step s a = some t →
    received t = [] ∧ sent t = []

/-- Every reachable state of the machine shows the streams of a relay, and as long as it does not
begin anew it goes on as that relay. -/
def Refines (M : Machine σ α) (p renews : σ → α → Prop) (room : Room) [DecidableRel room]
    (received sent : σ → List β) : Prop :=
  ∀ s t, M.Reachable p s → M.Steps (fun s a => p s a ∧ ¬ renews s a) s t →
    ∃ r r' : Relay β, (relay β room).Reachable Machine.free r ∧
      (relay β room).Steps Machine.free r r' ∧ r.received = received s ∧ r.sent = sent s ∧
      r'.received = received t ∧ r'.sent = sent t

/-- A change that a relay makes is one that the relay can make. -/
theorem steps_of_changes (hc : Changes room r.received r.sent ins' outs') :
    ∃ r' : Relay β, (relay β room).Steps Machine.free r r' ∧ r'.received = ins' ∧
      r'.sent = outs' := by
  cases hc with
  | stays hi ho => exact ⟨r, .refl, hi.symm, ho.symm⟩
  | @receives owed bytes hr hroom hi ho =>
    refine ⟨r.receive bytes, Machine.Steps.refl.tail (a := .receive bytes) trivial ?_, hi.symm,
      ho.symm⟩
    simp only [relay, step, owed_eq hr, if_pos hroom]
  | @sends bytes owed hr hi ho =>
    have howed : r.owed = bytes ++ owed := owed_eq hr
    refine ⟨r.send bytes.length, Machine.Steps.refl.tail (a := .send bytes.length) trivial ?_,
      hi.symm, ?_⟩
    · simp only [relay, step, howed, List.length_append]
      exact if_pos (Nat.le_add_right _ _)
    · have hsent : (r.send bytes.length).sent = r.sent ++ r.owed.take bytes.length := rfl
      rw [ho, hsent, howed, List.take_left]

namespace IsRelay

theorem refines (h : IsRelay M p renews room received sent) :
    Refines M p renews room received sent := by
  intro s t hr hst
  have hstep : ∀ s a t, M.Reachable p s → p s a → ¬ renews s a → M.step s a = some t →
      ∀ r : Relay β, r.received = received s → r.sent = sent s → ∃ r' : Relay β,
      (relay β room).Steps Machine.free r r' ∧ r'.received = received t ∧ r'.sent = sent t := by
    intro s a t hr hp hn hs r hi ho
    apply steps_of_changes
    rw [hi, ho]
    exact h.changes s a t hr hp hn hs
  obtain ⟨r, hreach, hi, ho⟩ : ∃ r : Relay β, (relay β room).Reachable Machine.free r ∧
      r.received = received s ∧ r.sent = sent s := by
    apply hr.invariant (I := fun s => ∃ r : Relay β, (relay β room).Reachable Machine.free r ∧
      r.received = received s ∧ r.sent = sent s)
    · intro s₀ hs₀
      obtain ⟨hi, ho⟩ := h.starts s₀ hs₀
      exact ⟨new, .start rfl, hi.symm, ho.symm⟩
    · intro s a t hr ih hp hs
      by_cases hn : renews s a
      · obtain ⟨hi, ho⟩ := h.renewed s a t hr hp hn hs
        exact ⟨new, .start rfl, hi.symm, ho.symm⟩
      · obtain ⟨r, hreach, hi, ho⟩ := ih
        obtain ⟨r', hsteps, hi', ho'⟩ := hstep s a t hr hp hn hs r hi ho
        exact ⟨r', hreach.steps hsteps, hi', ho'⟩
  obtain ⟨-, r', hsteps, hi', ho'⟩ : M.Reachable p t ∧ ∃ r' : Relay β,
      (relay β room).Steps Machine.free r r' ∧ r'.received = received t ∧ r'.sent = sent t := by
    apply hst.invariant (I := fun t => M.Reachable p t ∧ ∃ r' : Relay β,
      (relay β room).Steps Machine.free r r' ∧ r'.received = received t ∧ r'.sent = sent t) ?_
      ⟨hr, r, .refl, hi, ho⟩
    rintro s a t ⟨hr, r₁, hsteps, hi₁, ho₁⟩ ⟨hp, hn⟩ hs
    obtain ⟨r₂, hsteps', hi₂, ho₂⟩ := hstep s a t hr hp hn hs r₁ hi₁ ho₁
    exact ⟨hr.step hp hs, r₂, hsteps.trans hsteps', hi₂, ho₂⟩
  exact ⟨r, r', hreach, hsteps, hi, ho, hi', ho'⟩

omit [DecidableRel room] in
/-- What is sent is a beginning of what came in. -/
theorem sent_isPrefix (h : IsRelay M p renews room received sent) (hr : M.Reachable p s) :
    sent s <+: received s := by
  classical
  obtain ⟨r, -, -, -, hi, ho, -, -⟩ := h.refines s s hr .refl
  rw [← hi, ← ho]
  exact r.isPrefix

omit [DecidableRel room] in
/-- A continuation in which the machine does not begin anew only adds to the streams. -/
theorem grows (h : IsRelay M p never room received sent) (hr : M.Reachable p s)
    (hst : M.Steps p s t) : received s <+: received t ∧ sent s <+: sent t := by
  apply hr.steps_invariant (I := fun t => received s <+: received t ∧ sent s <+: sent t) ?_ hst
    ⟨List.prefix_refl _, List.prefix_refl _⟩
  intro u a v hu ih hp hs
  obtain ⟨hi, ho⟩ := (h.changes u a v hu hp (fun hn => hn) hs).grows
  exact ⟨ih.1.trans hi, ih.2.trans ho⟩

omit [DecidableRel room] in
/-- A machine that is a relay under one guard is one under a stronger guard. -/
theorem mono {q : σ → α → Prop} (h : IsRelay M p renews room received sent)
    (hqp : ∀ s a, q s a → p s a) : IsRelay M q renews room received sent where
  starts := h.starts
  changes s a t hr hq := h.changes s a t (hr.mono hqp) (hqp s a hq)
  renewed s a t hr hq := h.renewed s a t (hr.mono hqp) (hqp s a hq)

/-- With one buffer, never more than its size is on the way. -/
theorem length_received_le (h : IsRelay M p renews (halfDuplex cap) received sent)
    (hr : M.Reachable p s) : (received s).length ≤ (sent s).length + cap := by
  obtain ⟨r, -, hreach, -, hi, ho, -, -⟩ := h.refines s s hr .refl
  have hle := owed_le_of_reachable hreach
  rw [length_owed, hi, ho] at hle
  omega

end IsRelay

/-! ### Machines that keep what they owe -/

/-- One turn of a machine that keeps what it owes beside the two streams, as long as it serves. -/
inductive Turn (room : Room) (ins outs ins' outs' : List β) (owed owed' : Option (List β)) : Prop
  | rests : ins' = ins → outs' = outs → owed' = owed → Turn room ins outs ins' outs' owed owed'
  | takes {rest : List β} (bytes : List β) : owed = some rest → room rest.length bytes.length →
      ins' = ins ++ bytes → outs' = outs → owed' = some (rest ++ bytes) →
      Turn room ins outs ins' outs' owed owed'
  | gives {rest : List β} (bytes : List β) : owed = some (bytes ++ rest) → ins' = ins →
      outs' = outs ++ bytes → owed' = some rest → Turn room ins outs ins' outs' owed owed'
  | leaves {rest : List β} (bytes : List β) : owed = some (bytes ++ rest) → ins' = ins →
      outs' = outs ++ bytes → owed' = none → Turn room ins outs ins' outs' owed owed'
  | stops : ins' = ins → outs' = outs → owed' = none → Turn room ins outs ins' outs' owed owed'

/-- A machine in which something keeps what is owed. -/
structure Keeps (M : Machine σ α) (p : σ → α → Prop) (room : Room) (received sent : σ → List β)
    (owes : σ → Option (List β)) : Prop where
  starts : ∀ s, M.init s → received s = [] ∧ sent s = [] ∧ ∀ rest, owes s = some rest → rest = []
  turns : ∀ s a t, M.Reachable p s → p s a → M.step s a = some t →
    Turn room (received s) (sent s) (received t) (sent t) (owes s) (owes t)

namespace Keeps

variable {owes : σ → Option (List β)} {rest : List β}

omit [DecidableRel room] in
theorem received_eq (h : Keeps M p room received sent owes) (hr : M.Reachable p s)
    (howes : owes s = some rest) : received s = sent s ++ rest := by
  revert rest
  suffices hall : ∀ rest, owes s = some rest → received s = sent s ++ rest from @hall
  apply hr.invariant (I := fun s => ∀ rest, owes s = some rest → received s = sent s ++ rest)
  · intro s hs rest howes
    obtain ⟨hi, ho, hnone⟩ := h.starts s hs
    rw [hi, ho, hnone rest howes]
    rfl
  · intro s a t hr heq hp hs rest howes
    cases h.turns s a t hr hp hs with
    | rests hi ho hrest =>
      rw [hi, ho]
      exact heq rest (hrest.symm.trans howes)
    | takes bytes howed _ hi ho hrest =>
      cases hrest.symm.trans howes
      rw [hi, ho, heq _ howed, List.append_assoc]
    | gives bytes howed hi ho hrest =>
      cases hrest.symm.trans howes
      rw [hi, ho, heq _ howed, List.append_assoc]
    | leaves _ _ _ _ hrest | stops _ _ hrest => cases hrest.symm.trans howes

omit [DecidableRel room] in
theorem isRelay (h : Keeps M p room received sent owes) :
    IsRelay M p never room received sent where
  starts s hs := ⟨(h.starts s hs).1, (h.starts s hs).2.1⟩
  changes s a t hr hp _ hs := by
    cases h.turns s a t hr hp hs with
    | rests hi ho _ => exact .stays hi ho
    | takes bytes howed hroom hi ho _ => exact .receives (h.received_eq hr howed) hroom hi ho
    | gives bytes howed hi ho _ | leaves bytes howed hi ho _ =>
      exact .sends (h.received_eq hr howed) hi ho
    | stops hi ho _ => exact .stays hi ho
  renewed _ _ _ _ _ hn _ := hn.elim

omit [DecidableRel room] in
theorem mono {q : σ → α → Prop} (h : Keeps M p room received sent owes)
    (hqp : ∀ s a, q s a → p s a) : Keeps M q room received sent owes where
  starts := h.starts
  turns s a t hr hq := h.turns s a t (hr.mono hqp) (hqp s a hq)

omit [DecidableRel room] in
/-- A machine whose steps another one makes too keeps what the other keeps, if it shows the same. -/
theorem of_simulation {τ : Type*} {N : Machine τ α} {q : τ → α → Prop} {R : σ → τ → Prop}
    {received' sent' : τ → List β} {owes' : τ → Option (List β)}
    (h : Keeps N q room received' sent' owes') (hsim : Machine.Simulation M p N q R)
    (hinit : ∀ s, M.init s → ∃ u, N.init u ∧ R s u)
    (hobs : ∀ s u, R s u → received s = received' u ∧ sent s = sent' u ∧ owes s = owes' u) :
    Keeps M p room received sent owes where
  starts s hs := by
    obtain ⟨u, hu, hR⟩ := hinit s hs
    obtain ⟨hi, ho, hrest⟩ := hobs s u hR
    rw [hi, ho, hrest]
    exact h.starts u hu
  turns s a t hr hp hs := by
    obtain ⟨u, hu, hR⟩ := hsim.reachable hinit hr
    obtain ⟨hq, v, hv, hR'⟩ := hsim.step hR hp hs
    obtain ⟨hi, ho, hrest⟩ := hobs s u hR
    obtain ⟨hi', ho', hrest'⟩ := hobs t v hR'
    rw [hi, ho, hrest, hi', ho', hrest']
    exact h.turns u a v hu hq hv

omit [DecidableRel room] in
/-- So does a machine with more detail. -/
theorem of_abstraction {τ ε : Type*} {N : Machine τ ε} {q : τ → ε → Prop} {f : σ → τ}
    {received sent : τ → List β} {owes : τ → Option (List β)}
    (h : Keeps N q room received sent owes) (ha : Machine.Abstraction M p N q f) :
    Keeps M p room (fun s => received (f s)) (fun s => sent (f s)) (fun s => owes (f s)) where
  starts s hs := h.starts (f s) (ha.starts s hs)
  turns s a t hr hp hs := by
    rcases ha.steps s a t hr hp hs with heq | ⟨b, hb, hstep⟩
    · rw [heq]
      exact .rests rfl rfl rfl
    · exact h.turns (f s) b (f t) (ha.reachable hr) hb hstep

end Keeps

/-! ### Machines that serve many peers -/

section Peers

variable {ι κ : Type*} {ins outs : ι → σ → List β} {id : ι}

/-- Each of the first `n` peers has an entry in the table, which meets `P`. -/
def Served {τ : Type*} (P : τ → Prop) (f : Nat → Option τ) (n : Nat) : Prop :=
  ∀ c < n, ∃ t, f c = some t ∧ P t

section Served

variable {τ : Type*} {P : τ → Prop} {f : Nat → Option τ} {n c : Nat} {t : τ}

theorem Served.zero : Served P f 0 := fun c hc => (Nat.not_lt_zero c hc).elim

/-- One peer goes on. -/
theorem Served.update (h : Served P f n) (ht : P t) :
    Served P (Function.update f c (some t)) n := by
  intro d hd
  by_cases hdc : d = c
  · rw [hdc, Function.update_self]
    exact ⟨t, rfl, ht⟩
  · rw [Function.update_of_ne hdc]
    exact h d hd

/-- The next peer comes. -/
theorem Served.accept (h : Served P f n) (ht : P t) :
    Served P (Function.update f n (some t)) (n + 1) := by
  intro d hd
  by_cases hnew : d = n
  · rw [hnew, Function.update_self]
    exact ⟨t, rfl, ht⟩
  · rw [Function.update_of_ne hnew]
    exact h d (by omega)

end Served

/-- The peers beside `id` notice nothing between the two states. -/
def Aside (ins outs : ι → σ → List β) (id : ι) (s t : σ) : Prop :=
  ∀ j ≠ id, ins j t = ins j s ∧ outs j t = outs j s

/-- Toward each peer the machine is a relay, and one that can go on: it comes to take in the next
byte when there is room for it, and to send of what it owes, while nothing moves for the others. -/
structure Answers (M : Machine σ α) (p : σ → α → Prop) (room : Room) (ins outs : ι → σ → List β) :
    Prop where
  relays : ∀ id, IsRelay M p never room (ins id) (outs id)
  receives : ∀ s id b, M.Reachable p s → room ((ins id s).length - (outs id s).length) 1 →
    ∃ t, M.Steps p s t ∧ ins id t = ins id s ++ [b] ∧ outs id t = outs id s ∧
      Aside ins outs id s t
  sends : ∀ s id n, M.Reachable p s → (outs id s).length + n ≤ (ins id s).length →
    ∃ t, M.Steps p s t ∧ ins id t = ins id s ∧ (outs id t).length = (outs id s).length + n ∧
      Aside ins outs id s t

omit [DecidableRel room] in
/-- So it is toward some of its peers, under names of their own. -/
theorem Answers.comp (h : Answers M p room ins outs) {f : κ → ι} (hf : Function.Injective f) :
    Answers M p room (fun k => ins (f k)) fun k => outs (f k) where
  relays k := h.relays (f k)
  receives s k b hr hroom := by
    obtain ⟨t, hst, hi, ho, haside⟩ := h.receives s (f k) b hr hroom
    exact ⟨t, hst, hi, ho, fun j hj => haside (f j) fun he => hj (hf he)⟩
  sends s k n hr hle := by
    obtain ⟨t, hst, hi, ho, haside⟩ := h.sends s (f k) n hr hle
    exact ⟨t, hst, hi, ho, fun j hj => haside (f j) fun he => hj (hf he)⟩

end Peers

end Relay
