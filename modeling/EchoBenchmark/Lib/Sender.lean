import EchoBenchmark.Lib.Relay
import Mathlib.Logic.Function.Basic

/-!
Writes go out piece by piece. A machine that tells of a write only when it has ended shows none of
the pieces, nor those that went out before a write failed; beside it stands what has gone out.
-/

/-- How a machine writes to its peers: what the writes sent that succeeded, what is still to be sent
to a peer that is served, and to whom the write goes that succeeds with an action. -/
structure Sender (σ α β : Type*) where
  sent : Nat → σ → List β
  owes : Nat → σ → Option (List β)
  succeeds : α → Option Nat

namespace Sender

/-- The machine, and all that has gone out to each peer. -/
structure State (σ β : Type*) where
  core : σ
  out : Nat → List β

inductive Action (α : Type*)
  | core (a : α)
  /-- The next `n` bytes of the write to a peer go out. -/
  | goes (id n : Nat)

section Defs

variable {σ α β : Type*}

/-- Bytes go out to a peer. -/
def State.send (s : State σ β) (id : Nat) (bytes : List β) : State σ β :=
  { s with out := Function.update s.out id (s.out id ++ bytes) }

@[simp] theorem State.core_send (s : State σ β) (id : Nat) (bytes : List β) :
    (s.send id bytes).core = s.core := rfl

@[simp] theorem State.out_send_self (s : State σ β) (id : Nat) (bytes : List β) :
    (s.send id bytes).out id = s.out id ++ bytes := Function.update_self _ _ _

theorem State.out_send_other (s : State σ β) {id j : Nat} (bytes : List β) (h : j ≠ id) :
    (s.send id bytes).out j = s.out j := Function.update_of_ne h _ _

/-- What of the write to a peer has not gone out. -/
def unsent (W : Sender σ α β) (s : State σ β) (id : Nat) : List β :=
  (W.sent id s.core ++ (W.owes id s.core).getD []).drop (s.out id).length

/-- A write succeeds when all of it has gone out. -/
def ready (W : Sender σ α β) (s : State σ β) (a : α) : Prop :=
  ∀ id ∈ W.succeeds a, (W.unsent s id).length = 0

instance (W : Sender σ α β) (s : State σ β) (a : α) : Decidable (W.ready s a) :=
  inferInstanceAs (Decidable (∀ id ∈ W.succeeds a, (W.unsent s id).length = 0))

def step (W : Sender σ α β) (M : Machine σ α) (s : State σ β) : Action α → Option (State σ β)
  | .core a => if W.ready s a then (M.step s.core a).map fun u => { s with core := u } else none
  | .goes id n =>
    if n ≤ (W.unsent s id).length then some (s.send id ((W.unsent s id).take n)) else none

/-- The machine whose writes go out piece by piece. -/
def pieces (W : Sender σ α β) (M : Machine σ α) : Machine (State σ β) (Action α) where
  init s := M.init s.core ∧ s.out = fun _ => []
  step := W.step M

/-- The machine keeps to its guard. -/
def obeys (p : σ → α → Prop) (s : State σ β) : Action α → Prop
  | .core a => p s.core a
  | .goes _ _ => True

end Defs

variable {σ α β : Type*} {W : Sender σ α β} {M : Machine σ α} {p : σ → α → Prop}
  {s t : State σ β} {a : Action α} {id n cap : Nat} {received : σ → List β}

/-- What a step does. -/
inductive Does (W : Sender σ α β) (M : Machine σ α) (s : State σ β) :
    Action α → State σ β → Prop
  | core {a : α} {u : σ} : W.ready s a → M.step s.core a = some u →
      Does W M s (.core a) { s with core := u }
  | goes {id n : Nat} : n ≤ (W.unsent s id).length →
      Does W M s (.goes id n) (s.send id ((W.unsent s id).take n))

theorem does_of_step (hs : (W.pieces M).step s a = some t) : Does W M s a t := by
  cases a with
  | core a =>
    simp only [pieces, step] at hs
    split at hs
    · rename_i hready
      obtain ⟨u, hu, rfl⟩ := Option.map_eq_some_iff.mp hs
      exact .core hready hu
    · cases hs
  | goes id n =>
    simp only [pieces, step] at hs
    split at hs
    · rename_i hle
      cases hs
      exact .goes hle
    · cases hs

theorem core_reachable (hr : (W.pieces M).Reachable (obeys p) s) : M.Reachable p s.core := by
  apply hr.invariant (I := fun s => M.Reachable p s.core)
  · intro s hs
    exact .start hs.1
  · intro s a t _ ih hp hs
    cases does_of_step hs with
    | core _ hu => exact ih.step hp hu
    | goes _ => exact ih

/-- What a machine sends to a peer changes only with the success of a write to it. -/
def Announces (W : Sender σ α β) (M : Machine σ α) (p : σ → α → Prop) (id : Nat) : Prop :=
  ∀ s a t, M.Reachable p s → p s a → M.step s a = some t → W.succeeds a ≠ some id →
    W.sent id t = W.sent id s

theorem Announces.mono {q : σ → α → Prop} (h : Announces W M p id) (hqp : ∀ s a, q s a → p s a) :
    Announces W M q id :=
  fun s a t hr hq => h s a t (hr.mono hqp) (hqp s a hq)

/-- All writes that succeeded have gone out, and nothing but what came in. -/
structure Between (W : Sender σ α β) (received : σ → List β) (id : Nat) (s : State σ β) : Prop where
  sent : W.sent id s.core <+: s.out id
  received : s.out id <+: received s.core

namespace Between

/-- To a peer that is served, all that came in goes out in its order. -/
theorem received_eq {rest : List β} (h : Between W received id s)
    (howes : W.owes id s.core = some rest) (heq : received s.core = W.sent id s.core ++ rest) :
    received s.core = s.out id ++ W.unsent s id := by
  obtain ⟨more, hmore⟩ := h.received
  have hall : W.sent id s.core ++ (W.owes id s.core).getD [] = s.out id ++ more := by
    rw [howes, Option.getD_some, ← heq, hmore]
  rw [unsent, hall, List.drop_left, hmore]

/-- To a peer that is not served any more, nothing goes out. -/
theorem unsent_eq_nil (h : Between W received id s) (howes : W.owes id s.core = none) :
    W.unsent s id = [] := by
  have hlen := h.sent.length_le
  rw [unsent, howes, Option.getD_none, List.append_nil, List.drop_eq_nil_of_le hlen]

end Between

section Peer

variable (hkeeps : Relay.Keeps M p (Relay.halfDuplex cap) received (W.sent id) (W.owes id))
  (hann : Announces W M p id)

include hkeeps hann in
/-- What a write sent that succeeds has gone out before. -/
theorem Between.sent_isPrefix {a : α} {u : σ} (h : Between W received id s)
    (hr : M.Reachable p s.core) (hp : p s.core a) (hready : W.ready s a)
    (hu : M.step s.core a = some u) : W.sent id u <+: s.out id := by
  by_cases hid : W.succeeds a = some id
  · have hnone : W.unsent s id = [] := List.eq_nil_of_length_eq_zero (hready id hid)
    cases hkeeps.turns s.core a u hr hp hu with
    | rests _ ho _ | stops _ ho _ | takes _ _ _ _ ho _ =>
      rw [ho]
      exact h.sent
    | @gives rest bytes howes _ ho _ | @leaves rest bytes howes _ ho _ =>
      have heq := hkeeps.received_eq hr howes
      have hall := h.received_eq howes heq
      rw [hnone, List.append_nil] at hall
      rw [ho, ← hall, heq, ← List.append_assoc]
      exact List.prefix_append _ _
  · rw [hann s.core a u hr hp hu hid]
    exact h.sent

include hkeeps hann in
theorem between_of_reachable (hr : (W.pieces M).Reachable (obeys p) s) :
    Between W received id s := by
  apply hr.invariant (I := Between W received id)
  · rintro s ⟨hinit, hout⟩
    obtain ⟨hi, ho, -⟩ := hkeeps.starts s.core hinit
    exact ⟨by rw [ho]; exact List.nil_prefix, by rw [hout]; exact List.nil_prefix⟩
  · intro s a t hr ih hp hs
    have hcore := core_reachable hr
    cases does_of_step hs with
    | @core a u hready hu =>
      refine ⟨ih.sent_isPrefix hkeeps hann hcore hp hready hu, ?_⟩
      cases hkeeps.turns s.core a u hcore hp hu with
      | rests hi _ _ | stops hi _ _ | gives _ _ hi _ _ | leaves _ _ hi _ _ =>
        rw [hi]
        exact ih.received
      | takes bytes _ _ hi _ _ =>
        rw [hi]
        exact ih.received.trans (List.prefix_append _ _)
    | @goes j n hle =>
      by_cases hj : id = j
      · subst hj
        refine ⟨?_, ?_⟩
        · rw [State.out_send_self]
          exact ih.sent.trans (List.prefix_append _ _)
        · rw [State.out_send_self, State.core_send]
          cases howes : W.owes id s.core with
          | none =>
            rw [ih.unsent_eq_nil howes, List.take_nil, List.append_nil]
            exact ih.received
          | some rest =>
            rw [ih.received_eq howes (hkeeps.received_eq hcore howes)]
            exact (List.prefix_append_right_inj _).mpr (List.take_prefix _ _)
      · refine ⟨?_, ?_⟩
        · rw [State.out_send_other _ _ hj]
          exact ih.sent
        · rw [State.out_send_other _ _ hj]
          exact ih.received

include hkeeps hann in
/-- Piece by piece, a machine with one buffer for each peer is a relay toward each of them. -/
theorem isRelay : Relay.IsRelay (W.pieces M) (obeys p) Relay.never (Relay.halfDuplex cap)
    (fun s => received s.core) (fun s => s.out id) where
  starts := by
    rintro s ⟨hinit, hout⟩
    exact ⟨(hkeeps.starts s.core hinit).1, congrFun hout id⟩
  changes s a t hr hp _ hs := by
    have hcore := core_reachable hr
    have hb := between_of_reachable hkeeps hann hr
    cases does_of_step hs with
    | @core a u hready hu =>
      cases hkeeps.turns s.core a u hcore hp hu with
      | rests hi _ _ | stops hi _ _ | gives _ _ hi _ _ | leaves _ _ hi _ _ => exact .stays hi rfl
      | @takes rest bytes howes hroom hi _ _ =>
        obtain ⟨hnone, hlen⟩ := hroom
        have heq := hkeeps.received_eq hcore howes
        rw [List.eq_nil_of_length_eq_zero hnone, List.append_nil] at heq
        have hout : received s.core = s.out id ++ [] := by
          obtain ⟨more, hmore⟩ := hb.sent
          have hle := hb.received.length_le
          have hmorelen := congrArg List.length hmore
          rw [List.length_append] at hmorelen
          rw [heq] at hle
          have hmorenil : more = [] := List.eq_nil_of_length_eq_zero (by omega)
          rw [heq, List.append_nil, ← hmore, hmorenil, List.append_nil]
        exact .receives hout ⟨rfl, hlen⟩ hi rfl
    | @goes j n hle =>
      by_cases hj : id = j
      · subst hj
        cases howes : W.owes id s.core with
        | none =>
          apply Relay.Changes.stays rfl
          rw [hb.unsent_eq_nil howes, List.take_nil, State.out_send_self, List.append_nil]
        | some rest =>
          have hall := hb.received_eq howes (hkeeps.received_eq hcore howes)
          rw [← List.take_append_drop n (W.unsent s id)] at hall
          exact .sends hall rfl (s.out_send_self _ _)
      · exact .stays rfl (s.out_send_other _ hj)
  renewed _ _ _ _ _ hn _ := hn.elim

end Peer

/-! ### Going on -/

/-- The machine comes to take in a byte from peer `id`: no other peer notices the steps before, and
of the writes only those to `id` succeed in them. -/
inductive Attends (W : Sender σ α β) (M : Machine σ α) (p : σ → α → Prop)
    (ins : Nat → σ → List β) (id : Nat) (b : β) : σ → Prop
  | takes {s t : σ} {a : α} : p s a → M.step s a = some t → W.succeeds a = none →
      ins id t = ins id s ++ [b] → (∀ j ≠ id, ins j t = ins j s) → Attends W M p ins id b s
  | waits {s t : σ} {a : α} : p s a → M.step s a = some t → (∀ j ∈ W.succeeds a, j = id) →
      (∀ j, ins j t = ins j s) → Attends W M p ins id b t → Attends W M p ins id b s

/-- A machine that reads from each peer that it has accepted comes to read from every peer, if it
can always accept one more. -/
theorem attends_of_accepted {ins : Nat → σ → List β} {b : β} {c : σ} (accepted : σ → Nat)
    (hserved : ∀ s, M.Reachable p s → id < accepted s → Attends W M p ins id b s)
    (haccepts : ∀ s, M.Reachable p s → ∃ a t, p s a ∧ M.step s a = some t ∧ W.succeeds a = none ∧
      (∀ j, ins j t = ins j s) ∧ accepted t = accepted s + 1)
    (hr : M.Reachable p c) : Attends W M p ins id b c := by
  generalize hn : id + 1 - accepted c = n
  induction n generalizing c with
  | zero => exact hserved c hr (Nat.le_of_sub_eq_zero hn)
  | succ n ih =>
    obtain ⟨a, t, hp, hs, hnone, hsame, hmore⟩ := haccepts c hr
    refine .waits hp hs (fun j hj => ?_) hsame (ih (hr.step hp hs) (by omega))
    rw [hnone] at hj
    cases hj

/-- What a machine comes to do, one comes to do that takes its steps and shows the same. -/
theorem Attends.of_simulation {τ : Type*} {N : Machine τ α} {q : τ → α → Prop} {R : σ → τ → Prop}
    {U : Sender τ α β} {ins : Nat → σ → List β} {ins' : Nat → τ → List β} {b : β} {c : σ} {d : τ}
    (hsim : Machine.Simulation M p N q R) (hobs : ∀ c d, R c d → ∀ j, ins j c = ins' j d)
    (hsucceeds : U.succeeds = W.succeeds) (h : Attends W M p ins id b c) (hR : R c d) :
    Attends U N q ins' id b d := by
  induction h generalizing d with
  | takes hp hs hnone htaken hothers =>
    obtain ⟨hq, e, he, hR'⟩ := hsim.step hR hp hs
    refine .takes hq he (by rw [hsucceeds]; exact hnone) ?_ fun j hj => ?_
    · rw [← hobs _ _ hR', ← hobs _ _ hR]
      exact htaken
    · rw [← hobs _ _ hR', ← hobs _ _ hR]
      exact hothers j hj
  | waits hp hs hown hsame _ ih =>
    obtain ⟨hq, e, he, hR'⟩ := hsim.step hR hp hs
    refine .waits hq he (by rw [hsucceeds]; exact hown) (fun j => ?_) (ih hR')
    rw [← hobs _ _ hR', ← hobs _ _ hR]
    exact hsame j

section Answers

variable {ins : Nat → σ → List β} {b : β}
  (hkeeps : ∀ id, Relay.Keeps M p (Relay.halfDuplex cap) (ins id) (W.sent id) (W.owes id))
  (hann : ∀ id, Announces W M p id)

include hkeeps hann in
/-- When all that came in has gone out, a write may succeed. -/
theorem unsent_eq_nil (hr : (W.pieces M).Reachable (obeys p) s)
    (hall : ins id s.core = s.out id) : W.unsent s id = [] := by
  have hb := between_of_reachable (hkeeps id) (hann id) hr
  cases howes : W.owes id s.core with
  | none => exact hb.unsent_eq_nil howes
  | some rest =>
    have heq := hb.received_eq howes ((hkeeps id).received_eq (core_reachable hr) howes)
    rw [hall] at heq
    exact List.self_eq_append_right.mp heq

include hkeeps hann in
/-- What the machine does beside its writes it also does when these go out piece by piece. -/
theorem exists_taken {c : σ} (ha : Attends W M p ins id b c)
    (hr : (W.pieces M).Reachable (obeys p) s) (hc : s.core = c)
    (hall : ins id s.core = s.out id) :
    ∃ t, (W.pieces M).Steps (obeys p) s t ∧ t.out = s.out ∧
      ins id t.core = ins id s.core ++ [b] ∧ ∀ j ≠ id, ins j t.core = ins j s.core := by
  induction ha generalizing s with
  | @takes c u a hp hs hnone htaken hothers =>
    subst hc
    have hready : W.ready s a := by
      intro j hj
      rw [hnone] at hj
      cases hj
    have hstep : (W.pieces M).step s (.core a) = some { s with core := u } := by
      simp only [pieces, step, if_pos hready, hs, Option.map_some]
    exact ⟨_, Machine.Steps.refl.tail (a := .core a) hp hstep, rfl, htaken, hothers⟩
  | @waits c u a hp hs hown hsame _ ih =>
    subst hc
    have hready : W.ready s a := by
      intro j hj
      rw [hown j hj, unsent_eq_nil hkeeps hann hr hall]
      rfl
    have hstep : (W.pieces M).step s (.core a) = some { s with core := u } := by
      simp only [pieces, step, if_pos hready, hs, Option.map_some]
    have hr' := Machine.Reachable.step (p := obeys p) (a := .core a) hr hp hstep
    obtain ⟨t, hst, hout, htaken, hothers⟩ := ih hr' rfl ((hsame id).trans hall)
    refine ⟨t, .head (a := .core a) hp hstep hst, hout, htaken.trans ?_, fun j hj => ?_⟩
    · rw [hsame id]
    · exact (hothers j hj).trans (hsame j)

include hkeeps hann in
/-- A machine that serves all its peers and comes to read from each of them goes on as a relay
toward each, piece by piece. -/
theorem answers (hserves : ∀ s id, M.Reachable p s → ∃ rest, W.owes id s = some rest)
    (hattends : ∀ s id b, M.Reachable p s → Attends W M p ins id b s) :
    Relay.Answers (W.pieces M) (obeys p) (Relay.halfDuplex cap) (fun id s => ins id s.core)
      fun id s => s.out id where
  relays id := isRelay (hkeeps id) (hann id)
  receives s id b hr hroom := by
    have hback := (between_of_reachable (hkeeps id) (hann id) hr).received
    have hall : ins id s.core = s.out id := by
      have hle := hback.length_le
      have hnone : (ins id s.core).length - (s.out id).length = 0 := hroom.1
      exact (hback.eq_of_length (by omega)).symm
    obtain ⟨t, hst, hout, htaken, hothers⟩ :=
      exists_taken hkeeps hann (hattends s.core id b (core_reachable hr)) hr rfl hall
    exact ⟨t, hst, htaken, congrFun hout id, fun j hj => ⟨hothers j hj, congrFun hout j⟩⟩
  sends s id n hr hle := by
    obtain ⟨rest, howes⟩ := hserves s.core id (core_reachable hr)
    have heq := (between_of_reachable (hkeeps id) (hann id) hr).received_eq howes
      ((hkeeps id).received_eq (core_reachable hr) howes)
    have hcan : n ≤ (W.unsent s id).length := by
      have hlen := congrArg List.length heq
      rw [List.length_append] at hlen
      omega
    have hstep : (W.pieces M).step s (.goes id n) = some (s.send id ((W.unsent s id).take n)) :=
      if_pos hcan
    refine ⟨_, Machine.Steps.refl.tail (a := .goes id n) trivial hstep, rfl, ?_, ?_⟩
    · rw [State.out_send_self, List.length_append, List.length_take, Nat.min_eq_left hcan]
    · exact fun j hj => ⟨rfl, State.out_send_other _ _ hj⟩

end Answers

end Sender
