import EchoBenchmark.Lib.Bisimulation

/-!
A machine that serves many clients, a run in which an operation of one of them fails, and the run in
which that client closes instead.
-/

/-- `fails s a` is the client whose operation fails in a step, `closing` what happens instead when
that client closes, and `others c` what there is apart from client `c`. -/
structure Service (σ α ι ω : Type*) extends Machine σ α where
  fails : σ → α → Option ι
  closing : α → List α
  serving : σ → Prop
  others : ι → σ → ω

namespace Service

variable {σ α ι ω : Type*} {V : Service σ α ι ω} {s s' t : σ} {a : α} {as : List α} {c : ι}

/-- The machine still serves, and from here on the others are served as if client `c` had closed. -/
def Contained (V : Service σ α ι ω) (s : σ) (a : α) (c : ι) : Prop :=
  ∀ s' t, V.step s a = some s' → V.exec Machine.free s (V.closing a) = some t →
    V.serving s' ∧ ∀ bs, (V.exec Machine.free s' bs).map (V.others c) =
      (V.exec Machine.free t bs).map (V.others c)

/-- Every failure of the run stays with its client. -/
def Isolated (V : Service σ α ι ω) (s : σ) (as : List α) : Prop :=
  ∀ pre a post u c, as = pre ++ a :: post → V.exec Machine.free s pre = some u →
    V.fails u a = some c → V.Contained u a c

/-- No operation of the run fails. -/
def Faultless (V : Service σ α ι ω) (s : σ) (as : List α) : Prop :=
  ∀ pre a post u, as = pre ++ a :: post → V.exec Machine.free s pre = some u → V.fails u a = none

/-- Where every failure ends the service, and the client could have closed, only the runs without a
failure are isolated. -/
theorem isolated_iff_faultless
    (hstop : ∀ s a c s', V.fails s a = some c → V.step s a = some s' → ¬ V.serving s')
    (hclose : ∀ s a c s', V.fails s a = some c → V.step s a = some s' →
      ∃ t, V.exec Machine.free s (V.closing a) = some t)
    (h : V.exec Machine.free s as = some t) : V.Isolated s as ↔ V.Faultless s as := by
  constructor
  · intro hiso pre a post u has hu
    cases hf : V.fails u a with
    | none => rfl
    | some c =>
      subst has
      obtain ⟨v, hv, -⟩ := Machine.exists_step_of_exec h hu
      obtain ⟨w, hw⟩ := hclose u a c v hf hv
      exact (hstop u a c v hf hv (hiso pre a post u c rfl hu hf v w hv hw).1).elim
  · intro hno pre a post u c has hu hf
    rw [hno pre a post u has hu] at hf
    cases hf

/-- A run of operations that cannot fail. -/
theorem faultless_of_forall (h : ∀ a ∈ as, ∀ u, V.fails u a = none) : V.Faultless s as := by
  intro pre a post u has _
  exact h a (by rw [has]; simp) u

/-- A failure is contained if it leaves the machine as a close of the client does, but for what only
that client sees. -/
theorem contained_of_bisimulation {R : σ → σ → Prop}
    (hb : Machine.Bisimulation V.toMachine Machine.free V.toMachine Machine.free R)
    (hobs : ∀ s u, R s u → V.others c s = V.others c u)
    (hR : ∀ s' t, V.step s a = some s' → V.exec Machine.free s (V.closing a) = some t →
      V.serving s' ∧ R s' t) : V.Contained s a c := by
  intro s' t hs ht
  obtain ⟨hserving, hrel⟩ := hR s' t hs ht
  exact ⟨hserving, fun bs => hb.map_exec hobs hrel bs⟩

/-- Where the harmless failures are contained and each other one ends the service, a run is isolated
if and only if its failures are harmless. -/
theorem isolated_iff_harmless {harmless : σ → α → Prop}
    (hcontained : ∀ u a c, V.Steps Machine.free s u → V.fails u a = some c → harmless u a →
      V.Contained u a c)
    (hstop : ∀ s a c s', V.fails s a = some c → ¬ harmless s a → V.step s a = some s' →
      ¬ V.serving s')
    (hclose : ∀ s a c s', V.fails s a = some c → V.step s a = some s' →
      ∃ t, V.exec Machine.free s (V.closing a) = some t)
    (h : V.exec Machine.free s as = some t) :
    V.Isolated s as ↔ ∀ pre a post u c, as = pre ++ a :: post →
      V.exec Machine.free s pre = some u → V.fails u a = some c → harmless u a := by
  constructor
  · intro hiso pre a post u c has hu hf
    by_contra hno
    subst has
    obtain ⟨v, hv, -⟩ := Machine.exists_step_of_exec h hu
    obtain ⟨w, hw⟩ := hclose u a c v hf hv
    exact hstop u a c v hf hno hv (hiso pre a post u c rfl hu hf v w hv hw).1
  · intro hall pre a post u c has hu hf
    exact hcontained u a c (Machine.exec_steps hu) hf (hall pre a post u c has hu hf)

end Service
