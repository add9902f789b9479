import EchoBenchmark.Proactor.Acceptors

/-!
The descriptors of an Acceptor. A `listen` that fails after `socket` leaves its descriptor open and
in the handle, and one that fails at the registration leaves no error with the Acceptor.
-/

namespace EchoBenchmark.Proactor

variable {κ : Type} {s s' : State κ} {act : Action κ} {a : AccId} {log log' : List Event}

/-- The descriptors that `socket` answered to the Acceptor and that nobody has closed. -/
def ownedFds (a : AccId) : List Event → List Int
  | [] => []
  | .opened b call fd :: log =>
    if b = a ∧ call = .createSocket then fd :: ownedFds a log else ownedFds a log
  | .closedFd fd :: log => (ownedFds a log).filter (· ≠ fd)
  | _ :: log => ownedFds a log

@[simp] theorem ownedFds_opened {fd : Int} :
    ownedFds a (.opened a .createSocket fd :: log) = fd :: ownedFds a log :=
  if_pos ⟨rfl, rfl⟩

theorem ownedFds_cons {e : Event} (he : ∀ fd, e ≠ .opened a .createSocket fd) :
    (ownedFds a (e :: log)).Sublist (ownedFds a log) := by
  cases e with
  | opened b call fd =>
    have hne : ¬ (b = a ∧ call = .createSocket) := by
      rintro ⟨rfl, rfl⟩
      exact he fd rfl
    have heq : ownedFds a (.opened b call fd :: log) = ownedFds a log := if_neg hne
    rw [heq]
  | closedFd fd => exact List.filter_sublist
  | _ => exact List.Sublist.refl _

theorem ownedFds_aside (ha : AddsAside a log log') :
    (ownedFds a log').Sublist (ownedFds a log) := by
  refine ha.rule (R := fun l => (ownedFds a l).Sublist (ownedFds a log)) (List.Sublist.refl _) ?_
  intro e l he hl
  refine (ownedFds_cons ?_).trans hl
  rintro fd rfl
  exact he rfl

namespace State

/-- Every step that can fail does, or the one before a descriptor exists does and says why. -/
def listens (s : State κ) (r : ListenResult) : Prop :=
  match r.socket, r.nonblock with
  | .error errno, _ => errno ≠ 0
  | .ok fd, .ok => fd ≠ INVALID_SOCKET ∧ r.setsockopt = 0 ∧ r.bind = 0 ∧ r.listen = 0 ∧
    s.epollAdd fd r.epollCtl = 0
  | .ok _, _ => False

instance (r : ListenResult) : Decidable (s.listens r) := by
  unfold listens
  split <;> infer_instance

/-- If `listen` returns false, no descriptor of it stays open, the handle is `INVALID_SOCKET` and
the error of the Acceptor says that something failed. -/
def failsClean (s : State κ) (a : AccId) (cb : κ) (r : ListenResult) : Prop :=
  (s.listen a cb r).2 = false →
    ownedFds a (s.listen a cb r).1.heap.log = ownedFds a s.heap.log ∧
    ((s.listen a cb r).1.acceptors a).soc = INVALID_SOCKET ∧
    ((s.listen a cb r).1.acceptors a).err.code ≠ 0

variable {cb : κ} {r : ListenResult} {h : Handler} {acceptor : Bool} {ctl fd : Int}

/-! ### The outcomes of `listen` -/

/-- `_listen` after `socket` answered: the descriptor is in the handle, whatever follows. -/
theorem listenSocket_ok (hr : r.socket = .ok fd) : ∃ c,
    (s.listenSocket a r).1 = (s.emit (.opened a .createSocket fd)).setAcceptor a c ∧
    c.soc = fd ∧ c.live = (s.acceptors a).live := by
  unfold listenSocket
  rw [hr]
  dsimp only
  split
  · exact ⟨_, rfl, rfl, rfl⟩
  · split
    · exact ⟨_, rfl, rfl, rfl⟩
    · split
      · exact ⟨_, rfl, rfl, rfl⟩
      · split <;> exact ⟨_, rfl, rfl, rfl⟩

theorem listenSocket_succeeds : (s.listenSocket a r).2 = true ↔ ∃ fd, r.socket = .ok fd ∧
    fd ≠ -1 ∧ r.setsockopt = 0 ∧ r.nonblock = .ok ∧ r.bind = 0 ∧ r.listen = 0 := by
  unfold listenSocket
  cases hsoc : r.socket with
  | error errno => simp
  | ok fd =>
    dsimp only
    by_cases hopt : r.setsockopt = 0
    · rw [if_neg (not_not_intro hopt)]
      split
      · rename_i err he
        have hfail : (setNonBlock fd r.nonblock Error.new).1 = false := by
          rw [← setNonBlock_fails fd r.nonblock (s.acceptors a).err, he]
        refine iff_of_false (by simp) ?_
        rintro ⟨fd', hfd', hne, -, hnb, -, -⟩
        cases hfd'
        simp [setNonBlock, hne, hnb] at hfail
      · rename_i err he
        obtain ⟨hne, hnb, -⟩ := setNonBlock_true he
        split
        · rename_i hbind
          simp [hbind]
        · rename_i hbind
          split
          · rename_i hlis
            simp [hlis]
          · rename_i hlis
            simp_all
    · simp [hopt]

theorem register_succeeds : (s.register h acceptor ctl).2 = true ↔
    s.handle h ≠ INVALID_SOCKET ∧ s.epollAdd (s.handle h) ctl = 0 := by
  unfold register
  split
  · rename_i hinv
    simp [hinv]
  · rename_i hinv
    dsimp only
    split
    · rename_i he
      simp [he]
    · rename_i he
      simp [hinv, not_not.mp he]

theorem ownedFds_register :
    ownedFds a (s.register h acceptor ctl).1.heap.log = ownedFds a s.heap.log := by
  unfold register
  split
  · rfl
  · dsimp only
    split <;> rfl

@[simp] theorem acceptors_register : (s.register h acceptor ctl).1.acceptors = s.acceptors := by
  unfold register
  split
  · rfl
  · dsimp only
    split <;> rfl

/-- A call that got a descriptor keeps it open and in the handle. -/
theorem listen_ok (s : State κ) (a : AccId) (cb : κ) (hr : r.socket = .ok fd) :
    ownedFds a (s.listen a cb r).1.heap.log = fd :: ownedFds a s.heap.log ∧
    ((s.listen a cb r).1.acceptors a).soc = fd ∧
    ((s.listen a cb r).1.acceptors a).live = (s.acceptors a).live := by
  obtain ⟨c, hsock, hc, hlive⟩ := listenSocket_ok (s := s) (a := a) hr
  unfold listen
  split
  · rename_i s₁ he
    rw [he] at hsock
    dsimp only at hsock ⊢
    rw [hsock]
    exact ⟨ownedFds_opened, by simpa [setAcceptor] using hc, by simpa [setAcceptor] using hlive⟩
  · rename_i s₁ he
    rw [he] at hsock
    dsimp only at hsock ⊢
    rw [hsock]
    exact ⟨ownedFds_register.trans ownedFds_opened, by simpa [setAcceptor] using hc,
      by simpa [setAcceptor] using hlive⟩

theorem listen_error {errno : Int} (hr : r.socket = .error errno) : s.listen a cb r =
    (s.setAcceptor a { s.acceptors a with
      soc := -1
      err := (s.acceptors a).err.set errno (.fail .createSocket errno) }, false) := by
  unfold listen listenSocket
  rw [hr]

theorem listen_succeeds : (s.listen a cb r).2 = true ↔ ∃ fd, r.socket = .ok fd ∧ fd ≠ -1 ∧
    r.setsockopt = 0 ∧ r.nonblock = .ok ∧ r.bind = 0 ∧ r.listen = 0 ∧
    s.epollAdd fd r.epollCtl = 0 := by
  have hsock := listenSocket_succeeds (s := s) (a := a) (r := r)
  unfold listen
  split
  · rename_i s₁ he
    rw [he] at hsock
    refine iff_of_false (by simp) ?_
    rintro ⟨fd, hr, hne, hopt, hnb, hbind, hlis, -⟩
    exact Bool.false_ne_true (hsock.mpr ⟨fd, hr, hne, hopt, hnb, hbind, hlis⟩)
  · rename_i s₁ he
    rw [he] at hsock
    obtain ⟨fd, hr, hne, hopt, hnb, hbind, hlis⟩ := hsock.mp rfl
    obtain ⟨c, hs₁, rfl, -⟩ := listenSocket_ok (s := s) (a := a) hr
    rw [he] at hs₁
    dsimp only at hs₁ ⊢
    rw [register_succeeds, hs₁]
    have hhandle : ∀ (s₀ : State κ) (c c' : Acceptor κ), c'.soc = c.soc →
        ((s₀.setAcceptor a c).setAcceptor a c').handle (.acceptor a) = c.soc := by
      intro s₀ c c' hsoc
      simpa [handle, setAcceptor] using hsoc
    rw [hhandle _ c _ (by simp [setAcceptor])]
    constructor
    · rintro ⟨-, hadd⟩
      exact ⟨c.soc, hr, hne, hopt, hnb, hbind, hlis, hadd⟩
    · rintro ⟨fd', hr', -, -, -, -, -, hadd⟩
      cases hr.symm.trans hr'
      exact ⟨hne, hadd⟩

/-- A call fails without a trace exactly when nothing or only `socket` fails. -/
theorem failsClean_iff : s.failsClean a cb r ↔ s.listens r := by
  cases hsoc : r.socket with
  | error errno =>
    unfold failsClean listens
    rw [listen_error hsoc, hsoc]
    simp [setAcceptor, Error.set, INVALID_SOCKET]
  | ok fd =>
    obtain ⟨hlog, -, -⟩ := listen_ok s a cb hsoc
    have hres : s.failsClean a cb r ↔ (s.listen a cb r).2 = true := by
      constructor
      · intro hclean
        by_contra hf
        have hopen := (hclean (Bool.of_not_eq_true hf)).1
        rw [hlog] at hopen
        exact List.cons_ne_self _ _ hopen
      · intro hok hf
        rw [hok] at hf
        cases hf
    rw [hres, listen_succeeds]
    unfold listens
    rw [hsoc]
    cases hnb : r.nonblock with
    | ok =>
      constructor
      · rintro ⟨fd', hfd, hne, hopt, -, hbind, hlis, hadd⟩
        cases hfd
        exact ⟨hne, hopt, hbind, hlis, hadd⟩
      · rintro ⟨hne, hopt, hbind, hlis, hadd⟩
        exact ⟨fd, rfl, hne, hopt, rfl, hbind, hlis, hadd⟩
    | getflFail errno | setflFail errno => simp

/-! ### Sequences of calls -/

/-- The Acceptor is made without a descriptor, `listen` is called while it has none, and each call
succeeds or fails at `socket`. -/
def listensAfresh (a : AccId) (s : State κ) : Action κ → Prop
  | .createAcceptor b soc => b = a → soc = INVALID_SOCKET
  | .listen b _ r => b = a → (s.acceptors a).soc = INVALID_SOCKET ∧ s.listens r
  | _ => True

instance : Decidable (s.listensAfresh a act) := by
  apply @Action.casesOn κ _ act <;> (intros; dsimp only [listensAfresh]; infer_instance)

/-- The Acceptor owns the descriptor in its handle or none. -/
structure OwnsOne (a : AccId) (s : State κ) : Prop where
  owned : ownedFds a s.heap.log = [] ∨ (s.acceptors a).soc ≠ INVALID_SOCKET ∧
    ownedFds a s.heap.log = [(s.acceptors a).soc]
  gone : (s.acceptors a).live = false → ownedFds a s.heap.log = []

namespace OwnsOne

/-- The handle stays, and no descriptor is added. -/
theorem shrink (ho : OwnsOne a s) (hsoc : (s'.acceptors a).soc = (s.acceptors a).soc)
    (hlive : (s'.acceptors a).live = (s.acceptors a).live)
    (hlog : (ownedFds a s'.heap.log).Sublist (ownedFds a s.heap.log)) : OwnsOne a s' where
  owned := by
    rw [hsoc]
    rcases ho.owned with h | ⟨hne, h⟩
    · rw [h, List.sublist_nil] at hlog
      exact .inl hlog
    · rw [h] at hlog
      rcases List.sublist_singleton.mp hlog with h' | h'
      · exact .inl h'
      · exact .inr ⟨hne, h'⟩
  gone hl := by
    rw [hlive] at hl
    rw [ho.gone hl, List.sublist_nil] at hlog
    exact hlog

theorem ownedFds_nil (ho : OwnsOne a s) (h : (s.acceptors a).soc = INVALID_SOCKET) :
    ownedFds a s.heap.log = [] :=
  ho.owned.resolve_right fun hh => hh.1 h

/-- After `close` nothing is owned. -/
theorem closeAcceptor (ho : OwnsOne a s) :
    ownedFds a (s.closeAcceptor a).heap.log = [] ∧
    ((s.closeAcceptor a).acceptors a).soc = INVALID_SOCKET := by
  unfold State.closeAcceptor
  dsimp only
  split
  · rename_i hne
    refine ⟨?_, by simp [setAcceptor]⟩
    rw [heap_setAcceptor, heap_emit, heap_removeHandler]
    change (ownedFds a s.heap.log).filter (· ≠ (s.acceptors a).soc) = []
    rcases ho.owned with h | ⟨-, h⟩
    · rw [h]
      rfl
    · rw [h]
      simp
  · rename_i hinv
    have hinv := not_not.mp hinv
    rw [heap_removeHandler, acceptors_removeHandler]
    exact ⟨ho.ownedFds_nil hinv, hinv⟩

theorem listen (ho : OwnsOne a s) (hl : (s.acceptors a).live = true)
    (hsoc : (s.acceptors a).soc = INVALID_SOCKET) (hr : s.listens r) :
    OwnsOne a (s.listen a cb r).1 := by
  have hnil := ho.ownedFds_nil hsoc
  cases hsock : r.socket with
  | error errno =>
    rw [listen_error hsock]
    exact ⟨.inl hnil, fun _ => hnil⟩
  | ok fd =>
    obtain ⟨hlog, hfd, hlive⟩ := listen_ok s a cb hsock
    have hne : fd ≠ INVALID_SOCKET := by
      unfold listens at hr
      rw [hsock] at hr
      cases hnb : r.nonblock with
      | ok =>
        rw [hnb] at hr
        exact hr.1
      | getflFail errno | setflFail errno =>
        rw [hnb] at hr
        exact hr.elim
    refine ⟨.inr ⟨by rw [hfd]; exact hne, by rw [hlog, hfd, hnil]⟩, fun hdead => ?_⟩
    rw [hlive, hl] at hdead
    cases hdead

theorem step (ho : OwnsOne a s) (hp : s.listensAfresh a act) (hs : s.step act = some s') :
    OwnsOne a s' := by
  cases step_acceptor a hs with
  | aside ha =>
    exact ho.shrink (by rw [ha.acceptor]) (by rw [ha.acceptor]) (ownedFds_aside ha.log)
  | created ha _ hdead he =>
    subst ha
    have hinv := hp rfl
    subst hinv
    rw [he]
    exact ⟨.inl (ho.gone hdead), fun _ => ho.gone hdead⟩
  | listened ha _ hl he =>
    subst ha
    rw [he]
    exact ho.listen hl (hp rfl).1 (hp rfl).2
  | closed _ _ _ he =>
    obtain ⟨hnil, -⟩ := ho.closeAcceptor
    rw [he]
    exact ⟨.inl hnil, fun _ => hnil⟩
  | destroyed _ _ _ he =>
    have hnil : ownedFds a (s.destroyAcceptor a).heap.log = [] := by
      unfold State.destroyAcceptor
      dsimp only
      split
      · exact ho.closeAcceptor.1
      · rename_i hinv
        exact ho.ownedFds_nil (not_not.mp hinv)
    rw [he]
    exact ⟨.inl hnil, fun _ => hnil⟩
  | @accepted r ev rest ha hc hpc hl hacc =>
    obtain ⟨⟨hlive, hsoc, -⟩, -⟩ := accept_same hpc hacc
    refine ho.shrink hsoc hlive ?_
    -- every entry that a round adds leaves the list as it is
    have hopen : ∀ {fd : Int}, (ownedFds a (.opened a .accept fd :: s.heap.log)).Sublist
        (ownedFds a s.heap.log) := ownedFds_cons (by simp)
    have hcall : ∀ {code soc : Int} {log : List Event},
        (ownedFds a (.accepted a code soc :: log)).Sublist (ownedFds a log) :=
      ownedFds_cons (by simp)
    cases accept_round hc hpc hl hacc with
    | drained _ _ hlog =>
      rw [hlog]
    | failed _ _ hlog =>
      rcases hlog with hlog | hlog
      · rw [hlog]
      · rw [hlog]
        exact hcall
    | passed _ h =>
      rcases h with ⟨-, hlog⟩ | ⟨-, -, hlog⟩
      · rw [hlog]
        exact hcall.trans hopen
      · rw [hlog]
        exact hopen
    | dropped _ _ hlog =>
      rcases hlog with hlog | hlog
      · rw [hlog]
        exact hopen
      · rw [hlog]
        exact hcall.trans hopen
  | @hungup ev rest _ _ _ _ _ he =>
    obtain ⟨⟨hlive, hsoc, -⟩, -, hlog⟩ := onCloseAcceptor_cases (a := a)
      (s := { s with pc := .event rest }.emit (.dispatched ev.handler .onClose))
    rw [he]
    refine ho.shrink hsoc hlive ?_
    have hdisp : (ownedFds a (.dispatched ev.handler .onClose :: s.heap.log)).Sublist
        (ownedFds a s.heap.log) := ownedFds_cons (by simp)
    rcases hlog with ⟨-, hlog⟩ | ⟨-, hlog⟩
    · rw [hlog]
      exact (ownedFds_cons (by simp)).trans hdisp
    · rw [hlog]
      exact hdisp

end OwnsOne

end State

/-- A `listen` leaves nothing behind when it fails exactly if it succeeds or fails at `socket`.
While it does, and is called only without a descriptor, the Acceptor owns the descriptor in its
handle at most. -/
theorem listen_owns_one (a : AccId) :
    (∀ (s : State κ) cb r, s.failsClean a cb r ↔ s.listens r) ∧
    ∀ s : State κ, (proactor κ).Reachable (State.listensAfresh a) s →
      ownedFds a s.heap.log = [] ∨ ownedFds a s.heap.log = [(s.acceptors a).soc] := by
  refine ⟨fun _ _ _ => State.failsClean_iff, fun s hr => ?_⟩
  have hi : s.OwnsOne a := by
    apply hr.invariant (I := fun s => s.OwnsOne a)
    · rintro s₀ ⟨mem, rfl⟩
      exact ⟨.inl rfl, fun _ => rfl⟩
    · intro s₀ act s₁ _ ho hp hs
      exact ho.step hp hs
  exact hi.owned.imp_right And.right

/-- What the calls answer when nothing fails. -/
def listenAnswers (fd : Int) : ListenResult := ⟨.ok fd, 0, .ok, 0, 0, 0⟩

/-- A first call fails at `socket`, a second one succeeds. -/
theorem listen_owns_one_retry : ∃ s : State Unit,
    (proactor Unit).Reachable (State.listensAfresh 0) s ∧ ownedFds 0 s.heap.log = [5] ∧
    (ownedFds 0 s.heap.log = [] ∨ ownedFds 0 s.heap.log = [(s.acceptors 0).soc]) := by
  obtain ⟨s, hr, hf⟩ := Machine.exists_of_exec (M := proactor Unit) (p := State.listensAfresh 0)
    (s := State.initial fun _ _ => 0)
    (l := [.epollCreate 3 0, .createAcceptor 0 INVALID_SOCKET,
      .listen 0 () { listenAnswers 5 with socket := .error 24 }, .listen 0 () (listenAnswers 5)])
    (f := fun s => ownedFds 0 s.heap.log) (b := [5]) ⟨_, rfl⟩ rfl
  exact ⟨s, hr, hf, (listen_owns_one 0).2 s hr⟩

/-- A call that fails at `bind` leaves its descriptor open, and a retry opens another; one that
fails at the registration leaves no error with the Acceptor. -/
theorem listen_leaks_descriptor : ∃ s s' : State Unit,
    (proactor Unit).Reachable Machine.free s ∧ (proactor Unit).Steps Machine.free s s' ∧
    ¬ s.failsClean 0 () { listenAnswers 5 with bind := 98 } ∧
    (s.listen 0 () { listenAnswers 5 with epollCtl := 28 }).2 = false ∧
    ((s.listen 0 () { listenAnswers 5 with epollCtl := 28 }).1.acceptors 0).err.code = 0 ∧
    ownedFds 0 s'.heap.log = [6, 5] ∧ (s'.acceptors 0).soc = 6 := by
  obtain ⟨s, hr, hf⟩ := Machine.exists_of_exec (M := proactor Unit) (p := Machine.free)
    (s := State.initial fun _ _ => 0)
    (l := [.epollCreate 3 0, .createAcceptor 0 INVALID_SOCKET])
    (f := fun s => ((s.listen 0 () { listenAnswers 5 with epollCtl := 28 }).2,
      ((s.listen 0 () { listenAnswers 5 with epollCtl := 28 }).1.acceptors 0).err.code,
      ((proactor Unit).exec Machine.free s [.listen 0 () { listenAnswers 5 with bind := 98 },
        .listen 0 () { listenAnswers 6 with bind := 98 }]).map fun s =>
          (ownedFds 0 s.heap.log, (s.acceptors 0).soc)))
    (b := (false, 0, some ([6, 5], 6))) ⟨_, rfl⟩ rfl
  simp only [Prod.mk.injEq] at hf
  obtain ⟨hres, herr, hexec⟩ := hf
  obtain ⟨s', hs', hobs⟩ := Option.map_eq_some_iff.mp hexec
  refine ⟨s, s', hr, Machine.exec_steps hs', ?_, hres, herr, (Prod.mk.inj hobs).1,
    (Prod.mk.inj hobs).2⟩
  intro h
  exact absurd (State.failsClean_iff.mp h).2.2.1 (by decide)

end EchoBenchmark.Proactor
