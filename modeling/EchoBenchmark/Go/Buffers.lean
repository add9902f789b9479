import EchoBenchmark.Go.Server

/-!
The buffers of the Go server. Each round of a goroutine takes one from `bufPool`, reads into it,
writes from it, and puts it back; the pool may lose buffers at any time.
-/

namespace EchoBenchmark.Go

abbrev BufId := Nat

/-- Where `echo` stands, with its `buf` and `readSize`. -/
inductive Place
  /-- At `bufPool.Get()`. -/
  | get
  | read (buf : BufId)
  | write (buf : BufId) (readSize : Nat)
  /-- At `bufPool.Put(buf)`. -/
  | put (buf : BufId)
  | closed
  deriving DecidableEq

/-- The goroutines, the bytes of the buffers that were made, which of these lie in `bufPool`, and
the rest as in `Server`. -/
structure Pooled where
  conns : ConnId → Option Place
  accepted : Nat
  exited : Option Nat
  mem : BufId → List UInt8
  made : Nat
  bufPool : List BufId
  log : List Transfer

namespace Pooled

/-- What happens next; `Get` takes a buffer of the pool or has `New` make one, and `collect` is the
runtime, which removes one. -/
inductive Action
  | accept (ok : Bool)
  | get (c : ConnId) (choice : Option BufId)
  | read (c : ConnId) (r : ReadResult)
  | write (c : ConnId) (ok : Bool)
  | put (c : ConnId)
  | collect (buf : BufId)

def initial : Pooled := ⟨fun _ => none, 0, none, fun _ => [], 0, [], []⟩

def set (s : Pooled) (c : ConnId) (p : Place) : Pooled :=
  { s with conns := Function.update s.conns c (some p) }

/-- `os.Exit(1)`. -/
def exit (s : Pooled) : Pooled := { s with exited := some 1 }

def accept (s : Pooled) (ok : Bool) : Pooled :=
  if ok then { s.set s.accepted .get with accepted := s.accepted + 1 } else s

/-- `New`: `make([]byte, BUF_SIZE)`. -/
def new (s : Pooled) : Pooled :=
  { s with
    mem := Function.update s.mem s.made (List.replicate BUF_SIZE 0)
    made := s.made + 1 }

/-- `buf := bufPool.Get().([]byte)`. -/
def get (s : Pooled) (c : ConnId) : Option BufId → Option Pooled
  | none => some (s.new.set c (.read s.made))
  | some buf =>
    if buf ∈ s.bufPool then
      some { s.set c (.read buf) with bufPool := s.bufPool.erase buf }
    else none

/-- `readSize, err := conn.Read(buf)`, which stores into the front of the buffer. -/
def onRead (s : Pooled) (c : ConnId) (buf : BufId) : ReadResult → Option Pooled
  | .got bytes =>
    if bytes.length ≤ (s.mem buf).length then
      some { s.set c (.write buf bytes.length) with
        mem := Function.update s.mem buf (bytes ++ (s.mem buf).drop bytes.length)
        log := .read c bytes :: s.log }
    else none
  -- the buffer is not put back
  | .eof => some (s.set c .closed)
  | .error => some s.exit

/-- `_, err = conn.Write(buf[0:readSize])`. -/
def onWrite (s : Pooled) (c : ConnId) (buf : BufId) (readSize : Nat) (ok : Bool) : Pooled :=
  if ok then { s.set c (.put buf) with log := .wrote c ((s.mem buf).take readSize) :: s.log }
  else s.exit

/-- The runtime removes a buffer of the pool. -/
def collect (s : Pooled) (buf : BufId) : Pooled := { s with bufPool := s.bufPool.erase buf }

/-- `bufPool.Put(buf)`. -/
def put (s : Pooled) (c : ConnId) (buf : BufId) : Pooled :=
  { s.set c .get with bufPool := buf :: s.bufPool }

def step (s : Pooled) (a : Action) : Option Pooled :=
  match s.exited, a with
  | some _, _ => none
  | none, .accept ok => some (s.accept ok)
  | none, .get c choice => if s.conns c = some .get then s.get c choice else none
  | none, .read c r =>
    match s.conns c with
    | some (.read buf) => s.onRead c buf r
    | _ => none
  | none, .write c ok =>
    match s.conns c with
    | some (.write buf readSize) => some (s.onWrite c buf readSize ok)
    | _ => none
  | none, .put c =>
    match s.conns c with
    | some (.put buf) => some (s.put c buf)
    | _ => none
  | none, .collect buf =>
    if buf ∈ s.bufPool then some (s.collect buf) else none

end Pooled

/-- The server with its buffers. -/
def pooled : Machine Pooled Pooled.Action where
  init s := s = Pooled.initial
  step := Pooled.step

/-! ### Whose buffer it is -/

/-- The buffer that a goroutine has in hand. -/
def Place.buf : Place → Option BufId
  | .read buf | .write buf _ | .put buf => some buf
  | .get | .closed => none

namespace Pooled

variable {s s' : Pooled} {a : Action} {c d : ConnId} {buf : BufId} {p : Place}

/-- The goroutine of a connection has the buffer. -/
def Holds (s : Pooled) (c : ConnId) (buf : BufId) : Prop :=
  ∃ p, s.conns c = some p ∧ p.buf = some buf

/-- A buffer is in the pool or in the hands of one goroutine. -/
structure Exclusive (s : Pooled) : Prop where
  apart : ∀ c d buf, s.Holds c buf → s.Holds d buf → c = d
  busy : ∀ c buf, s.Holds c buf → buf ∉ s.bufPool
  nodup : s.bufPool.Nodup
  held : ∀ c buf, s.Holds c buf → buf < s.made
  idle : ∀ buf ∈ s.bufPool, buf < s.made
  size : ∀ buf < s.made, (s.mem buf).length = BUF_SIZE

theorem holds_set : (s.set c p).Holds d buf ↔
    d = c ∧ p.buf = some buf ∨ d ≠ c ∧ s.Holds d buf := by
  simp only [Holds, set]
  by_cases hd : d = c
  · rw [hd, Function.update_self]
    simp
  · rw [Function.update_of_ne hd]
    simp [hd]

theorem holds_of_conns (hc : s.conns c = some p) (hp : p.buf = some buf) : s.Holds c buf :=
  ⟨p, hc, hp⟩

/-- The goroutine goes on with the buffer that it has, or without one. -/
theorem holds_of_goesOn {p' : Place} (hc : s.conns c = some p) (hd : (s.set c p').Holds d buf)
    (hp : ∀ buf, p'.buf = some buf → p.buf = some buf) : s.Holds d buf := by
  rcases holds_set.mp hd with ⟨rfl, hb⟩ | ⟨-, hd'⟩
  · exact ⟨p, hc, hp buf hb⟩
  · exact hd'

namespace Exclusive

theorem initial : Exclusive Pooled.initial where
  apart c d buf := by
    rintro ⟨p, hp, -⟩
    cases hp
  busy c buf := by
    rintro ⟨p, hp, -⟩
    cases hp
  nodup := List.nodup_nil
  held c buf := by
    rintro ⟨p, hp, -⟩
    cases hp
  idle buf hb := by cases hb
  size buf hb := absurd hb (Nat.not_lt_zero buf)

/-- No goroutine takes a buffer, and none comes into the pool. -/
theorem frame (h : Exclusive s) (hheld : ∀ d buf, s'.Holds d buf → s.Holds d buf)
    (hpool : s'.bufPool.Sublist s.bufPool) (hmade : s'.made = s.made)
    (hsize : ∀ buf < s.made, (s'.mem buf).length = BUF_SIZE) : Exclusive s' where
  apart c d buf hc hd := h.apart c d buf (hheld c buf hc) (hheld d buf hd)
  busy c buf hc hb := h.busy c buf (hheld c buf hc) (hpool.subset hb)
  nodup := h.nodup.sublist hpool
  held c buf hc := by
    rw [hmade]
    exact h.held c buf (hheld c buf hc)
  idle buf hb := by
    rw [hmade]
    exact h.idle buf (hpool.subset hb)
  size := by
    rw [hmade]
    exact hsize

theorem taken (h : Exclusive s) (hb : buf ∈ s.bufPool) :
    Exclusive { s.set c (.read buf) with bufPool := s.bufPool.erase buf } := by
  have hholds : ∀ d b, (s.set c (.read buf)).Holds d b → d = c ∧ b = buf ∨ d ≠ c ∧ s.Holds d b := by
    intro d b hd
    rcases holds_set.mp hd with ⟨hdc, hb⟩ | hd
    · exact .inl ⟨hdc, (Option.some.inj hb).symm⟩
    · exact .inr hd
  have hgone : buf ∉ s.bufPool.erase buf := h.nodup.not_mem_erase
  refine ⟨?_, ?_, h.nodup.erase buf, ?_, fun b hb => h.idle b (List.mem_of_mem_erase hb), h.size⟩
  · intro d e b hd he
    rcases hholds d b hd with ⟨rfl, rfl⟩ | ⟨-, hd'⟩
    · rcases hholds e b he with ⟨rfl, -⟩ | ⟨-, he'⟩
      · rfl
      · exact (h.busy e b he' hb).elim
    · rcases hholds e b he with ⟨rfl, rfl⟩ | ⟨-, he'⟩
      · exact (h.busy d b hd' hb).elim
      · exact h.apart d e b hd' he'
  · intro d b hd hmem
    rcases hholds d b hd with ⟨rfl, rfl⟩ | ⟨-, hd'⟩
    · exact hgone hmem
    · exact h.busy d b hd' (List.mem_of_mem_erase hmem)
  · intro d b hd
    rcases hholds d b hd with ⟨rfl, rfl⟩ | ⟨-, hd'⟩
    · exact h.idle b hb
    · exact h.held d b hd'

theorem made (h : Exclusive s) : Exclusive (s.new.set c (.read s.made)) := by
  have hholds : ∀ d b, (s.new.set c (.read s.made)).Holds d b →
      d = c ∧ b = s.made ∨ d ≠ c ∧ s.Holds d b := by
    intro d b hd
    rcases holds_set.mp hd with ⟨hdc, hb⟩ | hd
    · exact .inl ⟨hdc, (Option.some.inj hb).symm⟩
    · exact .inr hd
  have hnot : ∀ d, ¬ s.Holds d s.made := fun d hd => Nat.lt_irrefl _ (h.held d _ hd)
  refine ⟨?_, ?_, h.nodup, ?_, ?_, ?_⟩
  · intro d e b hd he
    rcases hholds d b hd with ⟨rfl, rfl⟩ | ⟨-, hd'⟩
    · rcases hholds e _ he with ⟨rfl, -⟩ | ⟨-, he'⟩
      · rfl
      · exact (hnot e he').elim
    · rcases hholds e b he with ⟨rfl, rfl⟩ | ⟨-, he'⟩
      · exact (hnot d hd').elim
      · exact h.apart d e b hd' he'
  · intro d b hd hmem
    rcases hholds d b hd with ⟨rfl, rfl⟩ | ⟨-, hd'⟩
    · exact Nat.lt_irrefl _ (h.idle _ hmem)
    · exact h.busy d b hd' hmem
  · intro d b hd
    rcases hholds d b hd with ⟨rfl, rfl⟩ | ⟨-, hd'⟩
    · exact Nat.lt_succ_self _
    · exact Nat.lt_succ_of_lt (h.held d b hd')
  · intro b hb
    exact Nat.lt_succ_of_lt (h.idle b hb)
  · intro b hb
    by_cases hnew : b = s.made
    · rw [hnew]
      simp [new, set]
    · have hlt : b < s.made := by
        have hle : b < s.made + 1 := hb
        omega
      simp only [new, set, Function.update_of_ne hnew]
      exact h.size b hlt

/-- What the goroutine had in hand goes into the pool. -/
theorem put (h : Exclusive s) (hc : s.conns c = some (.put buf)) : Exclusive (s.put c buf) := by
  have hown : s.Holds c buf := holds_of_conns hc rfl
  have hholds : ∀ d b, (s.put c buf).Holds d b → d ≠ c ∧ s.Holds d b := by
    intro d b hd
    have hd : (s.set c .get).Holds d b := hd
    rcases holds_set.mp hd with ⟨-, hb⟩ | hd
    · cases hb
    · exact hd
  refine ⟨?_, ?_, List.nodup_cons.mpr ⟨h.busy c buf hown, h.nodup⟩, ?_, ?_, h.size⟩
  · intro d e b hd he
    exact h.apart d e b (hholds d b hd).2 (hholds e b he).2
  · intro d b hd hmem
    obtain ⟨hdc, hd'⟩ := hholds d b hd
    rcases List.mem_cons.mp hmem with rfl | hmem
    · exact hdc (h.apart d c _ hd' hown)
    · exact h.busy d b hd' hmem
  · intro d b hd
    exact h.held d b (hholds d b hd).2
  · intro b hb
    rcases List.mem_cons.mp hb with rfl | hb
    · exact h.held c b hown
    · exact h.idle b hb

theorem read (h : Exclusive s) {r : ReadResult} (hc : s.conns c = some (.read buf))
    (hs : s.onRead c buf r = some s') : Exclusive s' := by
  have hown : s.Holds c buf := holds_of_conns hc rfl
  cases r with
  | got bytes =>
    simp only [onRead] at hs
    split at hs
    · rename_i hlen
      cases hs
      refine h.frame (fun d b hd => holds_of_goesOn hc hd fun _ => id) (List.Sublist.refl _) rfl ?_
      intro b hb
      by_cases hbuf : b = buf
      · have hsize := h.size buf (h.held c buf hown)
        rw [hbuf]
        simp only [Function.update_self, List.length_append, List.length_drop]
        omega
      · simp only [Function.update_of_ne hbuf]
        exact h.size b hb
    · cases hs
  | eof =>
    cases hs
    exact h.frame (fun d b hd => holds_of_goesOn hc hd nofun) (List.Sublist.refl _) rfl h.size
  | error =>
    cases hs
    exact h.frame (fun d b hd => hd) (List.Sublist.refl _) rfl h.size

theorem write (h : Exclusive s) {readSize : Nat} (hc : s.conns c = some (.write buf readSize))
    (ok : Bool) : Exclusive (s.onWrite c buf readSize ok) := by
  cases ok with
  | true =>
    exact h.frame (fun d b hd => holds_of_goesOn hc hd fun _ => id) (List.Sublist.refl _) rfl
      h.size
  | false => exact h.frame (fun d b hd => hd) (List.Sublist.refl _) rfl h.size

theorem accept (h : Exclusive s) (ok : Bool) : Exclusive (s.accept ok) := by
  cases ok with
  | true =>
    refine h.frame (fun d b hd => ?_) (List.Sublist.refl _) rfl h.size
    rcases holds_set.mp (show (s.set s.accepted .get).Holds d b from hd) with ⟨-, hb⟩ | ⟨-, hd⟩
    · cases hb
    · exact hd
  | false => exact h

end Exclusive

/-- The operation that a step is, and where the goroutine stood. -/
inductive Does (s : Pooled) : Action → Pooled → Prop
  | accept (ok : Bool) : Does s (.accept ok) (s.accept ok)
  | makes {c : ConnId} : s.conns c = some .get →
      Does s (.get c none) (s.new.set c (.read s.made))
  | takes {c : ConnId} {buf : BufId} : s.conns c = some .get → buf ∈ s.bufPool →
      Does s (.get c (some buf)) { s.set c (.read buf) with bufPool := s.bufPool.erase buf }
  | reads {c : ConnId} {buf : BufId} {r : ReadResult} {s' : Pooled} :
      s.conns c = some (.read buf) → s.onRead c buf r = some s' → Does s (.read c r) s'
  | writes {c : ConnId} {buf : BufId} {readSize : Nat} (ok : Bool) :
      s.conns c = some (.write buf readSize) →
      Does s (.write c ok) (s.onWrite c buf readSize ok)
  | puts {c : ConnId} {buf : BufId} : s.conns c = some (.put buf) → Does s (.put c) (s.put c buf)
  | collects {buf : BufId} : buf ∈ s.bufPool →
      Does s (.collect buf) (s.collect buf)

theorem does_of_step (hs : s.step a = some s') : s.exited = none ∧ Does s a s' := by
  unfold step at hs
  cases he : s.exited with
  | some n => simp [he] at hs
  | none =>
    refine ⟨rfl, ?_⟩
    simp only [he] at hs
    cases a with
    | accept ok =>
      cases hs
      exact .accept ok
    | get c choice =>
      simp only at hs
      split at hs
      · rename_i hc
        cases choice with
        | none =>
          cases hs
          exact .makes hc
        | some buf =>
          simp only [get] at hs
          split at hs
          · rename_i hb
            cases hs
            exact .takes hc hb
          · cases hs
      · cases hs
    | read c r =>
      simp only at hs
      split at hs
      · rename_i buf hc
        exact .reads hc hs
      · cases hs
    | write c ok =>
      simp only at hs
      split at hs
      · rename_i buf readSize hc
        cases hs
        exact .writes ok hc
      · cases hs
    | put c =>
      simp only at hs
      split at hs
      · rename_i buf hc
        cases hs
        exact .puts hc
      · cases hs
    | collect buf =>
      simp only at hs
      split at hs
      · rename_i hb
        cases hs
        exact .collects hb
      · cases hs

theorem Exclusive.step (h : Exclusive s) (hs : s.step a = some s') : Exclusive s' := by
  obtain ⟨-, hd⟩ := does_of_step hs
  cases hd with
  | accept ok => exact h.accept ok
  | makes hc => exact h.made
  | takes hc hb => exact h.taken hb
  | reads hc hr => exact h.read hc hr
  | writes ok hc => exact h.write hc ok
  | puts hc => exact h.put hc
  | collects hb => exact h.frame (fun d b hd => hd) List.erase_sublist rfl h.size

theorem exclusive_of_reachable {q : Pooled → Action → Prop} (hr : pooled.Reachable q s) :
    Exclusive s := by
  apply hr.invariant
  · rintro s₀ rfl
    exact Exclusive.initial
  · intro s₀ a s₁ _ h _ hs
    exact h.step hs

/-! ### Without the buffers -/

/-- Where the goroutine stands, with the bytes that it is to write. -/
def view (mem : BufId → List UInt8) : Place → Goroutine
  | .get | .read _ | .put _ => .reading
  | .write buf readSize => .writing ((mem buf).take readSize)
  | .closed => .closed

/-- The server with the bytes in place of the buffers. -/
def toServer (s : Pooled) : Server where
  conns c := (s.conns c).map (view s.mem)
  accepted := s.accepted
  exited := s.exited
  log := s.log

theorem view_congr {mem mem' : BufId → List UInt8}
    (h : ∀ buf, p.buf = some buf → mem' buf = mem buf) : view mem' p = view mem p := by
  cases p with
  | write buf readSize => rw [view, view, h buf rfl]
  | get | read | put | closed => rfl

/-- One goroutine goes on, and no buffer in the hands of another one changes. -/
theorem conns_toServer (hconns : s'.conns = Function.update s.conns c (some p))
    (hmem : ∀ d buf, d ≠ c → s.Holds d buf → s'.mem buf = s.mem buf) :
    s'.toServer.conns = Function.update s.toServer.conns c (some (view s'.mem p)) := by
  funext d
  by_cases hd : d = c
  · simp [toServer, hconns, hd]
  · simp only [toServer, hconns, Function.update_of_ne hd]
    cases hp : s.conns d with
    | none => rfl
    | some q =>
      apply congrArg some
      exact view_congr fun buf hbuf => hmem d buf hd ⟨q, hp, hbuf⟩

theorem toServer_of_conns {f : ConnId → Option Goroutine} (hf : s'.toServer.conns = f) :
    s'.toServer = ⟨f, s'.accepted, s'.exited, s'.log⟩ := by
  rw [← hf]
  rfl

/-- A goroutine goes on that shows no other place. -/
theorem toServer_eq (hconns : s'.conns = Function.update s.conns c (some p))
    (hmem : ∀ d buf, d ≠ c → s.Holds d buf → s'.mem buf = s.mem buf)
    (hview : s.toServer.conns c = some (view s'.mem p)) (haccepted : s'.accepted = s.accepted)
    (hexited : s'.exited = s.exited) (hlog : s'.log = s.log) : s'.toServer = s.toServer := by
  have hc : s'.toServer.conns = s.toServer.conns := by
    rw [conns_toServer hconns hmem, ← hview]
    exact Function.update_eq_self _ _
  rw [toServer_of_conns hc, haccepted, hexited, hlog]
  rfl

/-- What was read into a buffer is what is written from it. -/
theorem simulates_read {r : ReadResult} (h : Exclusive s) (he : s.exited = none)
    (hc : s.conns c = some (.read buf)) (hs : s.onRead c buf r = some s') :
    s.toServer.step (.read c r) = some s'.toServer := by
  have hown : s.Holds c buf := holds_of_conns hc rfl
  have hplace : s.toServer.conns c = some .reading := by simp [toServer, hc, view]
  have hstep : s.toServer.step (.read c r) = s.toServer.onRead c r := by
    have hrunning : s.toServer.exited = none := he
    simp only [Server.step, hrunning, hplace, if_true]
  rw [hstep]
  cases r with
  | got bytes =>
    simp only [onRead] at hs
    split at hs
    · rename_i hlen
      rw [h.size buf (h.held c buf hown)] at hlen
      simp only [Server.onRead, if_pos hlen]
      have hconns : s'.conns = Function.update s.conns c (some (.write buf bytes.length)) := by
        cases hs
        rfl
      have hmem : s'.mem = Function.update s.mem buf (bytes ++ (s.mem buf).drop bytes.length) := by
        cases hs
        rfl
      -- no other goroutine has this buffer in hand
      have hother : ∀ d b, d ≠ c → s.Holds d b → s'.mem b = s.mem b := by
        intro d b hd hb
        have hne : b ≠ buf := by
          rintro rfl
          exact hd (h.apart d c b hb hown)
        rw [hmem]
        exact Function.update_of_ne hne _ _
      rw [toServer_of_conns (conns_toServer hconns hother), view, hmem, Function.update_self,
        List.take_left]
      cases hs
      rfl
    · cases hs
  | eof =>
    cases hs
    have hconns : (s.set c .closed).toServer.conns =
        Function.update s.toServer.conns c (some .closed) :=
      conns_toServer (p := .closed) rfl fun _ _ _ _ => rfl
    rw [toServer_of_conns hconns]
    rfl
  | error =>
    cases hs
    rfl

theorem simulates_write {readSize : Nat} (he : s.exited = none)
    (hc : s.conns c = some (.write buf readSize)) (ok : Bool) :
    s.toServer.step (.write c ok) = some (s.onWrite c buf readSize ok).toServer := by
  have hplace : s.toServer.conns c = some (.writing ((s.mem buf).take readSize)) := by
    simp [toServer, hc, view]
  have hrunning : s.toServer.exited = none := he
  simp only [Server.step, hrunning, hplace]
  cases ok with
  | true =>
    have hconns : (s.onWrite c buf readSize true).toServer.conns =
        Function.update s.toServer.conns c (some .reading) :=
      conns_toServer (p := .put buf) rfl fun _ _ _ _ => rfl
    rw [toServer_of_conns hconns]
    rfl
  | false => rfl

/-- A step of the server with its buffers is one of the server, or shows nothing. -/
theorem simulates (h : Exclusive s) (hs : s.step a = some s') :
    s'.toServer = s.toServer ∨ ∃ b, s.toServer.step b = some s'.toServer := by
  obtain ⟨he, hd⟩ := does_of_step hs
  cases hd with
  | accept ok =>
    right
    have hrunning : s.toServer.exited = none := he
    refine ⟨.accept ok, ?_⟩
    simp only [Server.step, hrunning]
    cases ok with
    | true =>
      have hconns : (s.accept true).toServer.conns =
          Function.update s.toServer.conns s.accepted (some .reading) :=
        conns_toServer (p := .get) rfl fun _ _ _ _ => rfl
      rw [toServer_of_conns hconns]
      rfl
    | false => rfl
  | @makes c hc =>
    left
    refine toServer_eq (s := s) rfl (fun d b _ hb => ?_) (by simp [toServer, hc, view]) rfl rfl rfl
    have hlt := h.held d b hb
    exact Function.update_of_ne (Nat.ne_of_lt hlt) _ _
  | @takes c buf hc hb =>
    left
    exact toServer_eq (s := s) rfl (fun _ _ _ _ => rfl) (by simp [toServer, hc, view]) rfl rfl rfl
  | reads hc hr => exact .inr ⟨_, simulates_read h he hc hr⟩
  | writes ok hc => exact .inr ⟨_, simulates_write he hc ok⟩
  | @puts c buf hc =>
    left
    exact toServer_eq (s := s) rfl (fun _ _ _ _ => rfl) (by simp [toServer, hc, view]) rfl rfl rfl
  | collects hb => exact .inl rfl

end Pooled

end EchoBenchmark.Go
