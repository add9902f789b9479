import EchoBenchmark.Lib.Ring
import EchoBenchmark.Proactor.Bookkeeping

/-!
The completion queue as the source stores it: the pointers `next` and `prev` of the tokens and of
`_head`. They represent the list that the heap keeps, through every step of the machine.
-/

namespace EchoBenchmark.Proactor

/-- A `Token` that can stand in the ring: `_head` or the token of a Socket. -/
inductive Node
  | head
  | token (t : TokenId)
  deriving DecidableEq

/-- The pointers `next` and `prev` of every token; `none` is `NULL`. -/
abbrev Ring := Links Node

namespace Ring

/-- The pointers after `Proactor()`, with every other token as `Token()` makes it. -/
def new : Ring :=
  ⟨fun x => if x = .head then some .head else none, fun x => if x = .head then some .head else none⟩

/-- `_enqueue`; `none` is an access through `NULL`. -/
def enqueue (r : Ring) (token : TokenId) : Option Ring :=
  let r := r.setNext (.token token) (some .head)
  let r := r.setPrev (.token token) (r.prev .head)
  match r.prev .head with
  | some last => some ((r.setNext last (some (.token token))).setPrev .head (some (.token token)))
  | none => none

/-- `_remove(Token*)`. -/
def remove (r : Ring) (token : TokenId) : Option Ring :=
  match r.next (.token token) with
  | some after =>
    let r := r.setPrev after (r.prev (.token token))
    match r.prev (.token token) with
    | some before =>
      let r := r.setNext before (r.next (.token token))
      some ((r.setPrev (.token token) none).setNext (.token token) none)
    | none => none
  | none => none

/-- The test `prev != NULL` of `Socket::~Socket`. -/
def linked (r : Ring) (token : TokenId) : Bool := (r.prev (.token token)).isSome

/-- `if (token.prev != NULL) _proactor->_remove(&token);` -/
def discard (r : Ring) (token : TokenId) : Option Ring :=
  if r.linked token then r.remove token else some r

/-- `_head.next`, which `_processCompletion` compares with `&_head`. -/
def front (r : Ring) : Option Node := r.next .head

/-- The ring is the list `l`. -/
def Holds (r : Ring) (l : List TokenId) : Prop := r.Represents .head (l.map .token)

variable {r : Ring} {t u : TokenId} {l : List TokenId}

theorem token_mem : Node.token t ∈ l.map Node.token ↔ t ∈ l := by
  simp

theorem token_not_mem : Node.token t ∉ Node.head :: l.map Node.token ↔ t ∉ l := by
  simp

namespace Holds

theorem new : Holds new [] := Links.Represents.empty

theorem linked_iff (h : r.Holds l) : r.linked t = true ↔ t ∈ l := by
  rw [linked, h.prev_isSome_iff (by simp), token_mem]

theorem enqueue (h : r.Holds l) (ht : t ∉ l) :
    ∃ r', r.enqueue t = some r' ∧ r'.Holds (l ++ [t]) := by
  obtain ⟨p, hp, -, hrep⟩ := h.push (token_not_mem.mpr ht)
  have hmap : l.map Node.token ++ [.token t] = (l ++ [t]).map Node.token := by simp
  rw [hmap] at hrep
  refine ⟨_, ?_, hrep⟩
  simp only [Ring.enqueue, Links.prev_setNext, Links.prev_setPrev, reduceCtorEq, if_false, hp]

theorem remove (h : r.Holds l) (ht : t ∈ l) :
    ∃ r', r.remove t = some r' ∧ r'.Holds (l.erase t) := by
  obtain ⟨l₁, l₂, htl, rfl, herase⟩ := List.exists_erase_eq ht
  rw [Holds, List.map_append, List.map_cons] at h
  obtain ⟨p, n, hp, hn, hpt, hnt, hrep⟩ := h.unlink
  rw [← List.map_append, ← herase] at hrep
  refine ⟨_, ?_, hrep⟩
  simp only [Ring.remove, hn, Links.prev_setPrev, if_neg hnt.symm, hp, Links.next_setPrev]

theorem discard (h : r.Holds l) : ∃ r', r.discard t = some r' ∧ r'.Holds (l.erase t) := by
  by_cases ht : t ∈ l
  · rw [Ring.discard, if_pos (h.linked_iff.mpr ht)]
    exact h.remove ht
  · have hl : ¬ r.linked t = true := fun hl => ht (h.linked_iff.mp hl)
    rw [Ring.discard, if_neg hl, List.erase_of_not_mem ht]
    exact ⟨r, rfl, h⟩

/-- The loop of `_processCompletion` ends when the list is empty, and takes its first token. -/
theorem front_eq (h : r.Holds l) : r.front = some (l.head?.elim .head .token) := by
  cases l with
  | nil => exact h.ring.1
  | cons t l => exact h.ring.1.1

end Holds

/-! ### Histories of the ring -/

/-- A call of `_enqueue` or of `_remove`. -/
inductive Op
  | enqueue (t : TokenId)
  | remove (t : TokenId)
  deriving DecidableEq

def apply (r : Ring) : Op → Option Ring
  | .enqueue t => r.enqueue t
  | .remove t => r.remove t

/-- The ring after the calls, in order. -/
def run : Ring → List Op → Option Ring
  | r, [] => some r
  | r, op :: ops =>
    match r.apply op with
    | some r' => run r' ops
    | none => none

/-- The tokens enqueued and not yet removed, in the order of the calls of `_enqueue`. -/
def Op.record (l : List TokenId) : Op → List TokenId
  | .enqueue t => l ++ [t]
  | .remove t => l.erase t

/-- A token is enqueued when it is not there, and removed when it is. -/
def Op.Legal (l : List TokenId) : Op → Prop
  | .enqueue t => t ∉ l
  | .remove t => t ∈ l

instance (l : List TokenId) (op : Op) : Decidable (op.Legal l) :=
  match op with
  | .enqueue t => inferInstanceAs (Decidable (t ∉ l))
  | .remove t => inferInstanceAs (Decidable (t ∈ l))

/-- Every call is legal where it is made. -/
def LegalFrom : List TokenId → List Op → Prop
  | _, [] => True
  | l, op :: ops => op.Legal l ∧ LegalFrom (op.record l) ops

instance LegalFrom.decidable : (l : List TokenId) → (ops : List Op) → Decidable (LegalFrom l ops)
  | _, [] => isTrue trivial
  | l, op :: ops => @instDecidableAnd (op.Legal l) (LegalFrom (op.record l) ops) inferInstance
      (decidable (op.record l) ops)

/-- What is in the ring after the calls. -/
def fifo (ops : List Op) : List TokenId := ops.foldl Op.record []

theorem Holds.apply {op : Op} (h : r.Holds l) (hop : op.Legal l) :
    ∃ r', r.apply op = some r' ∧ r'.Holds (op.record l) := by
  cases op with
  | enqueue t => exact h.enqueue hop
  | remove t => exact h.remove hop

theorem Holds.run {ops : List Op} (h : r.Holds l) (hops : LegalFrom l ops) :
    ∃ r', r.run ops = some r' ∧ r'.Holds (ops.foldl Op.record l) := by
  induction ops generalizing r l with
  | nil => exact ⟨r, rfl, h⟩
  | cons op ops ih =>
    obtain ⟨r₁, h₁, hrep₁⟩ := h.apply hops.1
    obtain ⟨r', h', hrep'⟩ := ih hrep₁ hops.2
    refine ⟨r', ?_, hrep'⟩
    simp only [Ring.run, h₁, h']

/-- From the ring of `Proactor()`, legal calls of `_enqueue` and `_remove` go through no null
pointer, and leave a first-in first-out list: `next` leads from `_head` through the tokens in the
order they came, `prev` the other way, and `prev` is null for the other tokens alone. -/
theorem ring_is_fifo {ops : List Op} (hops : LegalFrom [] ops) :
    ∃ r, Ring.new.run ops = some r ∧
      Links.Follows r.next .head ((fifo ops).map .token) .head ∧
      Links.Follows r.prev .head ((fifo ops).map .token).reverse .head ∧
      ∀ t, r.prev (.token t) ≠ none ↔ t ∈ fifo ops := by
  obtain ⟨r, hrun, hr⟩ := Holds.new.run hops
  refine ⟨r, hrun, hr.ring.follows_next, hr.ring.follows_prev, ?_⟩
  intro t
  rw [← Option.isSome_iff_ne_none]
  exact hr.linked_iff

/-- Two tokens leave from the middle and from the front, and one comes back. -/
def reentry : List Op :=
  [.enqueue ⟨0, .read⟩, .enqueue ⟨1, .write⟩, .enqueue ⟨2, .read⟩, .remove ⟨1, .write⟩,
    .remove ⟨0, .read⟩, .enqueue ⟨1, .write⟩]

theorem ring_is_fifo_reentry : LegalFrom [] reentry ∧
    fifo reentry = [⟨2, .read⟩, ⟨1, .write⟩] ∧
    ∃ r, Ring.new.run reentry = some r ∧
      Links.Follows r.next .head ((fifo reentry).map .token) .head ∧
      Links.Follows r.prev .head ((fifo reentry).map .token).reverse .head ∧
      ∀ t, r.prev (.token t) ≠ none ↔ t ∈ fifo reentry :=
  ⟨by decide, by decide, ring_is_fifo (by decide)⟩

end Ring

/-! ### The queue of the heap -/

section Refinement

open Heap (Noted Opens Progresses)

variable {κ : Type} {s s' : State κ} {act : Action κ} {h h' : Heap κ} {r : Ring} {t : TokenId}
  {id : SockId} {l l' : List TokenId}

/-- The destructor finds the same tokens in the ring as in the list, and takes them out. -/
theorem holds_unlink (hr : r.Holds h.queue) : ∃ r₁ r₂, r.discard ⟨id, .read⟩ = some r₁ ∧
    r₁.discard ⟨id, .write⟩ = some r₂ ∧ r₂.Holds (h.unlink id).queue := by
  obtain ⟨r₁, h₁, hr₁⟩ := hr.discard (t := ⟨id, .read⟩)
  obtain ⟨r₂, h₂, hr₂⟩ := hr₁.discard (t := ⟨id, .write⟩)
  refine ⟨r₁, r₂, h₁, h₂, ?_⟩
  rw [Heap.queue_unlink]
  exact hr₂

/-- Legal calls lead from one queue to the other. -/
def Relinks (l l' : List TokenId) : Prop :=
  ∃ ops, Ring.LegalFrom l ops ∧ l' = ops.foldl Ring.Op.record l

namespace Relinks

theorem same (he : l' = l) : Relinks l l' := ⟨[], trivial, he⟩

theorem enqueue (ht : t ∉ l) : Relinks l (l ++ [t]) := ⟨[.enqueue t], ⟨ht, trivial⟩, rfl⟩

theorem erase (l : List TokenId) (t : TokenId) : Relinks l (l.erase t) := by
  by_cases ht : t ∈ l
  · exact ⟨[.remove t], ⟨ht, trivial⟩, rfl⟩
  · exact same (List.erase_of_not_mem ht)

theorem legal_append {ops ops' : List Ring.Op} (h : Ring.LegalFrom l ops)
    (h' : Ring.LegalFrom (ops.foldl Ring.Op.record l) ops') : Ring.LegalFrom l (ops ++ ops') := by
  induction ops generalizing l with
  | nil => exact h'
  | cons op ops ih => exact ⟨h.1, ih h.2 h'⟩

theorem trans {l₁ : List TokenId} (h : Relinks l l₁) (h' : Relinks l₁ l') : Relinks l l' := by
  obtain ⟨ops, hops, rfl⟩ := h
  obtain ⟨ops', hops', rfl⟩ := h'
  exact ⟨ops ++ ops', legal_append hops hops', List.foldl_append.symm⟩

end Relinks

theorem relinks_opens {q : Request κ} {ok : Bool} (hb : h.Books) (ho : h.Opens q (h', ok)) :
    Relinks h.queue h'.queue := by
  cases ho with
  | refused d _ => exact .same Heap.queue_refuse
  | finished hbeg _ =>
    rw [Heap.queue_finish, hbeg.queue]
    exact .enqueue (hb.not_queued (Mode.not_finished_of_none hbeg.free))
  | parked hbeg _ _ =>
    rw [Heap.queue_park, hbeg.queue]
    exact .same rfl

theorem relinks_progresses (hb : h.Books) (hp : h.Progresses t h') :
    Relinks h.queue h'.queue := by
  cases hp with
  | idle _ => exact .same rfl
  | waits _ ht _ => exact .same ht.queue
  | finishes hm ht _ =>
    rw [Heap.queue_finish, ht.queue]
    exact .enqueue (hb.not_queued (Mode.not_finished_of_pending hm))

/-- Every step of the machine changes the queue by legal calls. -/
theorem relinks_step (hb : s.heap.Books) (hs : s.step act = some s') :
    Relinks s.heap.queue s'.heap.queue := by
  cases State.step_effect hs with
  | noted hn _ => exact .same hn.queue
  | created _ hn _ => exact .same hn.queue
  | opened _ _ ho _ => exact relinks_opens hb ho
  | progressed _ hn hp _ =>
    have h := relinks_progresses (hb.noted hn) hp
    rw [hn.queue] at h
    exact h
  | @destroyed id h₁ _ hn he _ =>
    have hq : s'.heap.queue = (h₁.unlink id).queue := by rw [he]; rfl
    rw [hq, Heap.queue_unlink, hn.queue]
    exact (Relinks.erase _ _).trans (Relinks.erase _ _)
  | completed _ _ _ _ he =>
    rw [he, State.queue_invoke]
    exact Relinks.erase _ _
  | fired _ _ _ _ _ he =>
    rw [he, State.queue_invoke]
    exact .same rfl
  | hungup _ _ _ _ _ _ he =>
    rw [he, State.queue_onCloseSocket]
    exact .same rfl

/-- The ring that the calls of a run built holds the completion queue. -/
theorem ring_of_reachable {p : State κ → Action κ → Prop} (hr : (proactor κ).Reachable p s) :
    ∃ ops r, Ring.LegalFrom [] ops ∧ Ring.new.run ops = some r ∧ r.Holds s.heap.queue := by
  have hq : Relinks [] s.heap.queue := by
    apply hr.invariant (I := fun s => Relinks [] s.heap.queue)
    · rintro s₀ ⟨mem, rfl⟩
      exact .same rfl
    · intro s₀ act s₁ hr₀ ih _ hs
      exact ih.trans (relinks_step (consistent_of_reachable hr₀).books hs)
  obtain ⟨ops, hops, hl⟩ := hq
  obtain ⟨r, hrun, hr⟩ := Ring.Holds.new.run hops
  rw [← hl] at hr
  exact ⟨ops, r, hops, hrun, hr⟩

end Refinement

end EchoBenchmark.Proactor
