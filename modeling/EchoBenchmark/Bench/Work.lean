import EchoBenchmark.Bench.Servers
import Mathlib.Algebra.BigOperators.Group.Finset.Piecewise
import Mathlib.Algebra.BigOperators.Ring.Finset
import Mathlib.Algebra.Order.BigOperators.Group.Finset

/-!
However the bytes are cut into pieces: what the clients of the tester transfer is paid for by the
successes that are counted, but for the rounds that the run ends in.
-/

namespace EchoBenchmark.Bench

section Work

variable {σ α β : Type*} {V : Served σ α β} {count id : Nat} {data : List β} {s s' : State σ β}
  {act : Action α}

/-- A client transfers bytes. -/
def Action.transfers : Action α → Nat
  | .put _ _ | .get _ _ => 1
  | .tester _ | .server _ => 0

/-- All bytes that the clients have put in and taken out. -/
def State.moved (count : Nat) (s : State σ β) : Nat :=
  ∑ id ∈ Finset.range count, ((s.put id).length + (s.got id).length)

theorem moved_of_more (hid : id < count)
    (hle : ∀ j, (s.put j).length + (s.got j).length ≤ (s'.put j).length + (s'.got j).length)
    (hlt : (s.put id).length + (s.got id).length < (s'.put id).length + (s'.got id).length) :
    s.moved count + 1 ≤ s'.moved count :=
  Finset.sum_lt_sum (fun j _ => hle j) ⟨id, Finset.mem_range.mpr hid, hlt⟩

/-- A transfer moves a byte at least. -/
theorem moved_of_acts (hi : Flow V count data s) (ha : Acts V count data s act s') :
    s.moved count + act.transfers ≤ s'.moved count := by
  cases ha with
  | handles _ _ | passes _ _ | serves _ _ => exact Nat.le_refl _
  | @puts id n hp hn hle =>
    have hid : id < count := hi.lt_of_pending (by simp [hp])
    have hput : ((s.wrote data id n).put id).length = (s.put id).length + n := by
      simp only [State.wrote, Function.update_self, List.length_append, List.length_take,
        List.length_drop]
      omega
    apply moved_of_more hid
    · intro j
      by_cases hj : j = id
      · rw [hj, hput]
        exact Nat.add_le_add_right (Nat.le_add_right _ _) _
      · simp [State.wrote, hj]
    · rw [hput]
      exact Nat.add_lt_add_right (Nat.lt_add_of_pos_right hn) _
  | @gets id n hp hn hle hfits =>
    have hid : id < count := hi.lt_of_pending (by simp [hp])
    have hgot : ((s.took id ((s.unread V id).take n)).got id).length =
        (s.got id).length + n := by
      simp only [State.took, Function.update_self, List.length_append, List.length_take]
      omega
    apply moved_of_more hid
    · intro j
      by_cases hj : j = id
      · rw [hj, hgot]
        exact Nat.add_le_add_left (Nat.le_add_right _ _) _
      · simp [State.took, hj]
    · rw [hgot]
      exact Nat.add_lt_add_left (Nat.lt_add_of_pos_right hn) _

/-- Each entry is one of at most one client. -/
theorem sum_counted_le (echoes : List (Nat × List β)) (count : Nat) :
    ∑ id ∈ Finset.range count, echoes.countP (fun e => e.1 == id) ≤ echoes.length := by
  induction echoes with
  | nil => simp
  | cons e echoes ih =>
    have hone : ∑ id ∈ Finset.range count, (if (e.1 == id) = true then 1 else 0) ≤ 1 := by
      simp only [beq_iff_eq, Finset.sum_ite_eq]
      split <;> omega
    simp only [List.countP_cons, Finset.sum_add_distrib, List.length_cons]
    omega

/-- Two transfers of the buffer for each round that a client has completed, and for its last. -/
theorem moved_le (hi : Flow V count data s)
    (hsent : ∀ id, (V.sent id s.server).Sublist (V.received id s.server)) :
    s.moved count ≤ 2 * data.length * (s.tester.success + count) := by
  have hclient : ∀ id ∈ Finset.range count, (s.put id).length + (s.got id).length ≤
      2 * data.length * (s.counted id + 1) := by
    intro id hid
    have hgot := (hi.got_sublist hsent (Finset.mem_range.mp hid)).length_le
    have hput := (hi.place id).put_isPrefix.length_le
    rw [length_rounds] at hput
    have hmul : 2 * data.length * (s.counted id + 1) =
        2 * ((s.counted id + 1) * data.length) := by
      rw [Nat.mul_assoc, Nat.mul_comm data.length]
    omega
  have hrounds : ∑ id ∈ Finset.range count, (s.counted id + 1) ≤ s.tester.success + count := by
    have hones : ∑ _id ∈ Finset.range count, 1 = count := by simp
    rw [Finset.sum_add_distrib, hones, ← hi.total]
    exact Nat.add_le_add_right (sum_counted_le s.echoes count) _
  have hsum := Finset.sum_le_sum hclient
  rw [← Finset.mul_sum] at hsum
  exact hsum.trans (Nat.mul_le_mul_left _ hrounds)

variable [DecidableEq β]

/-- What the clients have transferred in a run from its start, two buffers for each success and each
client at most. -/
def Paced (V : Served σ α β) : Prop :=
  ∀ count data s, ((bench V count data).counting Action.transfers).Reachable
    (fun s => obeys V s.1) s → s.2 ≤ 2 * data.length * (s.1.tester.success + count)

theorem Thins.paced (hthins : Thins V) : Paced V := by
  intro count data s hr
  obtain ⟨hreach, hle⟩ := Machine.counting_le (p := obeys V) (μ := State.moved count)
    (fun _ _ _ hr _ hs => moved_of_acts (flow_of_reachable hthins hr) (acts_of_step hs)) hr
  exact hle.trans
    (moved_le (flow_of_reachable hthins hreach) (hthins.sent _ (server_reachable hreach)))

end Work

/-- In every run of the tester against one of these servers, however the connections cut the bytes
into pieces, the transfers of its clients are paid for by the successes. -/
theorem transfers_paid (conn : Nat → Nat) :
    Paced (aio conn) ∧ Paced (boost conn) ∧ Paced (boostCoro conn) ∧ Paced (go conn) ∧
      Paced (dotnet conn) ∧ (∀ p, Paced (streams conn p)) ∧ ∀ p, Paced (nio conn p) :=
  ⟨(thins_aio conn).paced, (thins_boost conn).paced, (thins_boostCoro conn).paced,
    (thins_go conn).paced, (thins_dotnet conn).paced, fun p => (thins_streams conn p).paced,
    fun p => (thins_nio conn p).paced⟩

end EchoBenchmark.Bench
