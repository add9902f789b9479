import EchoBenchmark.Nio.Faithful

/-!
What the select loops do to the streams of a client, whatever the writes take: a round adds bytes to
what was read and a first part of the same bytes to what was written. What is left out stays so.
-/

namespace EchoBenchmark.Nio

variable {p : Program} {s s' t : Server} {act : Action} {c j : ClientId} {bytes : List UInt8}

namespace Server

/-- While `main` runs, its buffers are cleared between the rounds. -/
def Cleared (s : Server) : Prop :=
  s.pc ≠ .thrown → ∀ c b, s.attachment c = some b → b.position = 0

/-- What a step adds to the history. -/
inductive Echoes (s s' : Server) : Prop
  | quiet : s'.log = s.log → Echoes s s'
  | echoes {c : ClientId} {bytes : List UInt8} (n : Nat) :
      s'.log = .wrote c (bytes.take n) :: .read c bytes :: s.log → Echoes s s'
  | throws {c : ClientId} {bytes : List UInt8} : s'.log = .read c bytes :: s.log → Echoes s s'

theorem Cleared.throw : s.throw.Cleared := fun hpc => (hpc rfl).elim

theorem Cleared.attach {b : Option (Buffer UInt8)} (h : s.Cleared) (hpc : s.pc ≠ .thrown)
    (ha : s'.attachment = Function.update s.attachment c b) (hb : ∀ x ∈ b, x.position = 0) :
    s'.Cleared := by
  intro _ j x hx
  rw [ha] at hx
  by_cases hj : j = c
  · rw [hj, Function.update_self] at hx
    exact hb x hx
  · rw [Function.update_of_ne hj] at hx
    exact h hpc j x hx

theorem echoes_of_readable {r : ReadResult} {w : WriteResult} (h : s.Cleared)
    (hpc : s.pc ≠ .thrown) (hs : s.readable c r w = some s') : s'.Cleared ∧ Echoes s s' := by
  unfold readable at hs
  split at hs
  · cases hs
    exact ⟨Cleared.throw, .quiet rfl⟩
  · rename_i b hb
    have hpos := h hpc c b hb
    cases r with
    | got bytes =>
      dsimp only at hs
      split at hs
      · rename_i hlen
        cases w with
        | wrote n =>
          dsimp only [echo] at hs
          split at hs
          · rename_i hrem
            have hle : n ≤ bytes.length := by simpa [Buffer.put, hpos] using hrem
            have hfront := Buffer.front_flip_put_of_le hlen hpos hle
            cases hs
            rw [hfront]
            refine ⟨?_, .echoes (c := c) n rfl⟩
            refine h.attach hpc (b := some _) (by simp [sent, stored]; rfl) ?_
            rintro x ⟨⟩
            rfl
          · cases hs
        | ioException =>
          cases hs
          exact ⟨Cleared.throw, .throws rfl⟩
      · cases hs
    | eof =>
      cases hs
      exact ⟨h.attach (b := none) hpc rfl (by simp), .quiet rfl⟩
    | ioException =>
      cases hs
      exact ⟨Cleared.throw, .quiet rfl⟩

theorem echoes_of_step (h : s.Cleared) (hs : s.step p act = some s') :
    s'.Cleared ∧ Echoes s s' := by
  cases act with
  | select keys =>
    dsimp only [Server.step] at hs
    split at hs
    · rename_i hsel
      have hpc : s.pc ≠ .thrown := by simp [hsel.1]
      split at hs
      · cases hs
        exact ⟨h, .quiet rfl⟩
      · cases hs
        exact ⟨fun _ => h hpc, .quiet rfl⟩
    · cases hs
  | round a r w =>
    dsimp only [Server.step, Server.round] at hs
    split at hs
    · rename_i hpc
      cases hs
      exact ⟨fun _ => h (by simp [hpc]), .quiet rfl⟩
    · rename_i rest hpc
      cases hs
      have hnext : Cleared { s with pc := .keys rest } := fun _ => h (by simp [hpc])
      cases a with
      | client =>
        refine ⟨hnext.attach (c := s.clients) (b := some (Buffer.allocate p.bufferSize 0))
          (by simp) rfl ?_, .quiet rfl⟩
        rintro x ⟨⟩
        rfl
      | null | ioException => exact ⟨Cleared.throw, .quiet rfl⟩
    · rename_i c rest hpc
      have hnext : Cleared { s with pc := .keys rest } := fun _ => h (by simp [hpc])
      obtain ⟨hcleared, he⟩ := echoes_of_readable hnext (by simp) hs
      refine ⟨hcleared, ?_⟩
      cases he with
      | quiet hlog => exact .quiet hlog
      | echoes n hlog => exact .echoes n hlog
      | throws hlog => exact .throws hlog
    · cases hs
    · cases hs

theorem cleared_of_reachable (hr : (nio p).Reachable Machine.free s) : s.Cleared := by
  apply hr.invariant (I := Cleared)
  · rintro s₀ rfl _ c b hb
    cases hb
  · intro s₀ act s₁ _ h _ hs
    exact (echoes_of_step h hs).1

/-- Bytes are added to what was read, and a first part of them to what was written. -/
theorem Echoes.grow (h : Echoes s s') (c : ClientId) : ∃ bytes n,
    readFrom c s'.log = readFrom c s.log ++ bytes ∧
      writtenTo c s'.log = writtenTo c s.log ++ bytes.take n := by
  have hnone : ∀ l : List UInt8, l = l ++ [] := fun l => (List.append_nil l).symm
  cases h with
  | quiet hlog =>
    rw [hlog]
    exact ⟨[], 0, hnone _, hnone _⟩
  | @echoes j bytes n hlog =>
    rw [hlog]
    by_cases hj : j = c
    · subst hj
      exact ⟨bytes, n, by simp, by simp⟩
    · refine ⟨[], 0, ?_, ?_⟩
      · rw [readFrom_wrote, readFrom_read_of_ne hj]
        exact hnone _
      · rw [writtenTo_wrote_of_ne hj, writtenTo_read]
        exact hnone _
  | @throws j bytes hlog =>
    rw [hlog]
    by_cases hj : j = c
    · subst hj
      exact ⟨bytes, 0, by simp, by simp⟩
    · refine ⟨[], 0, ?_, ?_⟩
      · rw [readFrom_read_of_ne hj]
        exact hnone _
      · rw [writtenTo_read]
        exact hnone _

/-- What was written is what was read with some of it left out. -/
theorem sublist_of_reachable (hr : (nio p).Reachable Machine.free s) (c : ClientId) :
    (writtenTo c s.log).Sublist (readFrom c s.log) := by
  apply hr.invariant (I := fun s => (writtenTo c s.log).Sublist (readFrom c s.log))
  · rintro s₀ rfl
    exact List.Sublist.refl _
  · intro s₀ act s₁ hr hsub _ hs
    obtain ⟨bytes, n, hread, hwritten⟩ :=
      (echoes_of_step (cleared_of_reachable hr) hs).2.grow c
    rw [hread, hwritten]
    exact hsub.append (List.take_sublist n bytes)

/-- A byte that was left out is never made up for. -/
theorem left_out_of_step (hr : (nio p).Reachable Machine.free s) (hs : s.step p act = some s')
    (c : ClientId) (hlost : (writtenTo c s.log).length < (readFrom c s.log).length) :
    (writtenTo c s'.log).length < (readFrom c s'.log).length := by
  obtain ⟨bytes, n, hread, hwritten⟩ := (echoes_of_step (cleared_of_reachable hr) hs).2.grow c
  rw [hread, hwritten, List.length_append, List.length_append, List.length_take]
  omega

end Server

end EchoBenchmark.Nio
