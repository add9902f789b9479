import EchoBenchmark.Nio.Server

/-!
What the select loops write back. A `write` that leaves bytes in the buffer loses them, as the
buffer is cleared after it; what is written later no longer continues what was written before.
-/

namespace EchoBenchmark.Nio

variable {p : Program} {s s' : Server} {act : Action} {c j : ClientId} {bytes : List UInt8}
  {log : List Transfer}

/-- All that was read from a client. -/
def readFrom (c : ClientId) : List Transfer → List UInt8
  | [] => []
  | .read j bytes :: log => if j = c then readFrom c log ++ bytes else readFrom c log
  | .wrote _ _ :: log => readFrom c log

/-- All that was written to a client. -/
def writtenTo (c : ClientId) : List Transfer → List UInt8
  | [] => []
  | .wrote j bytes :: log => if j = c then writtenTo c log ++ bytes else writtenTo c log
  | .read _ _ :: log => writtenTo c log

@[simp] theorem readFrom_read_self :
    readFrom c (.read c bytes :: log) = readFrom c log ++ bytes := if_pos rfl

theorem readFrom_read_of_ne (hj : j ≠ c) : readFrom c (.read j bytes :: log) = readFrom c log :=
  if_neg hj

@[simp] theorem readFrom_wrote : readFrom c (.wrote j bytes :: log) = readFrom c log := rfl

@[simp] theorem writtenTo_wrote_self :
    writtenTo c (.wrote c bytes :: log) = writtenTo c log ++ bytes := if_pos rfl

theorem writtenTo_wrote_of_ne (hj : j ≠ c) :
    writtenTo c (.wrote j bytes :: log) = writtenTo c log := if_neg hj

@[simp] theorem writtenTo_read : writtenTo c (.read j bytes :: log) = writtenTo c log := rfl

namespace Server

/-- No byte that was read from the client is still to be written. -/
def caughtUp (s : Server) (c : ClientId) : Prop :=
  (writtenTo c s.log).length = (readFrom c s.log).length

instance : Decidable (s.caughtUp c) := inferInstanceAs (Decidable (_ = _))

/-- A write takes bytes only when no earlier write left any behind. -/
def losesNothing (s : Server) (act : Action) : Prop :=
  match act, s.pc with
  | .round _ (.got _) (.wrote n), .keys (.client c :: _) => n = 0 ∨ s.caughtUp c
  | _, _ => True

instance : Decidable (s.losesNothing act) := by
  unfold losesNothing
  split <;> infer_instance

/-- What was written is the beginning of what was read. -/
def Echoed (s : Server) : Prop := ∀ c, writtenTo c s.log <+: readFrom c s.log

/-- While `main` runs, its buffers are cleared between the rounds. -/
structure Faithful (s : Server) : Prop where
  cleared : s.pc ≠ .thrown → ∀ c b, s.attachment c = some b → b.position = 0
  echoed : s.Echoed

theorem Echoed.stored {b : Buffer UInt8} (he : s.Echoed) : (s.stored c b bytes).Echoed := by
  intro j
  by_cases hj : c = j
  · subst hj
    simp only [Server.stored, writtenTo_read, readFrom_read_self]
    exact (he c).trans (List.prefix_append _ _)
  · simp only [Server.stored, writtenTo_read, readFrom_read_of_ne hj]
    exact he j

/-- A first part of the bytes just read is written. -/
theorem Echoed.sent {b b' : Buffer UInt8} {n : Nat} (he : s.Echoed)
    (hn : n = 0 ∨ s.caughtUp c) : ((s.stored c b bytes).sent c b' (bytes.take n)).Echoed := by
  intro j
  by_cases hj : c = j
  · subst hj
    simp only [Server.sent, Server.stored, writtenTo_wrote_self, writtenTo_read, readFrom_wrote,
      readFrom_read_self]
    rcases hn with rfl | hup
    · rw [List.take_zero, List.append_nil]
      exact (he c).trans (List.prefix_append _ _)
    · have heq : writtenTo c s.log = readFrom c s.log := (he c).eq_of_length hup
      rw [heq]
      exact (List.prefix_append_right_inj _).mpr (List.take_prefix _ _)
  · simp only [Server.sent, Server.stored, writtenTo_wrote_of_ne hj, writtenTo_read,
      readFrom_wrote, readFrom_read_of_ne hj]
    exact he j

namespace Faithful

theorem thrown (he : s.Echoed) : Faithful s.throw := ⟨fun hpc => (hpc rfl).elim, he⟩

/-- The attachment of one key is replaced by a buffer at its start, or taken away. -/
theorem attach {b : Option (Buffer UInt8)} (hf : Faithful s) (hpc : s.pc ≠ .thrown)
    (ha : s'.attachment = Function.update s.attachment c b) (hb : ∀ x ∈ b, x.position = 0)
    (he : s'.Echoed) : Faithful s' := by
  refine ⟨fun _ j x hx => ?_, he⟩
  rw [ha] at hx
  by_cases hj : j = c
  · rw [hj, Function.update_self] at hx
    exact hb x hx
  · rw [Function.update_of_ne hj] at hx
    exact hf.cleared hpc j x hx

theorem acceptable (hf : Faithful s) (hpc : s.pc ≠ .thrown) (a : AcceptResult) :
    Faithful (s.acceptable p a) := by
  cases a with
  | client =>
    refine hf.attach hpc rfl ?_ hf.echoed
    rintro x ⟨⟩
    rfl
  | null | ioException => exact thrown hf.echoed

theorem readable {r : ReadResult} {w : WriteResult} (hf : Faithful s) (hpc : s.pc ≠ .thrown)
    (hn : ∀ bytes n, r = .got bytes → w = .wrote n → n = 0 ∨ s.caughtUp c)
    (hs : s.readable c r w = some s') : Faithful s' := by
  unfold Server.readable at hs
  split at hs
  · cases hs
    exact thrown hf.echoed
  · rename_i b hb
    have hpos := hf.cleared hpc c b hb
    cases r with
    | got bytes =>
      dsimp only at hs
      split at hs
      · rename_i hlen
        cases w with
        | wrote n =>
          dsimp only [Server.echo] at hs
          split at hs
          · rename_i hrem
            have hle : n ≤ bytes.length := by
              simpa [Buffer.put, hpos] using hrem
            cases hs
            rw [Buffer.front_flip_put_of_le hlen hpos hle]
            refine hf.attach hpc (b := some _) (by simp [Server.sent, Server.stored]; rfl) ?_
              (hf.echoed.sent (hn bytes n rfl rfl))
            rintro x ⟨⟩
            rfl
          · cases hs
        | ioException =>
          cases hs
          exact thrown hf.echoed.stored
      · cases hs
    | eof =>
      cases hs
      exact hf.attach hpc rfl (by simp) hf.echoed
    | ioException =>
      cases hs
      exact thrown hf.echoed

theorem step (hf : Faithful s) (hp : s.losesNothing act) (hs : s.step p act = some s') :
    Faithful s' := by
  cases act with
  | select keys =>
    dsimp only [Server.step] at hs
    split at hs
    · rename_i hsel
      have hpc : s.pc ≠ .thrown := by simp [hsel.1]
      split at hs <;> (cases hs; exact ⟨fun _ => hf.cleared hpc, hf.echoed⟩)
    · cases hs
  | round a r w =>
    dsimp only [Server.step, Server.round] at hs
    split at hs
    · rename_i hpc
      cases hs
      exact ⟨fun _ => hf.cleared (by simp [hpc]), hf.echoed⟩
    · rename_i rest hpc
      have hf' : Faithful { s with pc := .keys rest } :=
        ⟨fun _ => hf.cleared (by simp [hpc]), hf.echoed⟩
      cases hs
      exact hf'.acceptable (by simp) a
    · rename_i c rest hpc
      have hf' : Faithful { s with pc := .keys rest } :=
        ⟨fun _ => hf.cleared (by simp [hpc]), hf.echoed⟩
      refine hf'.readable (by simp) ?_ hs
      rintro bytes n rfl rfl
      unfold losesNothing at hp
      rw [hpc] at hp
      exact hp
    · cases hs
    · cases hs

end Faithful

theorem faithful_of_reachable (hr : (nio p).Reachable losesNothing s) : s.Faithful := by
  apply hr.invariant (I := Faithful)
  · rintro s₀ rfl
    exact ⟨fun _ _ _ hb => (Option.some_ne_none _ hb.symm).elim, fun _ => List.prefix_refl _⟩
  · intro s₀ act s₁ _ hf hp hs
    exact hf.step hp hs

end Server

/-- As long as no write that takes bytes follows one that left some behind, each client gets a
beginning of what it sent. -/
theorem echoes_prefix (hr : (nio p).Reachable Server.losesNothing s) (c : ClientId) :
    writtenTo c s.log <+: readFrom c s.log :=
  (Server.faithful_of_reachable hr).echoed c

set_option maxRecDepth 8192 in
/-- A client is served twice; its second write takes less than all. -/
theorem echoes_prefix_twice : ∃ s : Server, (nio java).Reachable Server.losesNothing s ∧
    s.log = [.wrote 0 [67], .read 0 [67, 68], .wrote 0 [65, 66], .read 0 [65, 66]] ∧
    writtenTo 0 s.log <+: readFrom 0 s.log := by
  obtain ⟨s, hr, hlog⟩ := Machine.exists_of_exec (M := nio java) (p := Server.losesNothing)
    (s := Server.initial)
    (l := [.select [.server], .round .client .eof (.wrote 0), .round .null .eof (.wrote 0),
      .select [.client 0], .round .null (.got [65, 66]) (.wrote 2),
      .round .null .eof (.wrote 0), .select [.client 0],
      .round .null (.got [67, 68]) (.wrote 1)])
    (f := fun s => s.log)
    (b := [.wrote 0 [67], .read 0 [67, 68], .wrote 0 [65, 66], .read 0 [65, 66]]) rfl rfl
  exact ⟨s, hr, hlog, echoes_prefix hr 0⟩

/-- Two bytes arrive of which one is written back, then a third arrives and is written. -/
def shortWrite : List Action :=
  [.select [.server], .round .client .eof (.wrote 0), .round .null .eof (.wrote 0),
    .select [.client 0], .round .null (.got [65, 66]) (.wrote 1),
    .round .null .eof (.wrote 0), .select [.client 0], .round .null (.got [67]) (.wrote 1)]

theorem lost_of_exec
    (hexec : ((nio p).exec Machine.free Server.initial shortWrite).map (·.log) =
      some [.wrote 0 [67], .read 0 [67], .wrote 0 [65], .read 0 [65, 66]]) :
    ∃ s : Server, (nio p).Reachable Machine.free s ∧ readFrom 0 s.log = [65, 66, 67] ∧
      writtenTo 0 s.log = [65, 67] ∧ ¬ writtenTo 0 s.log <+: readFrom 0 s.log := by
  obtain ⟨s, hr, hlog⟩ := Machine.exists_of_exec (M := nio p) (s := Server.initial) rfl hexec
  refine ⟨s, hr, ?_, ?_, ?_⟩
  · rw [hlog]
    rfl
  · rw [hlog]
    rfl
  · rw [hlog]
    decide

set_option maxRecDepth 8192 in
/-- In both programs the rest of a short write is lost, and the next write goes on after it. -/
theorem short_write_lost :
    (∃ s : Server, (nio java).Reachable Machine.free s ∧ readFrom 0 s.log = [65, 66, 67] ∧
      writtenTo 0 s.log = [65, 67] ∧ ¬ writtenTo 0 s.log <+: readFrom 0 s.log) ∧
    ∃ s : Server, (nio kotlin).Reachable Machine.free s ∧ readFrom 0 s.log = [65, 66, 67] ∧
      writtenTo 0 s.log = [65, 67] ∧ ¬ writtenTo 0 s.log <+: readFrom 0 s.log :=
  ⟨lost_of_exec rfl, lost_of_exec rfl⟩

end EchoBenchmark.Nio
