import EchoBenchmark.Log.Rotation

/-!
No rotation loses a record while one of the two names it tries is free: the one with the time, or,
where the path leaves room for it, the one that ends in `.1`.
-/

namespace EchoBenchmark.Log

variable {directory : Name → Option Name} {logFile name : Name} {c : Settings} {s s' : State}
  {a : Action} {t : Tm}

/-- Every record is in one file, once, the log file or one that a rotation named, and no rotation
took the name of another. -/
structure Kept (s : State) : Prop where
  defined : s.overrun = false
  once : ∀ w ∈ s.writes, ∃ name, (name = s.logger.logFile ∨ name ∈ s.rotated) ∧
    s.files.Once (.record w.record) name
  distinct : s.rotated.Nodup

/-- One of the two names for time `t` is free. -/
def HasRoom (files : Files Name Entry) (logFile : Name) (t : Tm) : Prop :=
  files (newLogFile logFile t) = none ∨
    (newLogFile logFile t).length + 2 ≤ MAX_FILENAME ∧
      files (newLogFile logFile t ++ ['.', '1']) = none

instance (files : Files Name Entry) (logFile : Name) (t : Tm) :
    Decidable (HasRoom files logFile t) :=
  inferInstanceAs (Decidable (_ ∨ _ ∧ _))

/-- A rotation before the record finds a free name. -/
def rotatesSafely (s : State) (a : Action) : Prop :=
  ∀ t ∈ (s.logger.checkRotate s.logSize a.now).1, HasRoom s.files s.logger.logFile t

instance (s : State) (a : Action) : Decidable (rotatesSafely s a) :=
  inferInstanceAs (Decidable (∀ t ∈ (s.logger.checkRotate s.logSize a.now).1, _))

theorem target_of_hasRoom {files : Files Name Entry} {logFile : Name}
    (h : HasRoom files logFile t) : ∃ name, target files logFile t = some name ∧
      files name = none := by
  unfold target
  dsimp only
  by_cases hs : (files (newLogFile logFile t)).isSome
  · rw [if_pos hs]
    rcases h with h | ⟨hlen, h⟩
    · rw [h] at hs
      cases hs
    · exact ⟨_, if_pos hlen, h⟩
  · rw [if_neg hs]
    exact ⟨_, rfl, by simpa using hs⟩

/-- The records are kept, and the next one is new. -/
structure Safe (s : State) : Prop where
  kept : Kept s
  serials : ∀ w ∈ s.writes, w.record.serial < s.writes.length
  absent : ∀ r : Record, s.writes.length ≤ r.serial → s.files.Absent (.record r)
  file : (s.files s.logger.logFile).isSome
  named : ∀ name ∈ s.rotated, (s.files name).isSome ∧ name ≠ s.logger.logFile

namespace Safe

theorem opened {g : Logger} {files : Files Name Entry} (h : Old files) :
    Safe (.opened g files) where
  kept := ⟨rfl, fun w hw => (List.not_mem_nil hw).elim, List.nodup_nil⟩
  serials w hw := by cases hw
  absent r _ := (h r).create
  file := Files.create_self
  named name hn := by cases hn

/-- The files between a rotation and the record after it, or without a rotation. -/
theorem append {files : Files Name Entry} {rotated : List Name} (h : Safe s)
    (honce : ∀ w ∈ s.writes, ∃ name, (name = s.logger.logFile ∨ name ∈ rotated) ∧
      files.Once (.record w.record) name)
    (hnodup : rotated.Nodup)
    (habsent : ∀ r : Record, s.writes.length ≤ r.serial → files.Absent (.record r))
    (hfile : (files s.logger.logFile).isSome)
    (hnamed : ∀ name ∈ rotated, (files name).isSome ∧ name ≠ s.logger.logFile)
    (hfiles : (s.write a.now a.bytes).files =
      files.append s.logger.logFile (.record (s.next a.now a.bytes).record))
    (hrot : (s.write a.now a.bytes).rotated = rotated)
    (hover : (s.write a.now a.bytes).overrun = s.overrun) : Safe (s.write a.now a.bytes) := by
  have hname : (s.write a.now a.bytes).logger.logFile = s.logger.logFile := by
    rw [logger_write, logFile_checkRotate]
  have hlen : (s.write a.now a.bytes).writes.length = s.writes.length + 1 := by
    rw [writes_write, List.length_cons]
  refine ⟨⟨?_, ?_, ?_⟩, ?_, ?_, ?_, ?_⟩
  · rw [hover]
    exact h.kept.defined
  · rw [writes_write, hfiles, hrot, hname]
    intro w hw
    rcases List.mem_cons.mp hw with rfl | hw
    · exact ⟨_, .inl rfl, (habsent _ (Nat.le_refl _)).once_append hfile⟩
    · obtain ⟨name, hn, hx⟩ := honce w hw
      refine ⟨name, hn, hx.append_other ?_⟩
      intro he
      have hlt := h.serials w hw
      rw [Entry.record.inj he] at hlt
      exact Nat.lt_irrefl _ hlt
  · rw [hrot]
    exact hnodup
  · rw [hlen, writes_write]
    intro w hw
    rcases List.mem_cons.mp hw with rfl | hw
    · exact Nat.lt_succ_self _
    · exact Nat.lt_succ_of_lt (h.serials w hw)
  · rw [hlen, hfiles]
    intro r hle
    refine (habsent r (by omega)).append ?_
    intro he
    rw [Entry.record.inj he] at hle
    exact Nat.not_succ_le_self _ hle
  · obtain ⟨l, hl⟩ := Option.isSome_iff_exists.mp hfile
    rw [hname, hfiles, Files.append_self hl]
    rfl
  · rw [hrot, hname, hfiles]
    intro name hn
    obtain ⟨hsome, hne⟩ := hnamed name hn
    rw [Files.append_other hne]
    exact ⟨hsome, hne⟩

theorem step (h : Safe s) (hg : rotatesSafely s a)
    (hs : (logger directory logFile c).step s a = some s') : Safe s' := by
  obtain ⟨ho, rfl⟩ := step_eq hs
  cases writes_cases a.now a.bytes ho with
  | stays _ hf hr hover =>
    exact h.append h.kept.once h.kept.distinct h.absent h.file h.named hf hr hover
  | @rotates t name _ hc ht hf hr hover =>
    obtain ⟨name', ht', hfree⟩ := target_of_hasRoom (hg t hc)
    have hne : s.logger.logFile ≠ name := (target_ne h.file ht).symm
    cases ht.symm.trans ht'
    have hnew : ∀ b, (s.files b).isSome → b ≠ name := by
      rintro b hb rfl
      rw [hfree] at hb
      cases hb
    refine h.append ?_ ?_ ?_ Files.create_self ?_ hf hr hover
    · intro w hw
      obtain ⟨b, hb, hx⟩ := h.kept.once w hw
      by_cases hbl : b = s.logger.logFile
      · subst hbl
        exact ⟨name, .inr List.mem_cons_self, (hx.rename_from hne).create⟩
      · obtain ⟨l, hl, -⟩ := hx.count
        have hbn := hnew b (by rw [hl]; rfl)
        refine ⟨b, .inr (List.mem_cons_of_mem _ ?_), (hx.rename_other hbl hbn).create⟩
        exact hb.resolve_left hbl
    · refine List.nodup_cons.mpr ⟨?_, h.kept.distinct⟩
      intro hmem
      exact hnew name (h.named name hmem).1 rfl
    · intro r hle
      exact (h.absent r hle).rename.create
    · intro b hb
      rcases List.mem_cons.mp hb with rfl | hb
      · rw [Files.create_other hne.symm, Files.rename_to hne]
        exact ⟨h.file, hne.symm⟩
      · obtain ⟨hsome, hbl⟩ := h.named b hb
        rw [Files.create_other hbl, Files.rename_other hbl (hnew b hsome)]
        exact ⟨hsome, hbl⟩
  | @overruns t _ hc ht _ _ _ =>
    obtain ⟨name, ht', -⟩ := target_of_hasRoom (hg t hc)
    rw [ht] at ht'
    cases ht'

end Safe

/-- In a run whose rotations all find a free name, every record written is in one file, once, and
no rotation takes the name of an earlier one. -/
theorem records_kept (hr : (logger directory logFile c).Reachable rotatesSafely s) : Kept s := by
  have hs : Safe s := by
    apply hr.invariant
    · rintro s₀ ⟨g, files, -, hold, rfl⟩
      exact Safe.opened hold
    · intro s₀ a s₁ _ h hg hs
      exact h.step hg hs
  exact hs.kept

def oneByte : Settings := ⟨.debug, 1, 8192, false, false, false, false⟩

/-- Records of two bytes, all in one second. -/
def record (serial : Nat) : Record := ⟨serial, january 1 12 0 0, ['o', 'k']⟩

def burst (n : Nat) : List Action := List.replicate n ⟨(record 0).now, (record 0).bytes⟩

theorem records_kept_twoRotations :
    ∃ s, (logger tmp tmpLog oneByte).Reachable rotatesSafely s ∧
      s.writes.map Write.rotated = [true, true, false] ∧ Kept s := by
  obtain ⟨s, hr, hw⟩ := Machine.exists_of_exec (M := logger tmp tmpLog oneByte)
    (p := rotatesSafely) (s := openedTmp oneByte) (l := burst 3)
    (f := fun s => s.writes.map Write.rotated) (b := [true, true, false])
    (init_openedTmp _) (by decide)
  exact ⟨s, hr, hw, records_kept hr⟩

/-- The log file and the rotated ones, the newest first. -/
def contents (s : State) : List (Option (List Entry)) :=
  s.files s.logger.logFile :: s.rotated.map s.files

/-- The third rotation of a second takes the name of the second one, and its record is gone. -/
theorem third_rotation_overwrites :
    ∃ s, (logger tmp tmpLog oneByte).Reachable localTimes s ∧
      s.writes.map Write.record = [record 3, record 2, record 1, record 0] ∧
      contents s = [some [.record (record 3)], some [.record (record 2)],
        some [.record (record 2)], some [.record (record 0)]] ∧ ¬ Kept s := by
  obtain ⟨s, hr, hf⟩ := Machine.exists_of_exec (M := logger tmp tmpLog oneByte)
    (p := localTimes) (s := openedTmp oneByte) (l := burst 4)
    (f := fun s => (s.writes.map Write.record, contents s))
    (b := ([record 3, record 2, record 1, record 0], [some [.record (record 3)],
      some [.record (record 2)], some [.record (record 2)], some [.record (record 0)]]))
    (init_openedTmp _) (by decide)
  obtain ⟨hrec, hfiles⟩ := Prod.mk.inj hf
  refine ⟨s, hr, hrec, hfiles, ?_⟩
  intro hk
  have hmem : record 1 ∈ s.writes.map Write.record := by
    rw [hrec]
    decide
  obtain ⟨w, hw, hwr⟩ := List.mem_map.mp hmem
  obtain ⟨name, hname, hx⟩ := hk.once w hw
  obtain ⟨l, hl, hcount⟩ := hx.count
  have hin : some l ∈ contents s := by
    rw [← hl]
    rcases hname with rfl | hname
    · exact List.mem_cons_self
    · exact List.mem_cons_of_mem _ (List.mem_map_of_mem hname)
  rw [hfiles] at hin
  rw [hwr] at hcount
  simp only [List.mem_cons, Option.some.injEq, List.not_mem_nil, or_false] at hin
  rcases hin with rfl | rfl | rfl | rfl <;> exact absurd hcount (by decide)

end EchoBenchmark.Log
