import EchoBenchmark.Log.Basic

/-!
When the logger rotates its file, and when its settings ask for it. The two differ because `init`
passes its arguments on one place too early, because a `rotateSize` of 0 is compared like any other,
and because the comparison is a signed one.
-/

namespace EchoBenchmark.Log

variable {directory : Name → Option Name} {logFile : Name} {c : Settings} {s s' : State} {w : Write}
  {a : Action} {now : Tm} {bytes : List Char}

namespace Write

/-- The record before this one was of another hour. -/
def NewHour (w : Write) : Prop := ∃ t, w.last = some t ∧ t.otherHour w.record.now = true

/-- The record before this one was of another day. -/
def NewDay (w : Write) : Prop := ∃ t, w.last = some t ∧ t.otherDay w.record.now = true

theorem NewDay.newHour (h : w.NewDay) : w.NewHour := by
  obtain ⟨t, ht, hd⟩ := h
  exact ⟨t, ht, Tm.otherHour_of_otherDay hd⟩

end Write

/-- What the settings ask for before a record. -/
def Asked (c : Settings) (w : Write) : Prop :=
  c.hourly = true ∧ w.NewHour ∨ c.hourly = false ∧ c.daily = true ∧ w.NewDay ∨
    0 < c.rotateSize.toNat ∧ c.rotateSize.toNat < w.size

/-- What happens before a record: `hourly` comes out as `daily`. -/
def Happens (c : Settings) (w : Write) : Prop :=
  c.hourly = true ∧ w.NewDay ∨
    (c.rotateSize ≠ 0 ∨ c.hourly = true) ∧ offT c.rotateSize < (w.size : Int)

/-- The records for which that makes no difference. -/
def Agrees (c : Settings) (w : Write) : Prop :=
  if c.rotateSize.toNat < 2 ^ 63 then
    if c.hourly = true then
      (w.NewHour → w.NewDay ∨ c.rotateSize.toNat < w.size) ∧
        (¬ w.NewHour → 0 < c.rotateSize.toNat ∨ w.size = 0)
    else c.daily = true → w.NewDay → 0 < c.rotateSize.toNat ∧ c.rotateSize.toNat < w.size
  else
    c.hourly = true ∧ w.NewHour ∨ c.hourly = false ∧ c.daily = true ∧ w.NewDay ∨
      c.rotateSize.toNat < w.size

theorem rotateSize_ne_zero_iff : c.rotateSize ≠ 0 ↔ 0 < c.rotateSize.toNat := by
  rw [Nat.pos_iff_ne_zero, ne_eq, ne_eq, ← UInt64.toNat_inj, UInt64.toNat_zero]

theorem agrees_iff : Agrees c w ↔ (Happens c w ↔ Asked c w) := by
  have hday : w.NewDay → w.NewHour := Write.NewDay.newHour
  unfold Agrees Happens Asked
  rw [rotateSize_ne_zero_iff, offT_eq]
  have hlt := c.rotateSize.toNat_lt
  generalize c.rotateSize.toNat = n at hlt ⊢
  by_cases hn : n < 2 ^ 63
  · rw [if_pos hn, if_pos hn, Int.ofNat_lt]
    cases c.hourly with
    | true =>
      rw [if_pos rfl]
      by_cases hh : w.NewHour
      · simp [hh]
      · have hd : ¬ w.NewDay := fun hd => hh (hday hd)
        simp [hh, hd]
        omega
    | false =>
      simp only [Bool.false_eq_true, if_false, false_and, false_or, or_false, true_and]
      tauto
  · rw [if_neg hn, if_neg hn]
    have hpos : 0 < n := by omega
    have hneg : (n : Int) - 2 ^ 64 < (w.size : Int) := by omega
    rw [eq_true hneg]
    cases c.hourly <;> simp [hpos]

/-- The logger has the settings that `init` gave it, remembers the time of the last record where it
needs it, and has rotated as it does. -/
structure Configured (c : Settings) (s : State) : Prop where
  logger : ∃ path, path ≠ [] ∧ s.logger =
    { ({ Logger.new with logFile := path } : Logger).initFd c.level c.rotateSize c.logBufSize
        c.enableLock c.daily c.hourly false with prev := s.logger.prev }
  prev : c.rotateSize ≠ 0 ∨ c.hourly = true → s.logger.prev = s.last.getD Tm.unset
  times : ∀ t, s.last = some t → t.Local
  file : (s.files s.logger.logFile).isSome
  past : ∀ w ∈ s.writes, w.rotated = true ↔ Happens c w

namespace Configured

variable (hc : Configured c s)
include hc

theorem logFile_ne_nil : s.logger.logFile ≠ [] := by
  obtain ⟨path, hpath, he⟩ := hc.logger
  rw [he]
  exact hpath

theorem logSize_eq (now : Tm) (bytes : List Char) : s.logSize = some (s.next now bytes).size := by
  obtain ⟨l, hl⟩ := Option.isSome_iff_exists.mp hc.file
  simp [State.next, State.logSize, hl]

/-- The decision, with the fields as `init` left them. -/
theorem checkRotate_eq (now : Tm) (bytes : List Char) : s.logger.checkRotate s.logSize now =
    if c.rotateSize = 0 ∧ c.hourly = false then (none, s.logger)
    else if c.hourly = true ∧ s.logger.prev.mday ≠ -1 ∧ s.logger.prev.otherDay now = true then
      (some s.logger.prev, s.logger.copyTm now)
    else if offT c.rotateSize < ((s.next now bytes).size : Int) then
      (some now, s.logger.copyTm now)
    else (none, s.logger.copyTm now) := by
  have hname := hc.logFile_ne_nil
  obtain ⟨path, -, he⟩ := hc.logger
  have hsize : s.logger.rotateSize = c.rotateSize := by
    rw [he]
    rfl
  have hdaily : s.logger.daily = c.hourly := by
    rw [he]
    rfl
  have hhourly : s.logger.hourly = false := by
    rw [he]
    rfl
  rw [hc.logSize_eq now bytes]
  simp only [Logger.checkRotate, hname, hsize, hdaily, hhourly, false_or, and_true, true_and,
    Bool.false_eq_true, false_and, if_false, gt_iff_lt]

theorem rotated_next_iff :
    (s.next now bytes).rotated = true ↔ Happens c (s.next now bytes) := by
  have hrot : (s.next now bytes).rotated = (s.logger.checkRotate s.logSize now).1.isSome := rfl
  rw [hrot, hc.checkRotate_eq now bytes, Happens]
  by_cases hon : c.rotateSize = 0 ∧ c.hourly = false
  · rw [if_pos hon]
    simp [hon.1, hon.2]
  · rw [if_neg hon]
    have hset : c.rotateSize ≠ 0 ∨ c.hourly = true := by
      by_contra hno
      simp only [not_or, not_not, Bool.not_eq_true] at hno
      exact hon hno
    have hday : s.logger.prev.mday ≠ -1 ∧ s.logger.prev.otherDay now = true ↔
        (s.next now bytes).NewDay := by
      rw [hc.prev hset]
      cases hl : s.last with
      | none => simp [Write.NewDay, State.next, hl, Tm.unset]
      | some t =>
        have hmday := (hc.times t hl).2.1.1
        have hne : t.mday ≠ -1 := by omega
        simp [Write.NewDay, State.next, hl, hne]
    rw [← hday]
    by_cases hn : c.hourly = true ∧ s.logger.prev.mday ≠ -1 ∧ s.logger.prev.otherDay now = true
    · rw [if_pos hn]
      exact iff_of_true rfl (.inl hn)
    · rw [if_neg hn]
      split
      · rename_i hlt
        simp [hset, hlt]
      · rename_i hlt
        simp [hn, hlt]

theorem file_write (ho : s.overrun = false) :
    ((s.write now bytes).files s.logger.logFile).isSome := by
  obtain ⟨l, hl⟩ := Option.isSome_iff_exists.mp hc.file
  cases writes_cases now bytes ho with
  | stays _ hf _ _ =>
    rw [hf, Files.append_self hl]
    rfl
  | rotates _ _ _ hf _ _ =>
    obtain ⟨l', hl'⟩ := Option.isSome_iff_exists.mp (Files.create_self
      (f := s.files.rename s.logger.logFile _) (a := s.logger.logFile))
    rw [hf, Files.append_self hl']
    rfl
  | overruns _ _ _ hf _ _ =>
    rw [hf]
    exact hc.file

theorem step (hl : localTimes s a) (hs : (Log.logger directory logFile c).step s a = some s') :
    Configured c s' := by
  obtain ⟨ho, rfl⟩ := step_eq hs
  have hlast : (s.write a.now a.bytes).last = some a.now := by
    rw [State.last, writes_write]
    rfl
  have hcopy : (s.logger.checkRotate s.logSize a.now).2 = s.logger ∧ c.rotateSize = 0 ∧
      c.hourly = false ∨ (s.logger.checkRotate s.logSize a.now).2 = s.logger.copyTm a.now := by
    rw [hc.checkRotate_eq a.now a.bytes]
    split
    · rename_i hoff
      exact .inl ⟨rfl, hoff⟩
    split
    · exact .inr rfl
    split <;> exact .inr rfl
  refine ⟨?_, ?_, ?_, ?_, ?_⟩
  · rw [logger_write]
    obtain ⟨path, hpath, hg⟩ := hc.logger
    refine ⟨path, hpath, ?_⟩
    rcases hcopy with ⟨he, -⟩ | he
    · rw [he]
      exact hg
    · rw [he, Logger.copyTm, hg]
  · intro hset
    rw [logger_write, hlast]
    rcases hcopy with ⟨-, hz, hh⟩ | he
    · rcases hset with hset | hset
      · exact (hset hz).elim
      · rw [hh] at hset
        cases hset
    · rw [he]
      rfl
  · intro t ht
    rw [hlast] at ht
    cases ht
    exact hl
  · rw [logger_write, logFile_checkRotate]
    exact hc.file_write ho
  · rw [writes_write]
    intro w hw
    rcases List.mem_cons.mp hw with rfl | hw
    · exact hc.rotated_next_iff
    · exact hc.past w hw

end Configured

theorem configured_of_reachable
    (hr : (Log.logger directory logFile c).Reachable localTimes s) :
    Configured c s := by
  apply hr.invariant
  · rintro s₀ ⟨g, files, hg, -, rfl⟩
    obtain ⟨path, hpath, rfl⟩ := Logger.init_eq hg
    exact
      { logger := ⟨path, hpath, rfl⟩
        prev := fun _ => rfl
        times := fun t ht => by cases ht
        file := Files.create_self
        past := fun w hw => by cases hw }
  · intro s₀ a s₁ _ hc hl hs
    exact hc.step hl hs

/-! ### Records that share a file -/

/-- Two records of one file have the same key. -/
def SameKey {κ : Type} (key : Tm → κ) : Entry → Entry → Prop
  | .record r, .record r' => key r.now = key r'.now
  | _, _ => True

/-- The file was rotated before every record of a new key. -/
def Separates {κ : Type} (key : Tm → κ) (s : State) : Prop :=
  ∀ w ∈ s.writes, ∀ t, w.last = some t → key t ≠ key w.record.now → w.rotated = true

/-- Every file has records of one key, and the log file of the last one. -/
structure Uniform {κ : Type} (key : Tm → κ) (s : State) : Prop where
  within : s.files.Within (SameKey key)
  current : s.overrun = false → ∀ l, s.files s.logger.logFile = some l → ∀ r, .record r ∈ l →
    ∃ t, s.last = some t ∧ key r.now = key t

section Uniform

variable {κ : Type} {key : Tm → κ} {name : Name}

theorem sameKey_append {f : Files Name Entry} {r : Record} (hw : f.Within (SameKey key))
    (hcur : ∀ l, f name = some l → ∀ r', .record r' ∈ l → key r'.now = key r.now) :
    (f.append name (.record r)).Within (SameKey key) := by
  refine hw.append rfl ?_
  intro l hl x hx
  cases x with
  | old n => exact ⟨trivial, trivial⟩
  | record r' =>
    have hk := hcur l hl r' hx
    exact ⟨hk, hk.symm⟩

/-- After an append the log file holds the new record and what it held before. -/
theorem current_append {f : Files Name Entry} {r r' : Record} {l : List Entry}
    (hcur : ∀ l, f name = some l → ∀ r', .record r' ∈ l → key r'.now = key r.now)
    (hl : f.append name (.record r) name = some l) (hr' : .record r' ∈ l) :
    key r'.now = key r.now := by
  rcases Files.mem_append hl with ⟨hne, -⟩ | ⟨-, l', hl', rfl⟩
  · exact (hne rfl).elim
  · rcases List.mem_append.mp hr' with hr' | hr'
    · exact hcur l' hl' r' hr'
    · cases List.mem_singleton.mp hr'
      rfl

theorem Uniform.step (hu : Uniform key s) (hfile : (s.files s.logger.logFile).isSome)
    (hs : (Log.logger directory logFile c).step s a = some s') (hsep : Separates key s') :
    Uniform key s' := by
  obtain ⟨ho, rfl⟩ := step_eq hs
  have hlast : (s.write a.now a.bytes).last = some a.now := by
    rw [State.last, writes_write]
    rfl
  have hname : (s.write a.now a.bytes).logger.logFile = s.logger.logFile := by
    rw [logger_write, logFile_checkRotate]
  cases writes_cases a.now a.bytes ho with
  | stays hrot hf _ _ =>
    have hkeep : ∀ t, s.last = some t → key t = key a.now := by
      intro t ht
      by_contra hne
      have hw := hsep (s.next a.now a.bytes) (by rw [writes_write]; exact List.mem_cons_self) t ht
        hne
      rw [hrot] at hw
      cases hw
    have hcur : ∀ l, s.files s.logger.logFile = some l → ∀ r', .record r' ∈ l →
        key r'.now = key (s.next a.now a.bytes).record.now := by
      intro l hl r' hr'
      obtain ⟨t, ht, hk⟩ := hu.current ho l hl r' hr'
      exact hk.trans (hkeep t ht)
    refine ⟨?_, ?_⟩
    · rw [hf]
      exact sameKey_append hu.within hcur
    · intro _ l hl r hr
      rw [hname, hf] at hl
      exact ⟨a.now, hlast, current_append hcur hl hr⟩
  | @rotates t name _ _ ht hf _ _ =>
    have hne : s.logger.logFile ≠ name := (target_ne hfile ht).symm
    -- the log file is a new one
    have hcur : ∀ l, ((s.files.rename s.logger.logFile name).create s.logger.logFile)
        s.logger.logFile = some l → ∀ r', .record r' ∈ l →
          key r'.now = key (s.next a.now a.bytes).record.now := by
      intro l hl r' hr'
      rw [Files.create_of_none (Files.rename_from hne), Function.update_self] at hl
      cases hl
      cases hr'
    refine ⟨?_, ?_⟩
    · rw [hf]
      exact sameKey_append hu.within.rename.create hcur
    · intro _ l hl r hr
      rw [hname, hf] at hl
      exact ⟨a.now, hlast, current_append hcur hl hr⟩
  | overruns _ _ _ hf _ hover =>
    refine ⟨?_, ?_⟩
    · rw [hf]
      exact hu.within
    · intro hno
      rw [hover] at hno
      cases hno

theorem uniform_of_reachable (key : Tm → κ)
    (hr : (Log.logger directory logFile c).Reachable localTimes s)
    (hsep : Separates key s) : Uniform key s := by
  revert hsep
  apply hr.invariant (I := fun s => Separates key s → Uniform key s)
  · rintro s₀ ⟨g, files, -, hold, rfl⟩ _
    have hno : ∀ l a, (files.create g.logFile) a = some l →
        ∀ r, .record r ∉ l := by
      intro l a hl r
      exact (hold r).create a l hl
    refine ⟨?_, ?_⟩
    · intro a l hl x hx y hy
      cases x with
      | old n => trivial
      | record r => exact (hno l a hl r hx).elim
    · intro _ l hl r hr
      exact (hno l _ hl r hr).elim
  · intro s₀ a s₁ hr₀ ih _ hs hsep
    refine (ih ?_).step (configured_of_reachable hr₀).file hs hsep
    intro w hw
    obtain ⟨-, rfl⟩ := step_eq hs
    refine hsep w ?_
    rw [writes_write]
    exact List.mem_cons_of_mem _ hw

end Uniform

/-! ### The settings and the run -/

/-- The file is rotated exactly when the settings ask for it; in particular no two records of
different hours, or days, share a file if that was asked for, and without a `rotateSize` nothing
else rotates. -/
structure Exact (c : Settings) (s : State) : Prop where
  asked : ∀ w ∈ s.writes, w.rotated = true ↔ Asked c w
  hours : c.hourly = true → s.files.Within (SameKey Tm.hourOfDay)
  days : c.daily = true → s.files.Within (SameKey Tm.day)
  quiet : c.rotateSize = 0 → ∀ w ∈ s.writes, w.rotated = true →
    c.hourly = true ∧ w.NewHour ∨ c.hourly = false ∧ c.daily = true ∧ w.NewDay

/-- A run rotates exactly when asked if and only if each of its records is one for which the slips
make no difference. -/
theorem rotates_when_asked_iff (hr : (Log.logger directory logFile c).Reachable localTimes s) :
    Exact c s ↔ ∀ w ∈ s.writes, Agrees c w := by
  have hc := configured_of_reachable hr
  constructor
  · intro he w hw
    rw [agrees_iff, ← hc.past w hw]
    exact he.asked w hw
  · intro hall
    have hasked : ∀ w ∈ s.writes, w.rotated = true ↔ Asked c w := by
      intro w hw
      rw [hc.past w hw]
      exact agrees_iff.mp (hall w hw)
    have hhours : c.hourly = true → Separates Tm.hourOfDay s := by
      intro hh w hw t ht hne
      exact (hasked w hw).mpr (.inl ⟨hh, t, ht, Tm.otherHour_iff.mpr hne⟩)
    refine ⟨hasked, fun hh => (uniform_of_reachable _ hr (hhours hh)).within, ?_, ?_⟩
    · intro hd
      refine (uniform_of_reachable Tm.day hr ?_).within
      intro w hw t ht hne
      have hday := Tm.otherDay_iff.mpr hne
      rw [hasked w hw]
      by_cases hh : c.hourly = true
      · exact .inl ⟨hh, t, ht, Tm.otherHour_of_otherDay hday⟩
      · exact .inr (.inl ⟨by simpa using hh, hd, t, ht, hday⟩)
    · intro hz w hw hrot
      rcases (hasked w hw).mp hrot with h | h | ⟨hpos, -⟩
      · exact .inl h
      · exact .inr h
      · rw [hz] at hpos
        cases hpos

/-- A time in January 2024. -/
def january (mday hour min sec : Int) : Tm := ⟨124, 0, mday, hour, min, sec⟩

/-- One record before midnight and one after it. -/
def overMidnight : List Action := [⟨january 1 23 59 59, ['a']⟩, ⟨january 2 0 0 0, ['b']⟩]

def hourlySettings : Settings := ⟨.debug, 0, 8192, false, false, false, true⟩

def dailySettings : Settings := ⟨.debug, 0, 8192, false, false, true, false⟩

/-- A system with the directory `/tmp`. -/
def tmp (logDir : Name) : Option Name :=
  if logDir = ['/', 't', 'm', 'p'] then some logDir else none

def tmpLog : Name := ['/', 't', 'm', 'p', '/', 'l']

/-- The logger that `init` opens there. -/
def openedTmp (c : Settings) : State :=
  .opened (({ Logger.new with logFile := tmpLog } : Logger).initFd c.level c.rotateSize c.logBufSize
    c.enableLock c.daily c.hourly false) noFiles

theorem init_openedTmp (c : Settings) : (logger tmp tmpLog c).init (openedTmp c) :=
  ⟨_, noFiles, rfl, old_noFiles, rfl⟩

theorem rotates_when_asked_iff_overMidnight :
    ∃ s, (logger tmp tmpLog hourlySettings).Reachable localTimes s ∧
      s.writes.map Write.rotated = [true, false] ∧ Exact hourlySettings s := by
  obtain ⟨s, hr, hw⟩ := Machine.exists_of_exec (M := logger tmp tmpLog hourlySettings)
    (p := localTimes) (s := openedTmp hourlySettings) (l := overMidnight)
    (f := State.writes)
    (b := [⟨⟨1, january 2 0 0 0, ['b']⟩, some (january 1 23 59 59), 1, true⟩,
      ⟨⟨0, january 1 23 59 59, ['a']⟩, none, 0, false⟩]) (init_openedTmp _) (by decide)
  refine ⟨s, hr, by rw [hw]; rfl, (rotates_when_asked_iff hr).mpr ?_⟩
  rw [hw]
  intro w hmem
  simp only [List.mem_cons, List.not_mem_nil, or_false] at hmem
  rcases hmem with rfl | rfl
  · exact ⟨fun _ => .inl ⟨_, rfl, by decide⟩, fun hno => (hno ⟨_, rfl, by decide⟩).elim⟩
  · refine ⟨?_, fun _ => .inr rfl⟩
    rintro ⟨t, ht, -⟩
    cases ht

/-- With `daily` asked for, records of two days share a file. -/
theorem shares_a_file_over_midnight :
    ∃ s, (logger tmp tmpLog dailySettings).Reachable localTimes s ∧
      s.writes.map Write.rotated = [false, false] ∧ ¬ Exact dailySettings s := by
  obtain ⟨s, hr, hw⟩ := Machine.exists_of_exec (M := logger tmp tmpLog dailySettings)
    (p := localTimes) (s := openedTmp dailySettings) (l := overMidnight)
    (f := State.writes)
    (b := [⟨⟨1, january 2 0 0 0, ['b']⟩, some (january 1 23 59 59), 1, false⟩,
      ⟨⟨0, january 1 23 59 59, ['a']⟩, none, 0, false⟩]) (init_openedTmp _) (by decide)
  refine ⟨s, hr, by rw [hw]; rfl, ?_⟩
  intro he
  have hrot := (he.asked _ (by rw [hw]; exact List.mem_cons_self)).mpr
    (.inr (.inl ⟨rfl, rfl, _, rfl, by decide⟩))
  cases hrot

end EchoBenchmark.Log
