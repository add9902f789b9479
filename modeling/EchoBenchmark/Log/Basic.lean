import EchoBenchmark.Lib.Files
import EchoBenchmark.Lib.Machine
import Mathlib.Algebra.Group.Int.Defs
import Mathlib.Data.List.DropRight

/-!
The file logger: its settings, the decision to rotate, the rotation, and the record that is written
after it.
-/

namespace EchoBenchmark.Log

abbrev Name := List Char

/-- The fields of a `struct tm` that the logger reads. -/
structure Tm where
  year : Int
  mon : Int
  mday : Int
  hour : Int
  min : Int
  sec : Int
  deriving DecidableEq

namespace Tm

/-- `_prev` as the constructor leaves it. -/
def unset : Tm := ⟨-1, -1, -1, -1, -1, -1⟩

/-- `localtime_r` fills the fields so. -/
def Local (t : Tm) : Prop :=
  (0 ≤ t.mon ∧ t.mon ≤ 11) ∧ (1 ≤ t.mday ∧ t.mday ≤ 31) ∧ (0 ≤ t.hour ∧ t.hour ≤ 23) ∧
    (0 ≤ t.min ∧ t.min ≤ 59) ∧ (0 ≤ t.sec ∧ t.sec ≤ 60)

instance (t : Tm) : Decidable t.Local :=
  inferInstanceAs (Decidable ((_ ∧ _) ∧ (_ ∧ _) ∧ (_ ∧ _) ∧ (_ ∧ _) ∧ (_ ∧ _)))

def otherDay (prev now : Tm) : Bool :=
  prev.year != now.year || prev.mon != now.mon || prev.mday != now.mday

def otherHour (prev now : Tm) : Bool :=
  prev.year != now.year || prev.mon != now.mon || prev.mday != now.mday || prev.hour != now.hour

def day (t : Tm) : Int × Int × Int := (t.year, t.mon, t.mday)

def hourOfDay (t : Tm) : Int × Int × Int × Int := (t.year, t.mon, t.mday, t.hour)

theorem otherDay_iff {a b : Tm} : a.otherDay b = true ↔ a.day ≠ b.day := by
  simp only [otherDay, day, Bool.or_eq_true, bne_iff_ne, ne_eq, Prod.mk.injEq]
  tauto

theorem otherHour_iff {a b : Tm} : a.otherHour b = true ↔ a.hourOfDay ≠ b.hourOfDay := by
  simp only [otherHour, hourOfDay, Bool.or_eq_true, bne_iff_ne, ne_eq, Prod.mk.injEq]
  tauto

theorem otherHour_of_otherDay {a b : Tm} (h : a.otherDay b = true) : a.otherHour b = true := by
  unfold otherDay at h
  rw [otherHour, h, Bool.true_or]

end Tm

/-- `%0<width>d`. -/
def pad (width : Nat) (n : Int) : List Char :=
  let digits := Nat.toDigits 10 n.natAbs
  let sign := if n < 0 then ['-'] else []
  sign ++ List.replicate (width - (sign.length + digits.length)) '0' ++ digits

inductive Level
  | trace | debug | info | error
  deriving DecidableEq

/-- `Logger`, with its descriptor open. -/
structure Logger where
  logFile : Name
  level : Level
  rotateSize : UInt64
  logBufSize : Nat
  enableLock : Bool
  enableTid : Bool
  daily : Bool
  hourly : Bool
  prev : Tm
  deriving DecidableEq

/-- The arguments of `init` after the path. -/
structure Settings where
  level : Level
  rotateSize : UInt64
  logBufSize : Nat
  enableLock : Bool
  enableTid : Bool
  daily : Bool
  hourly : Bool
  deriving DecidableEq

/-- `(off_t)n`. -/
def offT (n : UInt64) : Int := n.toBitVec.toInt

theorem offT_eq (n : UInt64) :
    offT n = if n.toNat < 2 ^ 63 then (n.toNat : Int) else (n.toNat : Int) - 2 ^ 64 := by
  rw [offT, BitVec.toInt_eq_toNat_cond, UInt64.toNat_toBitVec]
  split <;> split <;> omega

namespace Logger

/-- `Logger::Logger()`. -/
def new : Logger := ⟨[], .debug, 0, 8192, false, false, false, false, Tm.unset⟩

/-- `init(int32_t fd, …)`. -/
def initFd (g : Logger) (level : Level) (rotateSize : UInt64) (logBufSize : Nat)
    (enableLock enableTid daily hourly : Bool) : Logger :=
  { g with
    level := level
    rotateSize := rotateSize
    logBufSize := logBufSize
    enableLock := enableLock
    enableTid := enableTid
    daily := daily
    hourly := hourly }

/-- `_getAbsFilePath`: the absolute path of the log file, if it gets one. `directory` is what
`realpath` answers for the name of a directory, and nothing for all else. -/
def getAbsFilePath (directory : Name → Option Name) (logFile : Name) : Option Name :=
  let filename := logFile.rtakeWhile (· ≠ '/')
  let logDir :=
    if '/' ∈ logFile then logFile.take (logFile.length - filename.length - 1) else ['.']
  if filename = ['.'] ∨ filename = ['.', '.'] ∨ '/' ∈ logFile ∧ filename = [] then none
  else (directory logDir).map fun realDir => realDir ++ '/' :: filename

/-- `init(const char* logFile, …)`, which fails without an absolute path. -/
def init (g : Logger) (directory : Name → Option Name) (logFile : Name) (c : Settings) :
    Option Logger :=
  -- the source leaves `enableTid` out, so that the last parameter takes its default
  (getAbsFilePath directory logFile).map fun path =>
    { g with logFile := path }.initFd c.level c.rotateSize c.logBufSize c.enableLock c.daily
      c.hourly false

def copyTm (g : Logger) (now : Tm) : Logger := { g with prev := now }

/-- `_checkRotate`: the argument of its call of `_rotate`, if it makes one, and `_prev` after it.
`stat` finds the size of the log file, or fails. -/
def checkRotate (g : Logger) (stat : Option Nat) (now : Tm) : Option Tm × Logger :=
  if g.logFile = [] ∨ g.rotateSize = 0 ∧ g.daily = false ∧ g.hourly = false then (none, g)
  else if g.hourly = true ∧ g.prev.hour ≠ -1 ∧ g.prev.otherHour now = true then
    (some g.prev, g.copyTm now)
  else if g.hourly = false ∧ g.daily = true ∧ g.prev.mday ≠ -1 ∧ g.prev.otherDay now = true then
    (some g.prev, g.copyTm now)
  else
    match stat with
    | none => (none, g)
    | some size =>
      if (size : Int) > offT g.rotateSize then (some now, g.copyTm now) else (none, g.copyTm now)

end Logger

/-! ### Files -/

/-- A record, with its place in the order of the calls of `write`. -/
structure Record where
  serial : Nat
  now : Tm
  bytes : List Char
  deriving DecidableEq

/-- What a file holds: bytes that were there before `init`, and records. -/
inductive Entry
  | old (size : Nat)
  | record (r : Record)
  deriving DecidableEq

def Entry.size : Entry → Nat
  | .old size => size
  | .record r => r.bytes.length

/-- `st_size`. -/
def size (file : List Entry) : Nat := (file.map Entry.size).sum

def MAX_FILENAME : Nat := 256

/-- `".%04d%02d%02d.%02d%02d%02d"`. -/
def stamp (now : Tm) : Name :=
  '.' :: pad 4 (now.year + 1900) ++ pad 2 (now.mon + 1) ++ pad 2 now.mday ++
    '.' :: pad 2 now.hour ++ pad 2 now.min ++ pad 2 now.sec

/-- What `snprintf` leaves in the `MAX_FILENAME + 1` bytes of `newLogFile`. -/
def newLogFile (logFile : Name) (now : Tm) : Name := (logFile ++ stamp now).take MAX_FILENAME

/-- The new name of the log file; `none` is a `strcat` past the end of `newLogFile`. -/
def target (files : Files Name Entry) (logFile : Name) (now : Tm) : Option Name :=
  let name := newLogFile logFile now
  if (files name).isSome then
    if name.length + 2 ≤ MAX_FILENAME then some (name ++ ['.', '1']) else none
  else some name

/-- A call of `write`: its record, the time of the record before it, the size of the log file, and
whether the file was rotated. -/
structure Write where
  record : Record
  last : Option Tm
  size : Nat
  rotated : Bool
  deriving DecidableEq

/-- The logger, the files, the calls of `write` with the newest first, and the names that rotations
gave; `overrun` tells that a store went past the end of `newLogFile`. -/
structure State where
  logger : Logger
  files : Files Name Entry
  writes : List Write
  rotated : List Name
  overrun : Bool

namespace State

/-- The time of the last record of this logger. -/
def last (s : State) : Option Tm := s.writes.head?.map (·.record.now)

def logSize (s : State) : Option Nat := (s.files s.logger.logFile).map size

/-- `_rotate`. -/
def rotate (s : State) (now : Tm) : State :=
  match target s.files s.logger.logFile now with
  | some name =>
    { s with
      files := (s.files.rename s.logger.logFile name).create s.logger.logFile
      rotated := name :: s.rotated }
  | none => { s with overrun := true }

/-- `::write(_fd, buf, size)`. -/
def append (s : State) (r : Record) : State :=
  { s with files := s.files.append s.logger.logFile (.record r) }

/-- The call of `write` that comes next. -/
def next (s : State) (now : Tm) (bytes : List Char) : Write where
  record := ⟨s.writes.length, now, bytes⟩
  last := s.last
  size := s.logSize.getD 0
  rotated := (s.logger.checkRotate s.logSize now).1.isSome

/-- `write`. -/
def write (s : State) (now : Tm) (bytes : List Char) : State :=
  let check := s.logger.checkRotate s.logSize now
  let w := s.next now bytes
  let s := { s with logger := check.2, writes := w :: s.writes }
  match check.1 with
  | none => s.append w.record
  | some t =>
    let s := s.rotate t
    if s.overrun then s else s.append w.record

/-- The logger that `init` opened, over the files that were there. -/
def opened (logger : Logger) (files : Files Name Entry) : State :=
  ⟨logger, files.create logger.logFile, [], [], false⟩

end State

/-- A call of `write`. -/
structure Action where
  now : Tm
  bytes : List Char
  deriving DecidableEq

/-- The files hold what was written before `init`. -/
def Old (files : Files Name Entry) : Prop := ∀ r, files.Absent (.record r)

/-- The logger that `init` opened, writing. -/
def logger (directory : Name → Option Name) (logFile : Name) (c : Settings) :
    Machine State Action where
  init s := ∃ g files, Logger.new.init directory logFile c = some g ∧ Old files ∧
    s = State.opened g files
  step s a := if s.overrun then none else some (s.write a.now a.bytes)

/-- The times are local times. -/
def localTimes (_ : State) (a : Action) : Prop := a.now.Local

instance (s : State) (a : Action) : Decidable (localTimes s a) :=
  inferInstanceAs (Decidable a.now.Local)

/-- Nothing is there before `init`. -/
def noFiles : Files Name Entry := fun _ => none

theorem old_noFiles : Old noFiles := by
  intro r a l hl
  cases hl

/-! ### What a call of `write` does -/

variable {s s' : State} {directory : Name → Option Name} {logFile name : Name} {c : Settings}
  {now t : Tm} {bytes : List Char}

/-- What `init` has set where it succeeds. -/
theorem Logger.init_eq {g : Logger} (h : Logger.new.init directory logFile c = some g) :
    ∃ path, path ≠ [] ∧ g = ({ Logger.new with logFile := path } : Logger).initFd c.level
      c.rotateSize c.logBufSize c.enableLock c.daily c.hourly false := by
  obtain ⟨path, hpath, rfl⟩ := Option.map_eq_some_iff.mp h
  refine ⟨path, ?_, rfl⟩
  unfold getAbsFilePath at hpath
  dsimp only at hpath
  split at hpath
  · cases hpath
  · obtain ⟨realDir, -, rfl⟩ := Option.map_eq_some_iff.mp hpath
    simp

/-- The directory of `/l` has the empty name, for which `realpath` fails. -/
example (c : Settings) (h : directory [] = none) :
    Logger.new.init directory ['/', 'l'] c = none := by
  have hpath : Logger.getAbsFilePath directory ['/', 'l'] =
      (directory []).map fun realDir => realDir ++ '/' :: ['l'] := rfl
  rw [Logger.init, hpath, h]
  rfl

/-- The logger, and where a record goes: to the file as it is, or to the file that takes its place;
or the rotation fails to name the old one. -/
inductive Writes (s : State) (now : Tm) (bytes : List Char) (s' : State) : Prop
  | stays : (s.next now bytes).rotated = false →
      s'.files = s.files.append s.logger.logFile (.record (s.next now bytes).record) →
      s'.rotated = s.rotated → s'.overrun = s.overrun → Writes s now bytes s'
  | rotates {t : Tm} {name : Name} : (s.next now bytes).rotated = true →
      (s.logger.checkRotate s.logSize now).1 = some t →
      target s.files s.logger.logFile t = some name →
      s'.files = ((s.files.rename s.logger.logFile name).create s.logger.logFile).append
        s.logger.logFile (.record (s.next now bytes).record) →
      s'.rotated = name :: s.rotated → s'.overrun = s.overrun → Writes s now bytes s'
  | overruns {t : Tm} : (s.next now bytes).rotated = true →
      (s.logger.checkRotate s.logSize now).1 = some t →
      target s.files s.logger.logFile t = none → s'.files = s.files → s'.rotated = s.rotated →
      s'.overrun = true → Writes s now bytes s'

@[simp] theorem logFile_checkRotate {stat : Option Nat} {g : Logger} :
    (g.checkRotate stat now).2.logFile = g.logFile := by
  unfold Logger.checkRotate
  split
  · rfl
  split
  · rfl
  split
  · rfl
  cases stat with
  | none => rfl
  | some n =>
    dsimp only
    split <;> rfl

theorem writes_write : (s.write now bytes).writes = s.next now bytes :: s.writes := by
  unfold State.write
  dsimp only
  split
  · rfl
  · unfold State.rotate
    split <;> (split <;> rfl)

theorem logger_write : (s.write now bytes).logger = (s.logger.checkRotate s.logSize now).2 := by
  unfold State.write
  dsimp only
  split
  · rfl
  · unfold State.rotate
    split <;> (split <;> rfl)

theorem writes_cases (now : Tm) (bytes : List Char) (ho : s.overrun = false) :
    Writes s now bytes (s.write now bytes) := by
  cases hc : (s.logger.checkRotate s.logSize now).1 with
  | none =>
    refine .stays (by simp [State.next, hc]) ?_ ?_ ?_
    · simp [State.write, hc, State.append]
    · simp only [State.write, hc, State.append]
    · simp only [State.write, hc, State.append]
  | some t =>
    have hrot : (s.next now bytes).rotated = true := by simp [State.next, hc]
    cases ht : target s.files s.logger.logFile t with
    | none =>
      refine .overruns hrot hc ht ?_ ?_ ?_ <;>
        simp [State.write, hc, State.rotate, ht]
    | some name =>
      refine .rotates hrot hc ht ?_ ?_ ?_ <;>
        simp [State.write, hc, State.rotate, ht, ho, State.append]

/-- The log file never keeps its name. -/
theorem target_ne {files : Files Name Entry} {logFile : Name} (hf : (files logFile).isSome)
    (ht : target files logFile t = some name) : name ≠ logFile := by
  unfold target at ht
  dsimp only at ht
  split at ht
  · split at ht
    · rename_i hlen
      cases ht
      intro he
      have hle := congrArg List.length he
      unfold newLogFile at hlen hle
      simp only [List.length_append, List.length_take, List.length_cons, List.length_nil,
        MAX_FILENAME] at hlen hle
      omega
    · cases ht
  · rename_i hno
    cases ht
    intro he
    rw [he] at hno
    exact hno hf

theorem step_eq {a : Action} (hs : (logger directory logFile c).step s a = some s') :
    s.overrun = false ∧ s' = s.write a.now a.bytes := by
  simp only [logger] at hs
  split at hs
  · cases hs
  · rename_i ho
    exact ⟨by simpa using ho, (Option.some.inj hs).symm⟩

end EchoBenchmark.Log
