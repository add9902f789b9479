import EchoBenchmark.Lib.CString
import EchoBenchmark.Log.Records

/-!
The line that the logger makes of a message, in its buffer: the header, as much of the message as
there is place for, and a newline.
-/

namespace EchoBenchmark.Log

open CString (Frame NUL visible)

def INT32_MAX : Nat := 2 ^ 31 - 1

/-- An `int32_t` that takes a length; `none` is a length that it cannot hold. -/
def int32 (n : Nat) : Option Nat := if n ≤ INT32_MAX then some n else none

/-- A file name, as `__FILE__` gives it. -/
structure FileName where
  chars : List Char
  no_nul : NUL ∉ chars

def Level.rank : Level → Nat
  | .trace => 0
  | .debug => 1
  | .info => 2
  | .error => 3

/-- `levelStr`. -/
def Level.word : Level → List Char
  | .trace => ['T', 'R', 'C']
  | .debug => ['D', 'B', 'G']
  | .info => ['I', 'N', 'F']
  | .error => ['E', 'R', 'R']

/-- `tidBuf`, of 20 bytes. -/
def tidBuf (enableTid : Bool) (self : Nat) : List Char :=
  if enableTid then ('|' :: Nat.toDigits 10 self).take 19 else []

/-- `"%d%s|%s|%04d-%02d-%02d %02d:%02d:%02d| %s(%d): "`. -/
def header (myPid : Int) (tid : List Char) (level : Level) (now : Tm) (file : FileName)
    (line : Int) : List Char :=
  pad 0 myPid ++ tid ++ '|' :: level.word ++
    '|' :: pad 4 (now.year + 1900) ++ '-' :: pad 2 (now.mon + 1) ++ '-' :: pad 2 now.mday ++
    ' ' :: pad 2 now.hour ++ ':' :: pad 2 now.min ++ ':' :: pad 2 now.sec ++
    '|' :: ' ' :: file.chars ++ '(' :: pad 0 line ++ [')', ':', ' ']

/-- The buffer of `sizeof(buf)` bytes and the length of the line in it. -/
def format (sizeofBuf : Nat) (header message : List Char) (cells : Nat → Char) :
    Option (Frame × Nat) := do
  let buf := (Frame.mk cells []).snprintf 0 sizeofBuf header
  let bufLen ← (buf.strlen 0 sizeofBuf).bind int32
  let buf := buf.snprintf bufLen (sizeofBuf - bufLen - 1) message
  let bufLen ← (buf.strlen bufLen (sizeofBuf - bufLen)).bind fun n => int32 (bufLen + n)
  let buf ← buf.strcat bufLen (sizeofBuf - bufLen) ['\n']
  let bufLen ← int32 (bufLen + 1)
  return (buf, bufLen)

/-- `log`, whose record goes to `write`. -/
def State.log (s : State) (level : Level) (file : FileName) (line : Int) (message : List Char)
    (now : Tm) (myPid : Int) (self : Nat) (cells : Nat → Char) : Option State :=
  if level.rank < s.logger.level.rank then some s
  else
    let head := header myPid (tidBuf s.logger.enableTid self) level now file line
    (format s.logger.logBufSize head message cells).map fun r => s.write now (r.1.bytes r.2)

/-! ### The header -/

variable {size n : Nat} {head message : List Char} {cells : Nat → Char}

theorem nul_not_mem_pad {width : Nat} {k : Int} : NUL ∉ pad width k := by
  intro h
  simp only [pad, List.mem_append] at h
  rcases h with (h | h) | h
  · split at h
    · cases List.mem_singleton.mp h
    · cases h
  · cases List.eq_of_mem_replicate h
  · have hd := Nat.isDigit_of_mem_toDigits (by decide) (by decide) h
    exact absurd hd (by decide)

theorem nul_not_mem_tidBuf {enableTid : Bool} {self : Nat} : NUL ∉ tidBuf enableTid self := by
  unfold tidBuf
  split
  · intro h
    rcases List.mem_cons.mp (List.mem_of_mem_take h) with h | h
    · cases h
    · have hd := Nat.isDigit_of_mem_toDigits (by decide) (by decide) h
      exact absurd hd (by decide)
  · exact List.not_mem_nil

theorem nul_not_mem_word {level : Level} : NUL ∉ level.word := by
  cases level <;> decide

theorem nul_not_mem_header {myPid line : Int} {enableTid : Bool} {self : Nat} {level : Level}
    {now : Tm} {file : FileName} :
    NUL ∉ header myPid (tidBuf enableTid self) level now file line := by
  have hchars : NUL ∉ ['|', '-', ' ', ':', '(', ')'] := by decide
  simp only [List.mem_cons, List.not_mem_nil, or_false, not_or] at hchars
  simp only [header, List.mem_append, List.mem_cons, List.not_mem_nil, or_false, nul_not_mem_pad,
    nul_not_mem_tidBuf, nul_not_mem_word, file.no_nul, hchars, not_false_eq_true]

/-! ### The line -/

/-- What of the message gets into the buffer. -/
def shown (size : Nat) (head message : List Char) : List Char :=
  visible (message.take (size - head.length - 2))

/-- Every store is in the buffer, and the line ends in a newline and leaves a byte of it. -/
def Contained (size : Nat) (r : Option (Frame × Nat)) : Prop :=
  ∃ buf n, r = some (buf, n) ∧ (∀ i ∈ buf.stores, i < size) ∧
    (buf.bytes n).getLast? = some '\n' ∧ n ≤ size - 1

/-- The header as `snprintf` leaves it. -/
theorem strlen_header (cells : Nat → Char) (hhead : NUL ∉ head) (hsize : 0 < size) :
    ((Frame.mk cells []).snprintf 0 size head).Holds 0 (head.take (size - 1) ++ [NUL]) ∧
      ((Frame.mk cells []).snprintf 0 size head).strlen 0 size =
        some (head.take (size - 1)).length := by
  have hholds : ((Frame.mk cells []).snprintf 0 size head).Holds 0
      (head.take (size - 1) ++ [NUL]) := by
    rw [Frame.snprintf, if_neg (Nat.ne_of_gt hsize)]
    exact Frame.holds_storeAll
  refine ⟨hholds, hholds.strlen_eq ?_ ?_⟩
  · exact fun h => hhead (List.mem_of_mem_take h)
  · have hle := List.length_take_le (size - 1) head
    omega

/-- The buffer before the newline. -/
def printed (size : Nat) (head message : List Char) (cells : Nat → Char) : Frame :=
  ((Frame.mk cells []).snprintf 0 size head).snprintf head.length (size - head.length - 1) message

section Fits

variable (hhead : NUL ∉ head) (hfit : head.length + 2 ≤ size)
include hfit

theorem length_shown (message : List Char) :
    head.length + (shown size head message).length + 2 ≤ size := by
  have hle : (shown size head message).length ≤ _ := CString.length_visible_le
  have htake := List.length_take_le (size - head.length - 2) message
  omega

theorem printed_eq : printed size head message cells =
    ((Frame.mk cells []).storeAll 0 (head ++ [NUL])).storeAll head.length
      (message.take (size - head.length - 2) ++ [NUL]) := by
  have hhead₀ : head.take (size - 1) = head := List.take_of_length_le (by omega)
  have hn : size - head.length - 1 - 1 = size - head.length - 2 := by omega
  rw [printed, Frame.snprintf, Frame.snprintf, if_neg (by omega), if_neg (by omega), hhead₀, hn]

theorem printed_holds (message : List Char) (cells : Nat → Char) :
    (printed size head message cells).Holds 0
      (head ++ (shown size head message ++ [NUL])) := by
  rw [printed_eq hfit]
  refine Frame.Holds.append (Frame.holds_storeAll.left.storeAll (by omega)) ?_
  obtain ⟨rest, hrest⟩ := CString.exists_visible (message.take (size - head.length - 2))
  refine Frame.Holds.left (?_ : Frame.Holds _ _ (_ ++ rest))
  rw [shown, ← hrest, Nat.zero_add]
  exact Frame.holds_storeAll

theorem printed_stores : ∀ i ∈ (printed size head message cells).stores, i < size := by
  intro i hi
  rw [printed_eq hfit, Frame.stores_storeAll, Frame.stores_storeAll] at hi
  have htake := List.length_take_le (size - head.length - 2) message
  simp only [List.not_mem_nil, false_or, List.length_append, List.length_cons,
    List.length_nil] at hi
  omega

include hhead

/-- Where the header fits with a newline, so does the line, as far as its length is an `int32_t`. -/
theorem format_eq (message : List Char) (cells : Nat → Char) : format size head message cells =
    (int32 (head.length + (shown size head message).length + 1)).map fun n =>
      ((printed size head message cells).storeAll (head.length + (shown size head message).length)
        ['\n', NUL], n) := by
  have hshown := length_shown hfit message
  have hhead₀ : (head.take (size - 1)).length = head.length := by
    rw [List.length_take]
    omega
  have hprinted := printed_holds hfit message cells
  have hlen : (printed size head message cells).strlen head.length (size - head.length) =
      some (shown size head message).length := by
    have h := hprinted.right
    rw [Nat.zero_add] at h
    exact h.strlen_eq CString.nul_not_mem_visible (by omega)
  have hend : (printed size head message cells).strlen
      (head.length + (shown size head message).length)
      (size - (head.length + (shown size head message).length)) = some 0 := by
    rw [← List.append_assoc] at hprinted
    have h := hprinted.right
    rw [Nat.zero_add, List.length_append] at h
    exact Frame.Holds.strlen_eq (w := []) h List.not_mem_nil (by simp only [List.length_nil]; omega)
  have hcat : (printed size head message cells).strcat
      (head.length + (shown size head message).length)
      (size - (head.length + (shown size head message).length)) ['\n'] =
      some ((printed size head message cells).storeAll
        (head.length + (shown size head message).length) ['\n', NUL]) := by
    rw [Frame.strcat, hend]
    rfl
  have hfirst := (strlen_header cells hhead (by omega : 0 < size)).2
  rw [hhead₀] at hfirst
  unfold printed at hlen hcat ⊢
  by_cases h₁ : head.length ≤ INT32_MAX
  · by_cases h₂ : head.length + (shown size head message).length ≤ INT32_MAX
    · simp only [format, hfirst, hlen, hcat, int32, h₁, h₂, if_true, Option.bind_eq_bind,
        Option.bind_some]
      split <;> rfl
    · have h₃ : ¬ head.length + (shown size head message).length + 1 ≤ INT32_MAX := by omega
      simp [format, hfirst, hlen, int32, h₁, h₂, h₃]
  · have h₃ : ¬ head.length + (shown size head message).length + 1 ≤ INT32_MAX := by omega
    simp [format, hfirst, int32, h₁, h₃]

end Fits

/-- Where it does not, the terminator of the newline goes behind the buffer. -/
theorem format_of_long (hhead : NUL ∉ head) (hsize : 0 < size) (hlong : size < head.length + 2)
    {buf : Frame} (h : format size head message cells = some (buf, n)) : size ∈ buf.stores := by
  obtain ⟨hholds, hlen⟩ := strlen_header cells hhead hsize
  have htake : (head.take (size - 1)).length = size - 1 := by
    rw [List.length_take]
    omega
  rw [htake] at hlen
  have hend : ((Frame.mk cells []).snprintf 0 size head).strlen (size - 1) (size - (size - 1)) =
      some 0 := by
    have h := hholds.right
    rw [Nat.zero_add, htake] at h
    exact Frame.Holds.strlen_eq (w := []) h List.not_mem_nil (by simp only [List.length_nil]; omega)
  have hzero : size - (size - 1) - 1 = 0 := by omega
  have hcat : ((Frame.mk cells []).snprintf 0 size head).strcat (size - 1) (size - (size - 1))
      ['\n'] = some (((Frame.mk cells []).snprintf 0 size head).storeAll (size - 1)
        ['\n', NUL]) := by
    rw [Frame.strcat, hend]
    rfl
  by_cases h₁ : size - 1 ≤ INT32_MAX
  · simp only [format, hlen, int32, h₁, if_true, hzero, Frame.snprintf_zero, hend, hcat,
      Nat.add_zero, Option.bind_eq_bind, Option.bind_some] at h
    obtain ⟨m, -, he⟩ := Option.bind_eq_some_iff.mp h
    cases he
    rw [Frame.stores_storeAll]
    right
    simp only [List.length_cons, List.length_nil]
    omega
  · simp [format, hlen, int32, h₁] at h

/-- The bytes of a line that fits. -/
theorem bytes_format {buf : Frame} (hhead : NUL ∉ head) (hfit : head.length + 2 ≤ size)
    (h : format size head message cells = some (buf, n)) :
    buf.bytes n = head ++ shown size head message ++ ['\n'] ∧ n + 1 ≤ size ∧
      head.length + (shown size head message).length + 1 ≤ INT32_MAX ∧
      ∀ i ∈ buf.stores, i < size := by
  rw [format_eq hhead hfit message cells] at h
  obtain ⟨m, hm, he⟩ := Option.map_eq_some_iff.mp h
  have hshown := length_shown hfit message
  unfold int32 at hm
  split at hm
  · rename_i hint
    cases hm
    cases he
    have hline : Frame.Holds ((printed size head message cells).storeAll
        (head.length + (shown size head message).length) ['\n', NUL]) 0
        (head ++ shown size head message ++ ['\n']) := by
      have hprinted := printed_holds hfit message cells
      rw [← List.append_assoc] at hprinted
      refine (hprinted.left.storeAll ?_).append ?_
      · simp
      · rw [List.length_append, Nat.zero_add]
        exact (Frame.holds_storeAll (w := ['\n'] ++ [NUL])).left
    have hlen : (head ++ shown size head message ++ ['\n']).length =
        head.length + (shown size head message).length + 1 := by
      rw [List.length_append, List.length_append]
      rfl
    refine ⟨?_, by omega, hint, ?_⟩
    · rw [← hlen]
      exact hline.bytes_eq
    · intro i hi
      rw [Frame.stores_storeAll] at hi
      rcases hi with hi | ⟨-, hi⟩
      · exact printed_stores hfit i hi
      · simp only [List.length_cons, List.length_nil] at hi
        omega
  · cases hm

section Lines

variable {myPid line : Int} {enableTid : Bool} {self : Nat} {level : Level} {now : Tm}
  {file : FileName}

/-- The stores stay in the buffer, and the line is whole, if and only if the header leaves two bytes
of the buffer and the line is no longer than an `int32_t` can tell. -/
theorem line_contained_iff (hsize : 0 < size)
    (hhead : head = header myPid (tidBuf enableTid self) level now file line) :
    Contained size (format size head message cells) ↔
      head.length + 2 ≤ size ∧
        head.length + (shown size head message).length + 1 ≤ INT32_MAX := by
  have hnul : NUL ∉ head := by
    rw [hhead]
    exact nul_not_mem_header
  constructor
  · rintro ⟨buf, n, hf, hstores, -, -⟩
    have hfit : head.length + 2 ≤ size := by
      by_contra hlong
      have hmem := format_of_long hnul hsize (by omega) hf
      exact Nat.lt_irrefl size (hstores size hmem)
    exact ⟨hfit, (bytes_format hnul hfit hf).2.2.1⟩
  · rintro ⟨hfit, hint⟩
    have hf := format_eq hnul hfit message cells
    rw [int32, if_pos hint] at hf
    obtain ⟨hbytes, hle, -, hstores⟩ := bytes_format hnul hfit hf
    refine ⟨_, _, hf, hstores, ?_, by omega⟩
    rw [hbytes]
    simp

/-- Of such a message `write` gets the line. -/
theorem log_eq_write {s : State} (hlevel : s.logger.level.rank ≤ level.rank)
    (hhead : head = header myPid (tidBuf s.logger.enableTid self) level now file line)
    (hfit : head.length + 2 ≤ s.logger.logBufSize)
    (hint : head.length + (shown s.logger.logBufSize head message).length + 1 ≤ INT32_MAX) :
    s.log level file line message now myPid self cells =
      some (s.write now (head ++ shown s.logger.logBufSize head message ++ ['\n'])) := by
  have hnul : NUL ∉ head := by
    rw [hhead]
    exact nul_not_mem_header
  have hf := format_eq hnul hfit message cells
  rw [int32, if_pos hint] at hf
  have hbytes := (bytes_format hnul hfit hf).1
  rw [State.log, if_neg (Nat.not_lt.mpr hlevel)]
  dsimp only
  rw [← hhead, hf, ← hbytes]
  rfl

end Lines

def sample : List Char :=
  header 7 (tidBuf false 0) .info (january 1 12 0 0) ⟨['a', '.', 'c'], by decide⟩ 1

theorem line_contained_iff_sample :
    Contained 64 (format 64 sample ['h', 'i'] fun _ => 'x') :=
  (line_contained_iff (by decide) rfl).mpr (by decide)

/-- The buffer of one byte: the newline takes it, and its terminator the byte behind it. -/
theorem line_leaves_buffer :
    (format 1 sample ['h', 'i'] fun _ => 'x').map (fun r => r.1.stores) = some [1, 0, 0] ∧
      ¬ Contained 1 (format 1 sample ['h', 'i'] fun _ => 'x') := by
  refine ⟨by decide, ?_⟩
  rintro ⟨buf, n, hf, hstores, -, -⟩
  have hmem := format_of_long nul_not_mem_header (by decide) (by decide) hf
  exact Nat.lt_irrefl 1 (hstores 1 hmem)

end EchoBenchmark.Log
