import DistributedMQ.Lib.Machine
import Mathlib.Algebra.Group.Nat.Defs
import Mathlib.Data.List.GetD

/-!
# The commit log in C (`storage/c/commitlog/commit_log.c` lines 14–117)

A commit log is a file that is mapped into memory: what is written there is in the file. Opening
extends the file to the size that was asked for, and the log goes on at the end that the file had
before.

Unsigned numbers wrap around at `2 ^ 64`. Calls of the system succeed, except for a mapping of
`2 ^ 63` bytes or more, which there is no room for.

- `content`: the bytes of the log, which appending adds to and reading reads from.
- `InRange`: no call of `commit_log_append` wraps around, whatever file the log was opened on.
- `LogInv`: what holds after any calls of `commit_log_append` on a new file.
- `LogInv.content_reopened`: the reopened log has the rest of the file in it, too.
-/

namespace DistributedMQ.CStorage

open Machine

/-- What a call returns other than `MQ_SUCCESS`. -/
inductive Status where
  | error
  | notFound
deriving DecidableEq, Repr

/-- A file of bytes. Behind its size there is nothing to read. -/
structure DataFile where
  size : ℕ
  bytes : ℕ → UInt8

namespace DataFile

/-- A file that `open` has just created. -/
def empty : DataFile where
  size := 0
  bytes := fun _ => 0

/-- `ftruncate` to a larger size. -/
def extend (file : DataFile) (size : ℕ) : DataFile where
  size := size
  bytes := fun i => if i < file.size then file.bytes i else 0

/-- `memcpy` into the mapping. -/
def write (file : DataFile) (offset : ℕ) (data : List UInt8) : DataFile where
  size := file.size
  bytes := fun i =>
    if offset ≤ i ∧ i < offset + data.length then data.getD (i - offset) 0 else file.bytes i

/-- `memcpy` out of the mapping. -/
def read (file : DataFile) (offset size : ℕ) : List UInt8 :=
  (List.range' offset size).map file.bytes

variable {file : DataFile} {offset size : ℕ} {data : List UInt8}

theorem length_read : (file.read offset size).length = size := by
  rw [read, List.length_map, List.length_range']

theorem bytes_extend_of_le {i : ℕ} (h : file.size ≤ i) : (file.extend size).bytes i = 0 :=
  if_neg (Nat.not_lt.mpr h)

theorem read_add (file : DataFile) (offset size size' : ℕ) :
    file.read offset (size + size') =
      file.read offset size ++ file.read (offset + size) size' := by
  rw [read, read, read, ← List.map_append, List.range'_append_1]

/-- A write leaves what is before it. -/
theorem read_write_before {start : ℕ} (h : offset + size ≤ start) :
    (file.write start data).read offset size = file.read offset size := by
  refine List.map_congr_left fun i hi => if_neg ?_
  have hlt := (List.mem_range'_1.mp hi).2
  omega

theorem read_write_self : (file.write offset data).read offset data.length = data := by
  refine List.ext_getElem length_read fun i hi hi' => ?_
  have hin : offset ≤ offset + i ∧ offset + i < offset + data.length := by omega
  simp only [read, List.getElem_map, List.getElem_range', Nat.one_mul, write]
  rw [if_pos hin, Nat.add_sub_cancel_left, List.getD_eq_getElem _ _ hi']

/-- A part of the beginning of the file. -/
theorem take_drop_read {n : ℕ} (h : offset + size ≤ n) :
    ((file.read 0 n).drop offset).take size = file.read offset size := by
  obtain ⟨rest, rfl⟩ := Nat.exists_eq_add_of_le h
  rw [read_add, read_add, Nat.zero_add, List.append_assoc, List.drop_left' length_read,
    List.take_left' length_read]

end DataFile

structure CommitLog where
  fileSize : ℕ
  writeOffset : ℕ
  mmapLen : ℕ
  /-- The file, as it is seen through the mapping. -/
  file : DataFile

/-- `DEFAULT_FILE_SIZE`. -/
def defaultFileSize : ℕ := 1024 * 1024 * 1024

/-- The size a log is opened with. -/
def sizeOrDefault (fileSize : ℕ) : ℕ := if 0 < fileSize then fileSize else defaultFileSize

def commitLogOpen (file : DataFile) (fileSize : ℕ) : Option CommitLog :=
  if sizeOrDefault fileSize < 2 ^ 63 then
    some
      { fileSize := sizeOrDefault fileSize
        writeOffset := file.size
        mmapLen := sizeOrDefault fileSize
        file :=
          if file.size < sizeOrDefault fileSize then file.extend (sizeOrDefault fileSize)
          else file }
  else none

/-- `commit_log_close`: the file stays. -/
def commitLogClose (cl : CommitLog) : DataFile := cl.file

/-- `commit_log_append`, where `size` is the length of the data. -/
def commitLogAppend (cl : CommitLog) (data : List UInt8) : CommitLog × Except Status ℕ :=
  if data.length = 0 then (cl, .error .error)
  else if cl.fileSize < (cl.writeOffset + data.length) % 2 ^ 64 then (cl, .error .error)
  else
    ({ cl with
       file := cl.file.write cl.writeOffset data
       writeOffset := (cl.writeOffset + data.length) % 2 ^ 64 }, .ok cl.writeOffset)

def commitLogRead (cl : CommitLog) (offset size : ℕ) : Except Status (List UInt8) :=
  if cl.writeOffset < (offset + size) % 2 ^ 64 then .error .notFound
  else .ok (cl.file.read offset size)

namespace CommitLog

/-- **Abstraction**: the bytes of the log. -/
def content (cl : CommitLog) : List UInt8 := cl.file.read 0 cl.writeOffset

/-- A call of `commit_log_append` that succeeds; `size` is a `uint32_t`. -/
def step (cl : CommitLog) (data : List UInt8) : Option CommitLog :=
  if data.length < 2 ^ 32 then
    match commitLogAppend cl data with
    | (cl', .ok _) => some cl'
    | (_, .error _) => none
  else none

/-- The log has been made from a new file. -/
def Filled (fileSize : ℕ) (cl : CommitLog) : Prop :=
  ∃ cl₀, commitLogOpen .empty fileSize = some cl₀ ∧ Run step (fun _ _ _ => True) cl₀ cl

variable {cl cl' : CommitLog} {data : List UInt8}

theorem length_content : cl.content.length = cl.writeOffset := DataFile.length_read

theorem step_eq_some (h : cl.step data = some cl') :
    data.length < 2 ^ 32 ∧ (cl.writeOffset + data.length) % 2 ^ 64 ≤ cl.fileSize ∧
      cl' = { cl with
        file := cl.file.write cl.writeOffset data
        writeOffset := (cl.writeOffset + data.length) % 2 ^ 64 } := by
  rw [step, commitLogAppend] at h
  split_ifs at h with hsize hempty hfull
  exact ⟨hsize, Nat.not_lt.mp hfull, (Option.some.inj h).symm⟩

/-- **Reading** within the log reads its bytes. -/
theorem commitLogRead_eq {offset size : ℕ} (hlt : cl.writeOffset < 2 ^ 64)
    (h : offset + size ≤ cl.writeOffset) :
    commitLogRead cl offset size = .ok ((cl.content.drop offset).take size) := by
  have hmod : (offset + size) % 2 ^ 64 = offset + size :=
    Nat.mod_eq_of_lt (Nat.lt_of_le_of_lt h hlt)
  rw [commitLogRead, hmod, if_neg (Nat.not_lt.mpr h), content, DataFile.take_drop_read h]

/-- Both ends of the log are file offsets, which are signed. -/
structure InRange (cl : CommitLog) : Prop where
  fileSize_lt : cl.fileSize < 2 ^ 63
  writeOffset_lt : cl.writeOffset < 2 ^ 63

namespace InRange

/-- There is no wrap-around in the log. -/
theorem step_cases (h : cl.InRange) (hst : cl.step data = some cl') :
    cl.writeOffset + data.length ≤ cl.fileSize ∧
      cl' = { cl with
        file := cl.file.write cl.writeOffset data
        writeOffset := cl.writeOffset + data.length } := by
  obtain ⟨hsize, hroom, rfl⟩ := CommitLog.step_eq_some hst
  have hmod : (cl.writeOffset + data.length) % 2 ^ 64 = cl.writeOffset + data.length := by
    have hlt := h.writeOffset_lt
    exact Nat.mod_eq_of_lt (by omega)
  rw [hmod] at hroom ⊢
  exact ⟨hroom, rfl⟩

theorem step (h : cl.InRange) (hst : cl.step data = some cl') : cl'.InRange := by
  obtain ⟨hroom, rfl⟩ := h.step_cases hst
  exact ⟨h.fileSize_lt, Nat.lt_of_le_of_lt hroom h.fileSize_lt⟩

/-- **Appending** adds to the bytes of the log. -/
theorem content_step (h : cl.InRange) (hst : cl.step data = some cl') :
    cl'.content = cl.content ++ data := by
  obtain ⟨-, rfl⟩ := h.step_cases hst
  have hbefore : 0 + cl.writeOffset ≤ cl.writeOffset := Nat.le_of_eq (Nat.zero_add _)
  rw [CommitLog.content, CommitLog.content]
  dsimp only
  rw [DataFile.read_add, DataFile.read_write_before hbefore, Nat.zero_add,
    DataFile.read_write_self]

end InRange

end CommitLog

/-- **Invariant**: the file has been extended, the log ends in it, and behind the log it is
empty. -/
structure LogInv (fileSize : ℕ) (cl : CommitLog) : Prop where
  fileSize_eq : cl.fileSize = sizeOrDefault fileSize
  lt : cl.fileSize < 2 ^ 63
  mmapLen_eq : cl.mmapLen = cl.fileSize
  size_eq : cl.file.size = cl.fileSize
  le : cl.writeOffset ≤ cl.fileSize
  rest : ∀ i, cl.writeOffset ≤ i → cl.file.bytes i = 0

namespace LogInv

variable {fileSize : ℕ} {cl cl' : CommitLog} {data : List UInt8}

theorem of_open (h : commitLogOpen .empty fileSize = some cl) : LogInv fileSize cl := by
  have hpos : DataFile.empty.size < sizeOrDefault fileSize := by
    rw [sizeOrDefault]
    split
    · assumption
    · decide
  rw [commitLogOpen, if_pos hpos] at h
  split at h
  · rename_i hlt
    cases h
    exact ⟨rfl, hlt, rfl, rfl, Nat.zero_le _, fun _ => DataFile.bytes_extend_of_le⟩
  · cases h

theorem inRange (h : LogInv fileSize cl) : cl.InRange :=
  ⟨h.lt, Nat.lt_of_le_of_lt h.le h.lt⟩

/-- An append that fits into the file leaves the rest of it empty. -/
theorem step (h : LogInv fileSize cl) (hst : cl.step data = some cl') : LogInv fileSize cl' := by
  obtain ⟨hroom, rfl⟩ := h.inRange.step_cases hst
  refine ⟨h.fileSize_eq, h.lt, h.mmapLen_eq, h.size_eq, hroom, fun i hi => ?_⟩
  have hle : cl.writeOffset + data.length ≤ i := hi
  have hout : ¬ (cl.writeOffset ≤ i ∧ i < cl.writeOffset + data.length) := by omega
  exact (if_neg hout).trans (h.rest i (by omega))

theorem of_filled (h : cl.Filled fileSize) : LogInv fileSize cl := by
  obtain ⟨cl₀, hopen, hrun⟩ := h
  refine hrun.invariant (P := LogInv fileSize) (of_open hopen) ?_
  exact fun _ _ _ hinv _ hst => hinv.step hst

/-- **Reopening.** The file is as it was, and the log ends where the file does. -/
theorem reopened (h : LogInv fileSize cl) :
    commitLogOpen (commitLogClose cl) fileSize = some { cl with writeOffset := cl.fileSize } := by
  have hmmap := h.mmapLen_eq
  rw [commitLogOpen, commitLogClose, ← h.fileSize_eq, if_pos h.lt, h.size_eq,
    if_neg (Nat.lt_irrefl _), ← hmmap]

theorem content_reopened (h : LogInv fileSize cl) :
    CommitLog.content { cl with writeOffset := cl.fileSize } =
      cl.content ++ List.replicate (cl.fileSize - cl.writeOffset) 0 := by
  obtain ⟨rest, hrest⟩ := Nat.exists_eq_add_of_le h.le
  have hzero : cl.file.read cl.writeOffset rest = List.replicate rest 0 := by
    refine List.eq_replicate_iff.mpr ⟨DataFile.length_read, fun b hb => ?_⟩
    obtain ⟨i, hi, rfl⟩ := List.mem_map.mp hb
    exact h.rest i (List.mem_range'_1.mp hi).1
  rw [CommitLog.content, CommitLog.content, hrest, DataFile.read_add, Nat.zero_add, hzero,
    Nat.add_sub_cancel_left]

end LogInv

end DistributedMQ.CStorage
