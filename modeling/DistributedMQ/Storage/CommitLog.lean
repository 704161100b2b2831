import DistributedMQ.Lib.Machine
import DistributedMQ.Raft.Types

/-!
# The commit log (`storage/bridge_go.go` lines 41–81 and 172–253)

A commit log is a sequence of records with a running byte offset. `Append`
writes a record at the *end* of the file of the 1 MiB segment its offset falls
into; `Read` looks for it at `offset mod 1 MiB` in that file. The two places are
the same as long as every segment file starts with a record whose offset is a
multiple of 1 MiB.

- `CommitLog.Aligned`: the next record goes where `Read` will look for it.
- `read_after_append`: a record appended to an aligned log is read back at every
  later point, whatever is appended after it.
- `aligned_of_fits`: a new log is aligned as long as no record has run over a
  segment boundary. `CommitLog.Fresh.aligned_append_iff`: a record that leaves its segment keeps
  the log aligned iff it ends on a multiple of 1 MiB.
- `second_segment_unreadable`: a record of 1 MiB less 19 bytes makes the next
  one unreadable.

File operations succeed; a read of a regular file returns what there is, up to
the size asked for. Clock readings are arguments.
-/

namespace DistributedMQ.Storage

open Machine

/-- The bytes the shift-and-mask loops of `Append` write, most significant
first. -/
def bigEndian (width value : ℕ) : List UInt8 :=
  (List.range width).map fun i => UInt8.ofNat (value >>> (8 * (width - 1) - i * 8))

def headerSize : ℕ := 20

/-- The header of a record: offset, timestamp, length. -/
def recordHeader (offset timestamp length : ℕ) : List UInt8 :=
  bigEndian 8 offset ++ bigEndian 8 timestamp ++ bigEndian 4 length

theorem length_recordHeader (offset timestamp length : ℕ) :
    (recordHeader offset timestamp length).length = headerSize := by
  simp [recordHeader, bigEndian, headerSize]

structure CommitLog where
  /-- The files `segment_<n>.log` under `basePath`. -/
  files : GoMap ℕ (List UInt8)
  /-- The segments with an open file. -/
  segments : List ℕ
  lastOffset : ℕ

namespace CommitLog

/-- `OpenCommitLog`: the offset to continue at is the size of the largest
segment file. -/
def openCommitLog (files : GoMap ℕ (List UInt8)) : CommitLog where
  files := files
  segments := []
  lastOffset := (GoMap.values files).foldl (fun last file => max file.length last) 0

/-- The number in the name of the segment file. -/
def segKey (offset : ℕ) : ℕ := offset / 1024 / 1024

/-- The file of a segment, empty if it has to be created. -/
def file (cl : CommitLog) (key : ℕ) : List UInt8 := cl.files.get key []

/-- `Append`: the log afterwards and the offset of the record. -/
def append (cl : CommitLog) (timestamp : ℕ) (data : List UInt8) : CommitLog × ℕ :=
  let offset := cl.lastOffset
  let fullData := recordHeader offset timestamp data.length ++ data
  let key := segKey offset
  ({ files := cl.files.insert key (cl.file key ++ fullData)
     segments := if key ∈ cl.segments then cl.segments else key :: cl.segments
     lastOffset := offset + fullData.length }, offset)

/-- `Read`: `none` if the segment file does not exist or ends before the record.
A short read leaves the rest of the buffer zero. -/
def read (cl : CommitLog) (offset size : ℕ) : Option (List UInt8) :=
  match cl.files.lookup (segKey offset) with
  | none => none
  | some file =>
    let seekOffset := offset % (1024 * 1024) + headerSize
    let got := (file.drop seekOffset).take size
    if got = [] ∧ 0 < size then none else some (got ++ List.replicate (size - got.length) 0)

/-- The log under a sequence of appends. -/
def step (cl : CommitLog) (record : ℕ × List UInt8) : Option CommitLog :=
  some (cl.append record.1 record.2).1

/-- **Aligned.** The file of the next record's segment ends where `Read` will
look for the record. -/
def Aligned (cl : CommitLog) : Prop :=
  (cl.file (segKey cl.lastOffset)).length = cl.lastOffset % (1024 * 1024)

instance (cl : CommitLog) : Decidable cl.Aligned :=
  inferInstanceAs (Decidable (_ = _))

/-- The record at `offset` with these data is where `Read` looks for it. -/
def Stored (cl : CommitLog) (offset : ℕ) (data : List UInt8) : Prop :=
  ∃ before after, before.length = offset % (1024 * 1024) + headerSize ∧
    cl.files.lookup (segKey offset) = some (before ++ data ++ after)

variable {cl cl' : CommitLog}

theorem files_append (cl : CommitLog) (timestamp : ℕ) (data : List UInt8) :
    (cl.append timestamp data).1.files.lookup (segKey cl.lastOffset) =
      some (cl.file (segKey cl.lastOffset) ++
        (recordHeader cl.lastOffset timestamp data.length ++ data)) :=
  AList.lookup_insert _

theorem files_append_ne {key : ℕ} (h : key ≠ segKey cl.lastOffset) (timestamp : ℕ)
    (data : List UInt8) :
    (cl.append timestamp data).1.files.lookup key = cl.files.lookup key :=
  AList.lookup_insert_ne h

/-- Every file of `cl` is still there, with something appended. -/
def Grows (cl cl' : CommitLog) : Prop :=
  ∀ key file, cl.files.lookup key = some file →
    ∃ more, cl'.files.lookup key = some (file ++ more)

theorem file_of_lookup {key : ℕ} {file : List UInt8} (h : cl.files.lookup key = some file) :
    cl.file key = file := by
  rw [CommitLog.file, GoMap.get, h, Option.getD_some]

theorem grows_insert {key : ℕ} {more : List UInt8}
    (h : cl'.files = cl.files.insert key (cl.file key ++ more)) : cl.Grows cl' := by
  intro key' file hfile
  rw [h]
  by_cases hkey : key' = key
  · subst hkey
    refine ⟨more, ?_⟩
    rw [AList.lookup_insert, file_of_lookup hfile]
  · refine ⟨[], ?_⟩
    rw [AList.lookup_insert_ne hkey, hfile, List.append_nil]

theorem Stored.grows {offset : ℕ} {data : List UInt8} (h : cl.Stored offset data)
    (hgrows : cl.Grows cl') :
    cl'.Stored offset data := by
  obtain ⟨before, after, hlen, hfile⟩ := h
  obtain ⟨more, hmore⟩ := hgrows _ _ hfile
  exact ⟨before, after ++ more, hlen, by rw [hmore, List.append_assoc]⟩

theorem lastOffset_append (cl : CommitLog) (timestamp : ℕ) (data : List UInt8) :
    (cl.append timestamp data).1.lastOffset = cl.lastOffset + headerSize + data.length := by
  show cl.lastOffset + (recordHeader _ _ _ ++ data).length = _
  rw [List.length_append, length_recordHeader, Nat.add_assoc]

theorem Aligned.stored (h : cl.Aligned) (timestamp : ℕ) (data : List UInt8) :
    (cl.append timestamp data).1.Stored cl.lastOffset data := by
  refine ⟨cl.file (segKey cl.lastOffset) ++ recordHeader cl.lastOffset timestamp data.length,
    [], ?_, ?_⟩
  · rw [List.length_append, length_recordHeader, h]
  · rw [files_append, List.append_nil, List.append_assoc]

/-- **Step.** Later appends leave a stored record alone, aligned or not. -/
theorem Stored.append {offset : ℕ} {data : List UInt8} (h : cl.Stored offset data)
    (timestamp : ℕ) (data' : List UInt8) : (cl.append timestamp data').1.Stored offset data :=
  h.grows (grows_insert rfl)

/-- What is stored is read. -/
theorem Stored.read {offset : ℕ} {data : List UInt8} (h : cl.Stored offset data) :
    cl.read offset data.length = some data := by
  obtain ⟨before, after, hlen, hfile⟩ := h
  have hgot : ((before ++ data ++ after).drop (offset % (1024 * 1024) + headerSize)).take
      data.length = data := by
    rw [← hlen, List.append_assoc, List.drop_left, List.take_left]
  rw [CommitLog.read, hfile]
  dsimp only
  rw [hgot, if_neg]
  · rw [Nat.sub_self, List.replicate_zero, List.append_nil]
  · rintro ⟨rfl, hpos⟩
    exact absurd hpos (Nat.lt_irrefl 0)

/-! ### When a log is aligned -/

/-- No segment has been written behind the current one. -/
def Fresh (cl : CommitLog) : Prop :=
  ∀ key, segKey cl.lastOffset < key → cl.files.lookup key = none

theorem segKey_eq (offset : ℕ) : segKey offset = offset / (1024 * 1024) :=
  Nat.div_div_eq_div_mul ..

theorem segKey_mono {a b : ℕ} (h : a ≤ b) : segKey a ≤ segKey b := by
  rw [segKey_eq, segKey_eq]
  exact Nat.div_le_div_right h

theorem segKey_le_append (cl : CommitLog) (timestamp : ℕ) (data : List UInt8) :
    segKey cl.lastOffset ≤ segKey (cl.append timestamp data).1.lastOffset := by
  refine segKey_mono ?_
  rw [lastOffset_append]
  omega

theorem aligned_open : (openCommitLog ∅).Aligned := rfl

theorem fresh_open : (openCommitLog ∅).Fresh := fun _ _ => rfl

theorem Fresh.append (h : cl.Fresh) (timestamp : ℕ) (data : List UInt8) :
    (cl.append timestamp data).1.Fresh := by
  intro key hkey
  have hlt := (segKey_le_append cl timestamp data).trans_lt hkey
  rw [files_append_ne (Nat.ne_of_gt hlt)]
  exact h key hlt

theorem Fresh.file_append_ne (h : cl.Fresh) {timestamp : ℕ} {data : List UInt8}
    (hne : segKey (cl.append timestamp data).1.lastOffset ≠ segKey cl.lastOffset) :
    (cl.append timestamp data).1.file (segKey (cl.append timestamp data).1.lastOffset) = [] := by
  have hlt := lt_of_le_of_ne (segKey_le_append cl timestamp data) hne.symm
  rw [CommitLog.file, GoMap.get, files_append_ne hne, h _ hlt, Option.getD_none]

/-- **Alignment.** After a record that leaves its segment the log is aligned iff
the record ends on a multiple of 1 MiB. -/
theorem Fresh.aligned_append_iff (h : cl.Fresh) {timestamp : ℕ} {data : List UInt8}
    (hne : segKey (cl.append timestamp data).1.lastOffset ≠ segKey cl.lastOffset) :
    (cl.append timestamp data).1.Aligned ↔
      (cl.lastOffset + headerSize + data.length) % (1024 * 1024) = 0 := by
  rw [Aligned, h.file_append_ne hne, lastOffset_append]
  exact eq_comm

/-- A record that stays in its segment keeps the log aligned. -/
theorem Aligned.append (h : cl.Aligned) {timestamp : ℕ} {data : List UInt8}
    (heq : segKey (cl.append timestamp data).1.lastOffset = segKey cl.lastOffset) :
    (cl.append timestamp data).1.Aligned := by
  have hfile : (cl.append timestamp data).1.file (segKey cl.lastOffset) =
      cl.file (segKey cl.lastOffset) ++
        (recordHeader cl.lastOffset timestamp data.length ++ data) := by
    rw [CommitLog.file, GoMap.get, files_append, Option.getD_some]
  rw [Aligned, heq, hfile, List.length_append, List.length_append, length_recordHeader, h,
    lastOffset_append]
  rw [segKey_eq, segKey_eq, lastOffset_append] at heq
  -- the quotient stays, so the remainder grows by the length of the record
  have h₁ := Nat.div_add_mod cl.lastOffset (1024 * 1024)
  have h₂ := Nat.div_add_mod (cl.lastOffset + headerSize + data.length) (1024 * 1024)
  rw [heq] at h₂
  omega

end CommitLog

/-- The record ends in the segment it starts in, or on a multiple of 1 MiB. -/
def CommitLog.Fits (s : CommitLog) (record : ℕ × List UInt8) (_ : CommitLog) : Prop :=
  CommitLog.segKey (s.lastOffset + headerSize + record.2.length) =
      CommitLog.segKey s.lastOffset ∨
    (s.lastOffset + headerSize + record.2.length) % (1024 * 1024) = 0

/-- **Step.** A record that fits keeps a fresh log aligned. -/
theorem CommitLog.Fits.aligned_append {s t : CommitLog} {timestamp : ℕ} {data : List UInt8}
    (hfits : s.Fits (timestamp, data) t) (haligned : s.Aligned) (hfresh : s.Fresh) :
    (s.append timestamp data).1.Aligned := by
  by_cases heq : segKey (s.append timestamp data).1.lastOffset = segKey s.lastOffset
  · exact haligned.append heq
  · refine (hfresh.aligned_append_iff heq).mpr (hfits.resolve_left ?_)
    rwa [lastOffset_append] at heq

/-- **Run.** A new log stays aligned as long as every record fits. -/
theorem aligned_of_fits {t : CommitLog}
    (hrun : Run CommitLog.step CommitLog.Fits (CommitLog.openCommitLog ∅) t) :
    t.Aligned ∧ t.Fresh := by
  refine hrun.invariant (P := fun s => s.Aligned ∧ s.Fresh)
    ⟨CommitLog.aligned_open, CommitLog.fresh_open⟩ ?_
  rintro s ⟨timestamp, data⟩ u ⟨haligned, hfresh⟩ hfits hstep
  cases hstep
  exact ⟨hfits.aligned_append haligned hfresh, hfresh.append timestamp data⟩

/-- **Read after append.** A record whose segment file ends at its offset modulo
1 MiB when it is appended is read back with its data at every later point. -/
theorem read_after_append {s t : CommitLog} {timestamp : ℕ} {data : List UInt8}
    (haligned : s.Aligned)
    (hrun : Run CommitLog.step (fun _ _ _ => True) (s.append timestamp data).1 t) :
    t.read (s.append timestamp data).2 data.length = some data := by
  have hstored : t.Stored s.lastOffset data := by
    refine hrun.invariant (P := fun u => u.Stored s.lastOffset data)
      (haligned.stored timestamp data) ?_
    intro u record v hu _ hstep
    cases hstep
    exact hu.append record.1 record.2
  exact hstored.read

/-- Two records in a new log, and the first one read. -/
theorem read_after_append_two :
    (((CommitLog.openCommitLog ∅).append 5 [1, 2]).1.append 6 [3]).1.read 0 2 = some [1, 2] :=
  read_after_append (s := CommitLog.openCommitLog ∅) CommitLog.aligned_open
    (Run.refl.tail (l := (6, [3])) trivial rfl)

section overrun

variable (data : List UInt8)

/-- The log after one record. -/
def overrun : CommitLog := ((CommitLog.openCommitLog ∅).append 0 data).1

variable {data}

theorem lastOffset_overrun (hlen : data.length = 1048557) :
    (overrun data).lastOffset = 1048577 := by
  rw [overrun, CommitLog.lastOffset_append, hlen]
  rfl

/-- A record that ends one byte behind the first segment leaves the file of the
second one empty. -/
theorem file_overrun (hlen : data.length = 1048557) : (overrun data).file 1 = [] := by
  have hkey : CommitLog.segKey (overrun data).lastOffset = 1 := by
    rw [lastOffset_overrun hlen]
    rfl
  have hfile : (overrun data).file (CommitLog.segKey (overrun data).lastOffset) = [] := by
    refine CommitLog.fresh_open.file_append_ne ?_
    show CommitLog.segKey (overrun data).lastOffset ≠ 0
    rw [hkey]
    exact Nat.one_ne_zero
  rwa [hkey] at hfile

/-- The record after it gets offset 1 MiB + 1 but stands at the start of that
file, and a read of it seeks past the end. -/
theorem read_overrun (hlen : data.length = 1048557) :
    ((overrun data).append 0 [7]).2 = 1048577 ∧
      ((overrun data).append 0 [7]).1.read 1048577 1 = none := by
  refine ⟨lastOffset_overrun hlen, ?_⟩
  have hlookup := CommitLog.files_append (overrun data) 0 [7]
  rw [lastOffset_overrun hlen, show CommitLog.segKey 1048577 = 1 from rfl,
    file_overrun hlen] at hlookup
  rw [CommitLog.read, show CommitLog.segKey 1048577 = 1 from rfl, hlookup]
  decide

theorem run_overrun (data : List UInt8) :
    Run CommitLog.step (fun _ _ _ => True) (CommitLog.openCommitLog ∅) (overrun data) :=
  Run.refl.tail (l := (0, data)) trivial rfl

end overrun

/-- A new log, a record of 1048557 bytes and a record of one byte: the second
one cannot be read back. -/
theorem second_segment_unreadable :
    Run CommitLog.step (fun _ _ _ => True) (CommitLog.openCommitLog ∅)
        (overrun (List.replicate 1048557 0)) ∧
      ((overrun (List.replicate 1048557 0)).append 0 [7]).2 = 1048577 ∧
      ((overrun (List.replicate 1048557 0)).append 0 [7]).1.read 1048577 1 = none :=
  ⟨run_overrun _, read_overrun List.length_replicate⟩

end DistributedMQ.Storage
