import DistributedMQ.CStorage.CommitLog

/-!
# Reading within the commit log in C (`commit_log.c` lines 25–113)

`commit_log_read` compares `offset + size` with `write_offset` only. The sum wraps around at
`2 ^ 64`, and `write_offset` is the size that the file had when it was opened, which may be more
than the `file_size` bytes that are mapped.

- `OpenInv`: what holds after any calls of `commit_log_append`, whatever file the log was opened on.
- `readBack_of_append`: what was appended is read back.
- `commitLogRead_inBounds_iff`: a read that succeeds is within the log and the mapping, unless the
  sum wraps around or the file is larger than the mapping.

A read that leaves the mapping is undefined in C; here it returns some bytes. Calls of
`commit_log_append` that fail change nothing and are left out of the runs.
-/

namespace DistributedMQ.CStorage

open Machine

/-- The log was opened on the file, and calls of `commit_log_append` followed. -/
def CommitLog.Opened (file : DataFile) (fileSize : ℕ) (cl : CommitLog) : Prop :=
  ∃ cl₀, commitLogOpen file fileSize = some cl₀ ∧
    Run CommitLog.step (fun _ _ _ => True) cl₀ cl

/-- **Invariant**: the mapping has the size that was asked for, and the log ends behind it only if
the file did. -/
structure OpenInv (file : DataFile) (fileSize : ℕ) (cl : CommitLog) : Prop where
  inRange : cl.InRange
  mmapLen_eq : cl.mmapLen = cl.fileSize
  fileSize_eq : cl.fileSize = sizeOrDefault fileSize
  behind : cl.mmapLen < cl.writeOffset ↔ sizeOrDefault fileSize < file.size

variable {file : DataFile} {fileSize : ℕ} {cl cl' : CommitLog} {data : List UInt8}

namespace OpenInv

theorem of_open (hfile : file.size < 2 ^ 63) (h : commitLogOpen file fileSize = some cl) :
    OpenInv file fileSize cl := by
  rw [commitLogOpen] at h
  split at h
  · rename_i hlt
    cases h
    exact ⟨⟨hlt, hfile⟩, rfl, rfl, Iff.rfl⟩
  · cases h

/-- **Step.** Where there was room for the data, the log ended in the mapping and still does. -/
theorem step (h : OpenInv file fileSize cl) (hst : cl.step data = some cl') :
    OpenInv file fileSize cl' := by
  have hrange := h.inRange.step hst
  obtain ⟨hroom, rfl⟩ := h.inRange.step_cases hst
  have hmmap := h.mmapLen_eq
  refine ⟨hrange, hmmap, h.fileSize_eq, ?_⟩
  rw [← h.behind]
  exact ⟨fun hlt => absurd hlt (by dsimp only; omega), fun hlt => absurd hlt (by omega)⟩

theorem of_opened (hfile : file.size < 2 ^ 63) (h : cl.Opened file fileSize) :
    OpenInv file fileSize cl := by
  obtain ⟨cl₀, hopen, hrun⟩ := h
  refine hrun.invariant (P := OpenInv file fileSize) (of_open hfile hopen) ?_
  exact fun _ _ _ hinv _ hst => hinv.step hst

end OpenInv

/-- A call of `commit_log_append` that succeeds is a step, and its offset is the end of the log. -/
theorem step_of_commitLogAppend {offset : ℕ} (hsize : data.length < 2 ^ 32)
    (h : commitLogAppend cl data = (cl', .ok offset)) :
    cl.step data = some cl' ∧ offset = cl.writeOffset := by
  refine ⟨?_, ?_⟩
  · rw [CommitLog.step, if_pos hsize, h]
  · rw [commitLogAppend] at h
    split_ifs at h with hempty hfull
    · cases h
    · cases h
    · exact (Except.ok.inj (Prod.mk.inj h).2).symm

/-- Later calls only add to the bytes of the log. -/
theorem exists_content_of_run (h : cl.InRange) {cl' : CommitLog}
    (hrun : Run CommitLog.step (fun _ _ _ => True) cl cl') :
    cl'.InRange ∧ ∃ rest, cl'.content = cl.content ++ rest := by
  refine hrun.invariant (P := fun c => c.InRange ∧ ∃ rest, c.content = cl.content ++ rest)
    ⟨h, [], (List.append_nil _).symm⟩ ?_
  rintro c data c' ⟨hrange, rest, hrest⟩ - hst
  refine ⟨hrange.step hst, rest ++ data, ?_⟩
  rw [hrange.content_step hst, hrest, List.append_assoc]

/-- **Reading back** what was appended, after any later calls. -/
theorem readBack_of_append {cl'' : CommitLog} {offset : ℕ} (h : cl.InRange)
    (hsize : data.length < 2 ^ 32) (happend : commitLogAppend cl data = (cl', .ok offset))
    (hrun : Run CommitLog.step (fun _ _ _ => True) cl' cl'') :
    commitLogRead cl'' offset data.length = .ok data := by
  obtain ⟨hst, rfl⟩ := step_of_commitLogAppend hsize happend
  obtain ⟨hrange, rest, hrest⟩ := exists_content_of_run (h.step hst) hrun
  rw [h.content_step hst, List.append_assoc] at hrest
  have hlength := congrArg List.length hrest
  rw [CommitLog.length_content, List.length_append, CommitLog.length_content,
    List.length_append] at hlength
  have hlt : cl''.writeOffset < 2 ^ 64 := Nat.lt_trans hrange.writeOffset_lt (by decide)
  rw [CommitLog.commitLogRead_eq hlt (by omega), hrest,
    List.drop_left' CommitLog.length_content, List.take_left]

theorem commitLogRead_ok_iff {offset size : ℕ} :
    (∃ data, commitLogRead cl offset size = .ok data) ↔
      (offset + size) % 2 ^ 64 ≤ cl.writeOffset := by
  rw [commitLogRead]
  constructor
  · rintro ⟨data, hok⟩
    split at hok
    · cases hok
    · exact Nat.not_lt.mp ‹_›
  · intro hle
    rw [if_neg (Nat.not_lt.mpr hle)]
    exact ⟨_, rfl⟩

/-- **Bounds.** A read that succeeds is within the log and within the mapping iff the sum of its
offset and its size neither wraps around to a position of the log nor lies in a part of the log
behind the mapping. There is such a part iff the file was larger than the size that was asked for.
What was appended is read back in any case. -/
theorem commitLogRead_inBounds_iff (hfile : file.size < 2 ^ 63) (h : cl.Opened file fileSize) :
    (∀ offset size, offset < 2 ^ 64 → size < 2 ^ 32 →
      (((∃ data, commitLogRead cl offset size = .ok data) →
          offset + size ≤ cl.writeOffset ∧ offset + size ≤ cl.mmapLen) ↔
        (2 ^ 64 ≤ offset + size → cl.writeOffset < offset + size - 2 ^ 64) ∧
          (cl.mmapLen < offset + size → cl.writeOffset < offset + size))) ∧
      (cl.mmapLen < cl.writeOffset ↔ sizeOrDefault fileSize < file.size) ∧
      ∀ data cl' offset, data.length < 2 ^ 32 → commitLogAppend cl data = (cl', .ok offset) →
        ∀ cl'', Run CommitLog.step (fun _ _ _ => True) cl' cl'' →
          commitLogRead cl'' offset data.length = .ok data := by
  have hinv := OpenInv.of_opened hfile h
  refine ⟨fun offset size hoffset hsize => ?_, hinv.behind,
    fun data cl' offset hlen happend cl'' hrun =>
      readBack_of_append hinv.inRange hlen happend hrun⟩
  have hend := hinv.inRange.writeOffset_lt
  rw [commitLogRead_ok_iff]
  by_cases hwrap : 2 ^ 64 ≤ offset + size
  · -- the sum as a number is behind every log
    rw [Nat.mod_eq_sub_mod hwrap, Nat.mod_eq_of_lt (by omega)]
    omega
  · rw [Nat.mod_eq_of_lt (Nat.not_le.mp hwrap)]
    omega

/-- A new log of eight bytes with four of them written. -/
def fourBytes : CommitLog :=
  (commitLogAppend ⟨8, 0, 8, DataFile.empty.extend 8⟩ [1, 2, 3, 4]).1

theorem fourBytes_opened : fourBytes.Opened .empty 8 := by
  have hst : CommitLog.step ⟨8, 0, 8, DataFile.empty.extend 8⟩ [1, 2, 3, 4] = some fourBytes := rfl
  exact ⟨_, rfl, Run.refl.tail trivial hst⟩

/-- The read of the four bytes is within the log and the mapping, and two more bytes are read back
at the offset that their call returns. -/
theorem commitLogRead_inBounds_fourBytes :
    ((∃ data, commitLogRead fourBytes 0 4 = .ok data) ∧
      0 + 4 ≤ fourBytes.writeOffset ∧ 0 + 4 ≤ fourBytes.mmapLen) ∧
    ∃ cl', commitLogAppend fourBytes [5, 6] = (cl', .ok 4) ∧
      commitLogRead cl' 4 2 = .ok [5, 6] := by
  obtain ⟨hreads, -, hback⟩ := commitLogRead_inBounds_iff (by decide) fourBytes_opened
  have hok : ∃ data, commitLogRead fourBytes 0 4 = .ok data := ⟨_, rfl⟩
  exact ⟨⟨hok, (hreads 0 4 (by decide) (by decide)).mpr (by decide) hok⟩, _, rfl,
    hback [5, 6] _ _ (by decide) rfl _ .refl⟩

/-- Of a file of eight bytes that was opened with `file_size` 4, the four bytes behind the mapping
are read. In a new log the read of one byte at `2 ^ 64 - 1` succeeds, before the first byte of the
mapping. -/
theorem commitLogRead_out_of_bounds :
    (∃ cl, cl.Opened (DataFile.empty.extend 8) 4 ∧ cl.mmapLen = 4 ∧ cl.writeOffset = 8 ∧
      (∃ data, commitLogRead cl 4 4 = .ok data) ∧ cl.mmapLen < 4 + 4) ∧
    ∃ cl, cl.Opened .empty 4 ∧ cl.mmapLen = 4 ∧ cl.writeOffset = 0 ∧
      (∃ data, commitLogRead cl (2 ^ 64 - 1) 1 = .ok data) ∧
      cl.writeOffset < 2 ^ 64 - 1 + 1 ∧ cl.mmapLen < 2 ^ 64 - 1 + 1 := by
  refine ⟨⟨_, ⟨_, rfl, .refl⟩, rfl, rfl, commitLogRead_ok_iff.mpr ?_, ?_⟩,
    ⟨_, ⟨_, rfl, .refl⟩, rfl, rfl, commitLogRead_ok_iff.mpr ?_, ?_⟩⟩
  all_goals decide

end DistributedMQ.CStorage
