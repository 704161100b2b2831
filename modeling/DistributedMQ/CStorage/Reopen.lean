import DistributedMQ.CStorage.SparseIndex

/-!
# Reopening the C storage (`commit_log.c` lines 25–113, `sparse_index.c` lines 23–168)

`commit_log_open` and `sparse_index_open` take the size of the file for the end of what is in it,
but the first of them that opened the file has extended it. Whatever was written is still there
(`RecordsReadBack`, `EntriesReadBack`), with the rest of the file behind it: the log and the index
are restored iff they were full (`reopen_restores_iff`).
-/

namespace DistributedMQ.CStorage

open Machine

/-- Everything that could be read from the log is read again. -/
def RecordsReadBack (cl cl' : CommitLog) : Prop :=
  ∀ offset size, offset + size ≤ cl.writeOffset →
    ∃ data, commitLogRead cl offset size = .ok data ∧ commitLogRead cl' offset size = .ok data

/-- The log is as before: `write_offset`, and every record. -/
structure LogRestored (cl cl' : CommitLog) : Prop where
  writeOffset : cl'.writeOffset = cl.writeOffset
  records : RecordsReadBack cl cl'

/-- Every entry of the index is read again, by its offset and by its number. -/
structure EntriesReadBack (idx idx' : SparseIndex) : Prop where
  gets : ∀ offset entry, sparseIndexGet idx offset = .ok entry →
    sparseIndexGet idx' offset = .ok entry
  entriesAt : ∀ (index : ℤ) (entry : IndexEntry), index < idx.entryCount →
    sparseIndexGetEntryAt idx' index entry = sparseIndexGetEntryAt idx index entry

/-- The index is as before: `entry_count`, `last_offset`, every entry, and every search. -/
structure IndexRestored (idx idx' : SparseIndex) : Prop where
  entryCount : sparseIndexGetEntryCount idx' = sparseIndexGetEntryCount idx
  lastOffset : sparseIndexGetLastOffset idx' = sparseIndexGetLastOffset idx
  entries : EntriesReadBack idx idx'
  lookups : ∀ fuel timestamp,
    sparseIndexLookup fuel idx' timestamp = sparseIndexLookup fuel idx timestamp

section log

variable {fileSize : ℕ} {cl : CommitLog}

theorem LogInv.recordsReadBack (h : LogInv fileSize cl) :
    RecordsReadBack cl { cl with writeOffset := cl.fileSize } := by
  intro offset size hin
  have hlt : cl.fileSize < 2 ^ 64 := h.lt.trans (by decide)
  have hlen : offset + size ≤ cl.content.length := CommitLog.length_content.symm ▸ hin
  refine ⟨_, CommitLog.commitLogRead_eq (h.le.trans_lt hlt) hin, ?_⟩
  rw [CommitLog.commitLogRead_eq hlt (hin.trans h.le), h.content_reopened,
    List.drop_append_of_le_length (by omega),
    List.take_append_of_le_length (by rw [List.length_drop]; omega)]

theorem LogInv.restored_iff (h : LogInv fileSize cl) :
    LogRestored cl { cl with writeOffset := cl.fileSize } ↔ cl.writeOffset = cl.fileSize :=
  ⟨fun hrestored => hrestored.writeOffset.symm, fun hfull => ⟨hfull.symm, h.recordsReadBack⟩⟩

end log

section index

variable {idx : SparseIndex}

theorem IndexInv.entriesReadBack (h : IndexInv idx) :
    EntriesReadBack idx (sparseIndexOpen (sparseIndexClose idx)) := by
  refine ⟨fun offset entry hget => ?_, fun index entry hlt => ?_⟩
  · rw [SparseIndex.sparseIndexGet_eq, answer_eq_ok] at hget ⊢
    rw [h.entries_reopened, List.find?_append, hget]
    rfl
  · have hle : (idx.entryCount : ℤ) ≤ maxEntries := Int.ofNat_le.mpr h.le
    rw [h.reopened, sparseIndexGetEntryAt, sparseIndexGetEntryAt]
    dsimp only
    by_cases hneg : index < 0
    · rw [if_pos (.inl hneg), if_pos (.inl hneg)]
    · rw [if_neg (by omega), if_neg (by omega)]

theorem IndexInv.restored_iff (h : IndexInv idx) :
    IndexRestored idx (sparseIndexOpen (sparseIndexClose idx)) ↔
      idx.entryCount = maxEntries := by
  constructor
  · intro hrestored
    have hcount := hrestored.entryCount
    rw [sparseIndexGetEntryCount, sparseIndexGetEntryCount, h.reopened] at hcount
    exact hcount.symm
  · intro hfull
    -- the index is the same one
    have hsame : sparseIndexOpen (sparseIndexClose idx) = idx := by
      have hpos : 0 < idx.entryCount := hfull ▸ (by decide : 0 < maxEntries)
      have hlast := h.lastOffset_eq
      rw [if_pos hpos] at hlast
      rw [h.reopened, ← hfull, ← hlast]
    have hentries := h.entriesReadBack
    rw [hsame] at hentries ⊢
    exact ⟨rfl, rfl, hentries, fun _ _ => rfl⟩

end index

/-- **Reopening** finds every record and every entry, and more than that unless there is no room
left in the files. -/
theorem reopen_restores_iff {fileSize : ℕ} {cl : CommitLog} {idx : SparseIndex}
    (hcl : cl.Filled fileSize) (hidx : idx.Filled) :
    ∃ cl', commitLogOpen (commitLogClose cl) fileSize = some cl' ∧
      RecordsReadBack cl cl' ∧
      EntriesReadBack idx (sparseIndexOpen (sparseIndexClose idx)) ∧
      (LogRestored cl cl' ↔ cl.writeOffset = cl.fileSize) ∧
      (IndexRestored idx (sparseIndexOpen (sparseIndexClose idx)) ↔
        idx.entryCount = maxEntries) := by
  have hlog := LogInv.of_filled hcl
  have hindex := IndexInv.of_filled hidx
  exact ⟨_, hlog.reopened, hlog.recordsReadBack, hindex.entriesReadBack, hlog.restored_iff,
    hindex.restored_iff⟩

/-- There is an index of every size. -/
theorem SparseIndex.exists_filled {n : ℕ} (h : n ≤ maxEntries) :
    ∃ idx : SparseIndex, idx.Filled ∧ idx.entryCount = n := by
  induction n with
  | zero => exact ⟨_, .refl, rfl⟩
  | succ n ih =>
    obtain ⟨idx, hfilled, hcount⟩ := ih (Nat.le_of_succ_le h)
    have hroom : ¬ maxEntries ≤ idx.entryCount := by omega
    have hst : idx.step .zero = some (sparseIndexPut idx 0 0 0).1 := by
      rw [SparseIndex.step, if_pos (by decide), sparseIndexPut, sparseIndexPut, if_neg hroom,
        if_neg hroom]
      rfl
    refine ⟨_, hfilled.tail trivial hst, ?_⟩
    rw [sparseIndexPut, if_neg hroom, hcount]

/-- A log of one byte and an index of `MAX_ENTRIES` entries are restored. -/
theorem reopen_restores_full : ∃ cl idx, cl.Filled 1 ∧ idx.Filled ∧
    ∃ cl', commitLogOpen (commitLogClose cl) 1 = some cl' ∧ LogRestored cl cl' ∧
      IndexRestored idx (sparseIndexOpen (sparseIndexClose idx)) := by
  obtain ⟨cl, hrun, hfull⟩ : ∃ cl,
      Run CommitLog.step (fun _ _ _ => True) ⟨1, 0, 1, DataFile.empty.extend 1⟩ cl ∧
        cl.writeOffset = cl.fileSize :=
    exists_run_of_execWith [[7]] (by decide +kernel)
  have hcl : cl.Filled 1 := ⟨_, rfl, hrun⟩
  obtain ⟨idx, hidx, hcount⟩ := SparseIndex.exists_filled (Nat.le_refl maxEntries)
  obtain ⟨cl', hopen, -, -, hlog, hindex⟩ := reopen_restores_iff hcl hidx
  exact ⟨cl, idx, hcl, hidx, cl', hopen, hlog.mpr hfull, hindex.mpr hcount⟩

/-- With one byte in a log of four, the reopened log ends at 4; with one entry in the index, the
reopened index has `MAX_ENTRIES` entries and the last offset 0, and the search does not find the
entry any more. -/
theorem reopen_moves_ends : ∃ cl idx, cl.Filled 4 ∧ idx.Filled ∧
    cl.writeOffset = 1 ∧
    (commitLogOpen (commitLogClose cl) 4).map CommitLog.writeOffset = some 4 ∧
    idx.entryCount = 1 ∧ idx.lastOffset = 5 ∧
    (sparseIndexOpen (sparseIndexClose idx)).entryCount = 10485760 ∧
    (sparseIndexOpen (sparseIndexClose idx)).lastOffset = 0 ∧
    sparseIndexLookup 30 idx 7 = some (.ok ⟨5, 1, 7⟩) ∧
    sparseIndexLookup 30 (sparseIndexOpen (sparseIndexClose idx)) 7 = some (.error .notFound) := by
  obtain ⟨cl, hcl, hwrite, hreopen⟩ : ∃ cl,
      Run CommitLog.step (fun _ _ _ => True) ⟨4, 0, 4, DataFile.empty.extend 4⟩ cl ∧
        cl.writeOffset = 1 ∧
        (commitLogOpen (commitLogClose cl) 4).map CommitLog.writeOffset = some 4 :=
    exists_run_of_execWith [[1]] (by decide +kernel)
  obtain ⟨idx, hidx, hends⟩ : ∃ idx,
      Run SparseIndex.step (fun _ _ _ => True) (sparseIndexOpen .empty) idx ∧
        idx.entryCount = 1 ∧ idx.lastOffset = 5 ∧
        (sparseIndexOpen (sparseIndexClose idx)).entryCount = 10485760 ∧
        (sparseIndexOpen (sparseIndexClose idx)).lastOffset = 0 ∧
        sparseIndexLookup 30 idx 7 = some (.ok ⟨5, 1, 7⟩) ∧
        sparseIndexLookup 30 (sparseIndexOpen (sparseIndexClose idx)) 7 =
          some (.error .notFound) :=
    exists_run_of_execWith [⟨5, 1, 7⟩] (by decide +kernel)
  exact ⟨cl, idx, ⟨_, rfl, hcl⟩, hidx, hwrite, hreopen, hends⟩

end DistributedMQ.CStorage
