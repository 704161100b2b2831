import DistributedMQ.Storage.Reopen

/-!
# Appends that fail (`storage/bridge_go.go` lines 172–253)

`Append` moves `lastOffset` only after the whole record has been written. A write that stops in
the middle leaves its bytes in the file, and the next record, which gets the same offset, stands
behind them.

- `CommitLog.tryAppend`: `Append` with what the file system does, which `tryAppend_done` connects
  with `CommitLog.append`.
- `CommitLog.reads_later_iff_aligned`: every later record of the segment is read back iff the
  log is aligned.
- `failed_append_iff`: a failed append does no damage iff it leaves the file as long as the
  offset says; in an aligned log, iff it has not written a byte.
- `read_after_attempts`: as long as failed appends write nothing and the records that are written
  fit their segment, every record is read back, whatever happens later.
-/

namespace DistributedMQ.Storage

open Machine

/-- What the file system does for one record: all is well, the segment file cannot be opened, or
the write stops with an error after some bytes. -/
inductive FileOutcome where
  | done
  | openFails
  | writeFails (written : ℕ)
  deriving DecidableEq, Repr

namespace CommitLog

/-- `Append` with the outcome of its file operations; no offset for an error. A file that is
open already is not opened again. -/
def tryAppend (cl : CommitLog) (outcome : FileOutcome) (timestamp : ℕ) (data : List UInt8) :
    CommitLog × Option ℕ :=
  let offset := cl.lastOffset
  let fullData := recordHeader offset timestamp data.length ++ data
  let key := segKey offset
  if key ∉ cl.segments ∧ outcome = .openFails then (cl, none)
  else
    let segments := if key ∈ cl.segments then cl.segments else key :: cl.segments
    match outcome with
    | .writeFails written =>
      ({ files := cl.files.insert key (cl.file key ++ fullData.take written)
         segments := segments
         lastOffset := offset }, none)
    | _ =>
      ({ files := cl.files.insert key (cl.file key ++ fullData)
         segments := segments
         lastOffset := offset + fullData.length }, some offset)

/-- The part of a record that a failed write leaves in the file. -/
def torn (cl : CommitLog) (outcome : FileOutcome) (timestamp : ℕ) (data : List UInt8) :
    List UInt8 :=
  match outcome with
  | .writeFails written =>
    (recordHeader cl.lastOffset timestamp data.length ++ data).take written
  | _ => []

variable {cl cl' : CommitLog} {outcome : FileOutcome} {timestamp : ℕ} {data : List UInt8}

theorem tryAppend_done (cl : CommitLog) (timestamp : ℕ) (data : List UInt8) :
    cl.tryAppend .done timestamp data =
      ((cl.append timestamp data).1, some (cl.append timestamp data).2) := by
  simp only [tryAppend, append, reduceCtorEq, and_false, if_false]

/-- **Cases of `Append`.** It does all of its work and returns the offset, or returns an error
and leaves the offset, and at most a part of the record in the file. -/
theorem tryAppend_cases (cl : CommitLog) (outcome : FileOutcome) (timestamp : ℕ)
    (data : List UInt8) :
    cl.tryAppend outcome timestamp data =
        ((cl.append timestamp data).1, some (cl.append timestamp data).2) ∨
      ((cl.tryAppend outcome timestamp data).2 = none ∧
        (cl.tryAppend outcome timestamp data).1.lastOffset = cl.lastOffset ∧
        ((cl.tryAppend outcome timestamp data).1.files = cl.files ∧
            cl.torn outcome timestamp data = [] ∨
          (cl.tryAppend outcome timestamp data).1.files =
            cl.files.insert (segKey cl.lastOffset)
              (cl.file (segKey cl.lastOffset) ++ cl.torn outcome timestamp data))) := by
  cases outcome with
  | done => exact Or.inl (tryAppend_done cl timestamp data)
  | openFails =>
    by_cases hopen : segKey cl.lastOffset ∈ cl.segments
    · left
      simp only [tryAppend, append, hopen, not_true_eq_false, false_and, if_false]
    · right
      simp only [tryAppend, hopen, not_false_eq_true, and_self, if_true, torn, true_or]
  | writeFails written =>
    right
    simp only [tryAppend, reduceCtorEq, and_false, if_false, torn, or_true, and_self]

/-- Whatever comes of an append, no file loses a byte. -/
theorem grows_tryAppend (cl : CommitLog) (outcome : FileOutcome) (timestamp : ℕ)
    (data : List UInt8) : cl.Grows (cl.tryAppend outcome timestamp data).1 := by
  rcases tryAppend_cases cl outcome timestamp data with hdone | ⟨-, -, ⟨hsame, -⟩ | hfiles⟩
  · rw [hdone]
    exact grows_insert rfl
  · intro key file hfile
    refine ⟨[], ?_⟩
    rw [hsame, hfile, List.append_nil]
  · exact grows_insert hfiles

/-- After an error the next record has the same offset, behind what was written of this one. -/
theorem tryAppend_failed (h : (cl.tryAppend outcome timestamp data).2 = none) :
    (cl.tryAppend outcome timestamp data).1.lastOffset = cl.lastOffset ∧
      (cl.tryAppend outcome timestamp data).1.file (segKey cl.lastOffset) =
        cl.file (segKey cl.lastOffset) ++ cl.torn outcome timestamp data := by
  rcases tryAppend_cases cl outcome timestamp data with hdone | ⟨-, hoffset, hfiles⟩
  · rw [hdone] at h
    cases h
  · refine ⟨hoffset, ?_⟩
    rcases hfiles with ⟨hsame, htorn⟩ | hfiles
    · rw [CommitLog.file, hsame, htorn, List.append_nil, CommitLog.file]
    · refine file_of_lookup ?_
      rw [hfiles, AList.lookup_insert]

/-! ## Which later records are read back -/

theorem Stored.appendAll {offset : ℕ} (h : cl.Stored offset data)
    (records : List (ℕ × List UInt8)) : (cl.appendAll records).1.Stored offset data := by
  induction records generalizing cl with
  | nil => exact h
  | cons record records ih =>
    rw [appendAll_cons]
    exact ih (h.append record.1 record.2)

theorem fst_appendAll_append (cl : CommitLog) (earlier later : List (ℕ × List UInt8)) :
    (cl.appendAll (earlier ++ later)).1 = ((cl.appendAll earlier).1.appendAll later).1 := by
  induction earlier generalizing cl with
  | nil => rfl
  | cons record earlier ih =>
    rw [List.cons_append, appendAll_cons, appendAll_cons]
    exact ih _

/-- Records that start in one segment keep the log aligned. -/
theorem Aligned.appendAll (h : cl.Aligned) {records : List (ℕ × List UInt8)}
    (hkey : segKey (cl.appendAll records).1.lastOffset = segKey cl.lastOffset) :
    (cl.appendAll records).1.Aligned := by
  induction records generalizing cl with
  | nil => exact h
  | cons record records ih =>
    rw [appendAll_cons] at hkey ⊢
    -- the next record starts between the first one and the last one
    have hnext : segKey (cl.append record.1 record.2).1.lastOffset = segKey cl.lastOffset := by
      refine le_antisymm ?_ (segKey_le_append cl record.1 record.2)
      rw [← hkey]
      exact segKey_mono (lastOffset_le_appendAll _ records)
    exact ih (h.append hnext) (hkey.trans hnext.symm)

/-- Every record appended to the log later on, at an offset of its segment, is read back. -/
def ReadsLater (cl : CommitLog) : Prop :=
  ∀ earlier timestamp data later,
    segKey (cl.appendAll earlier).1.lastOffset = segKey cl.lastOffset →
      (cl.appendAll (earlier ++ (timestamp, data) :: later)).1.read
        (cl.appendAll earlier).1.lastOffset data.length = some data

theorem Aligned.readsLater (h : cl.Aligned) : cl.ReadsLater := by
  intro earlier timestamp data later hkey
  have hstored := (h.appendAll hkey).stored timestamp data
  rw [fst_appendAll_append]
  exact (hstored.appendAll later).read

/-- A file that is too short: the read of the next byte is behind its end. -/
theorem read_append_of_lt
    (h : (cl.file (segKey cl.lastOffset)).length < cl.lastOffset % (1024 * 1024)) (x : UInt8) :
    (cl.append 0 [x]).1.read cl.lastOffset 1 = none := by
  rw [CommitLog.read, files_append]
  dsimp only
  rw [List.drop_eq_nil_of_le, List.take_nil, if_pos ⟨rfl, Nat.one_pos⟩]
  rw [List.length_append, List.length_append, length_recordHeader, List.length_singleton]
  omega

/-- A file that is too long: the read of the next byte finds one that was there before it. -/
theorem exists_read_append_of_gt
    (h : cl.lastOffset % (1024 * 1024) < (cl.file (segKey cl.lastOffset)).length) :
    ∃ b : UInt8, ∀ x, (cl.append 0 [x]).1.read cl.lastOffset 1 = some [b] := by
  -- the data are one byte, so the header is the same for all of them
  have hlt : cl.lastOffset % (1024 * 1024) + headerSize <
      (cl.file (segKey cl.lastOffset) ++ recordHeader cl.lastOffset 0 1).length := by
    rw [List.length_append, length_recordHeader]
    omega
  refine ⟨(cl.file (segKey cl.lastOffset) ++ recordHeader cl.lastOffset 0 1).get ⟨_, hlt⟩,
    fun x => ?_⟩
  rw [CommitLog.read, files_append]
  dsimp only
  rw [List.length_singleton, ← List.append_assoc, List.drop_append_of_le_length hlt.le,
    List.drop_eq_getElem_cons hlt, List.cons_append, List.take_succ_cons, List.take_zero,
    if_neg (fun hnil => List.cons_ne_nil _ _ hnil.1)]
  rfl

/-- **Alignment, read off the records.** -/
theorem reads_later_iff_aligned : cl.ReadsLater ↔ cl.Aligned := by
  constructor
  · intro hreads
    by_contra hne
    have hread := fun x : UInt8 => hreads [] 0 [x] [] rfl
    rcases lt_or_gt_of_ne hne with hlt | hgt
    · have hnone := (read_append_of_lt hlt 0).symm.trans (hread 0)
      cases hnone
    · obtain ⟨b, hb⟩ := exists_read_append_of_gt hgt
      have hzero : b = 0 := by simpa using (hb 0).symm.trans (hread 0)
      have hone : b = 1 := by simpa using (hb 1).symm.trans (hread 1)
      exact absurd (hzero.symm.trans hone) (by decide)
  · exact Aligned.readsLater

/-- A failed append did no damage: what `cl` had stored, and what is appended later on in the
segment, is read back. -/
structure Undamaged (cl failed : CommitLog) : Prop where
  before : ∀ offset data records, cl.Stored offset data →
    (failed.appendAll records).1.read offset data.length = some data
  after : failed.ReadsLater

theorem Grows.undamaged_iff (h : cl.Grows cl') : Undamaged cl cl' ↔ cl'.Aligned := by
  constructor
  · intro hundamaged
    exact reads_later_iff_aligned.mp hundamaged.after
  · intro haligned
    refine ⟨?_, haligned.readsLater⟩
    intro offset data records hstored
    exact ((hstored.grows h).appendAll records).read

end CommitLog

/-- **Failed appends.** An append that returns an error does no damage iff the file of the
segment, with what has been written of the record, ends at the offset of the log. If the log was
aligned before, this means that nothing has been written. -/
theorem failed_append_iff {cl : CommitLog} {outcome : FileOutcome} {timestamp : ℕ}
    {data : List UInt8} (hfail : (cl.tryAppend outcome timestamp data).2 = none) :
    (CommitLog.Undamaged cl (cl.tryAppend outcome timestamp data).1 ↔
        (cl.file (CommitLog.segKey cl.lastOffset)).length +
          (cl.torn outcome timestamp data).length = cl.lastOffset % (1024 * 1024)) ∧
      (cl.Aligned → (CommitLog.Undamaged cl (cl.tryAppend outcome timestamp data).1 ↔
        cl.torn outcome timestamp data = [])) := by
  obtain ⟨hoffset, hfile⟩ := CommitLog.tryAppend_failed hfail
  have hiff : CommitLog.Undamaged cl (cl.tryAppend outcome timestamp data).1 ↔
      (cl.file (CommitLog.segKey cl.lastOffset)).length +
        (cl.torn outcome timestamp data).length = cl.lastOffset % (1024 * 1024) := by
    rw [(CommitLog.grows_tryAppend cl outcome timestamp data).undamaged_iff, CommitLog.Aligned,
      hoffset, hfile, List.length_append]
  refine ⟨hiff, fun haligned => ?_⟩
  rw [hiff, haligned, Nat.add_eq_left, List.length_eq_zero_iff]

/-- One record, and a write that fails before its first byte: nothing is damaged. -/
theorem failed_append_iff_unwritten :
    CommitLog.Undamaged ((CommitLog.openCommitLog ∅).append 5 [1]).1
      (((CommitLog.openCommitLog ∅).append 5 [1]).1.tryAppend (.writeFails 0) 6 [7]).1 :=
  ((failed_append_iff (by decide +kernel)).2
    (CommitLog.aligned_open.append (by decide +kernel))).mpr rfl

/-- One record, a write that fails after one byte, one more record: it is read as the last byte
of its own header. -/
theorem failed_append_shifts :
    (((CommitLog.openCommitLog ∅).append 5 [1]).1.tryAppend (.writeFails 1) 6 [7]).2 = none ∧
      ((((CommitLog.openCommitLog ∅).append 5 [1]).1.tryAppend
        (.writeFails 1) 6 [7]).1.append 8 [2]).2 = 21 ∧
      ((((CommitLog.openCommitLog ∅).append 5 [1]).1.tryAppend
        (.writeFails 1) 6 [7]).1.append 8 [2]).1.read 21 1 = some [1] := by
  decide +kernel

/-! ## Runs with failures -/

/-- The log under a sequence of appends that may fail. -/
def CommitLog.attempt (cl : CommitLog) (record : FileOutcome × ℕ × List UInt8) :
    Option CommitLog :=
  some (cl.tryAppend record.1 record.2.1 record.2.2).1

/-- An append that fails has written nothing; a record that is written fits its segment. -/
def CommitLog.Clean (s : CommitLog) (record : FileOutcome × ℕ × List UInt8) (t : CommitLog) :
    Prop :=
  if (s.tryAppend record.1 record.2.1 record.2.2).2 = none then
    s.torn record.1 record.2.1 record.2.2 = []
  else s.Fits record.2 t

/-- The file of the current segment still ends at `lastOffset`, and the later segments have no
file yet. -/
theorem CommitLog.Clean.aligned {s u : CommitLog} {record : FileOutcome × ℕ × List UInt8}
    (hclean : s.Clean record u) (haligned : s.Aligned) (hfresh : s.Fresh) :
    (s.tryAppend record.1 record.2.1 record.2.2).1.Aligned ∧
      (s.tryAppend record.1 record.2.1 record.2.2).1.Fresh := by
  rw [Clean] at hclean
  rcases tryAppend_cases s record.1 record.2.1 record.2.2 with hdone | ⟨hfail, hoffset, hfiles⟩
  · rw [hdone, if_neg (Option.some_ne_none _)] at hclean
    rw [hdone]
    exact ⟨hclean.aligned_append haligned hfresh, hfresh.append _ _⟩
  · rw [if_pos hfail] at hclean
    constructor
    · rw [Aligned, hoffset, (tryAppend_failed hfail).2, hclean, List.append_nil]
      exact haligned
    · intro key hkey
      rw [hoffset] at hkey
      rcases hfiles with ⟨hsame, -⟩ | hfiles
      · rw [hsame]
        exact hfresh key hkey
      · rw [hfiles, AList.lookup_insert_ne hkey.ne']
        exact hfresh key hkey

/-- A new log stays aligned through failures that write nothing. -/
theorem aligned_of_clean {t : CommitLog}
    (hrun : Run CommitLog.attempt CommitLog.Clean (CommitLog.openCommitLog ∅) t) :
    t.Aligned ∧ t.Fresh := by
  refine hrun.invariant (P := fun s => s.Aligned ∧ s.Fresh)
    ⟨CommitLog.aligned_open, CommitLog.fresh_open⟩ ?_
  rintro s record u ⟨haligned, hfresh⟩ hclean hstep
  cases hstep
  exact hclean.aligned haligned hfresh

/-- **Read after attempts.** A record appended to such a log is read back at every later point,
also behind appends that fail in the middle. -/
theorem read_after_attempts {s t : CommitLog} {timestamp : ℕ} {data : List UInt8}
    (hrun : Run CommitLog.attempt CommitLog.Clean (CommitLog.openCommitLog ∅) s)
    (hlater : Run CommitLog.attempt (fun _ _ _ => True) (s.append timestamp data).1 t) :
    t.read s.lastOffset data.length = some data := by
  have hstored : t.Stored s.lastOffset data := by
    refine hlater.invariant (P := fun u => u.Stored s.lastOffset data)
      ((aligned_of_clean hrun).1.stored timestamp data) ?_
    intro u record v hu _ hstep
    cases hstep
    exact hu.grows (CommitLog.grows_tryAppend u _ _ _)
  exact hstored.read

/-- An append that fails before its first byte, a record, and an append that fails after two bytes:
the record is read back. -/
theorem read_after_attempts_torn :
    ∃ s t, CommitLog.attempt (CommitLog.openCommitLog ∅) (.writeFails 0, 6, [9]) = some s ∧
      CommitLog.attempt (s.append 7 [1, 2]).1 (.writeFails 2, 8, [3]) = some t ∧
      t.read 0 2 = some [1, 2] := by
  obtain ⟨s, hs⟩ : ∃ s, CommitLog.attempt (CommitLog.openCommitLog ∅)
      (.writeFails 0, 6, [9]) = some s := ⟨_, rfl⟩
  have hclean : (CommitLog.openCommitLog ∅).Clean (.writeFails 0, 6, [9]) s :=
    (if_pos rfl).mpr rfl
  refine ⟨s, _, hs, rfl, ?_⟩
  cases hs
  exact read_after_attempts (Run.refl.tail hclean rfl) (Run.refl.tail trivial rfl)

end DistributedMQ.Storage
