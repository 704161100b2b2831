import DistributedMQ.Storage.FailedAppend

/-!
# Batched appends (`storage/bridge_go.go` lines 24–28, 83–147 and 213–225)

`AppendAsync` only queues the data. A goroutine takes the queue, on a tick of its timer or on the
token of `flushCh`, and writes it with a loop of its own: the encoder and the choice of the
segment are a second copy of those of `Append`, and a batch of one goes to `Append` itself.

- `CommitLog.flushLoop_eq`: the loop does what `Append` does on one entry after the other, also
  where file operations fail.
- `batchFlush_eq_appendAll`: without failures a flush leaves the log of the plain appends and an
  empty buffer.
- `flush_conserves`: over any sequence of `Append`, `AppendAsync` and flushes, also with appends
  between the two halves of a flush, the log holds plain appends, and no data are lost or written
  twice.

`offset` and `timestamp` of a `batchEntry` are never set or read, so an entry is its data. The
clock and the file system give the `i`-th record of a flush its reading and its outcome.
-/

namespace DistributedMQ.Storage

/-- A commit log with its queue. -/
structure BatchLog where
  log : CommitLog
  batchBuffer : List (List UInt8)
  batchSize : ℤ
  /-- The token in `flushCh`. -/
  flushCh : Bool

namespace CommitLog

/-- The body of the loop of `batchFlush`: `continue` where `Append` returns an error. -/
def flushEntry (cl : CommitLog) (outcome : FileOutcome) (timestamp : ℕ) (data : List UInt8) :
    CommitLog :=
  let offset := cl.lastOffset
  let header := bigEndian 8 offset ++ bigEndian 8 timestamp ++ bigEndian 4 data.length
  let fullData := header ++ data
  let key := segKey offset
  let opened : Option (List ℕ) :=
    if key ∈ cl.segments then some cl.segments
    else if outcome = .openFails then none
    else some (key :: cl.segments)
  match opened with
  | none => cl
  | some segments =>
    match outcome with
    | .writeFails written =>
      { cl with
        files := cl.files.insert key (cl.file key ++ fullData.take written)
        segments := segments }
    | _ =>
      { files := cl.files.insert key (cl.file key ++ fullData)
        segments := segments
        lastOffset := cl.lastOffset + fullData.length }

/-- The loop of `batchFlush`. -/
def flushLoop (cl : CommitLog) (outcomes : ℕ → FileOutcome) (clock : ℕ → ℕ) :
    List (List UInt8) → CommitLog
  | [] => cl
  | data :: batch =>
    (cl.flushEntry (outcomes 0) (clock 0) data).flushLoop (fun i => outcomes (i + 1))
      (fun i => clock (i + 1)) batch

/-- `Append` on one entry after the other, whatever it returns. -/
def appendEach (cl : CommitLog) (outcomes : ℕ → FileOutcome) (clock : ℕ → ℕ) :
    List (List UInt8) → CommitLog
  | [] => cl
  | data :: batch =>
    (cl.tryAppend (outcomes 0) (clock 0) data).1.appendEach (fun i => outcomes (i + 1))
      (fun i => clock (i + 1)) batch

/-- **Step.** The two encoders agree. -/
theorem flushEntry_eq (cl : CommitLog) (outcome : FileOutcome) (timestamp : ℕ)
    (data : List UInt8) :
    cl.flushEntry outcome timestamp data = (cl.tryAppend outcome timestamp data).1 := by
  rw [flushEntry, tryAppend]
  by_cases hopen : segKey cl.lastOffset ∈ cl.segments
  · simp only [hopen, not_true_eq_false, false_and, if_true, if_false, recordHeader]
    cases outcome with
    | done => rfl
    | openFails => rfl
    | writeFails written => rfl
  · simp only [hopen, not_false_eq_true, true_and, if_false, recordHeader]
    cases outcome with
    | done => rfl
    | openFails => rfl
    | writeFails written => rfl

/-- **Run.** So do the loop and a sequence of `Append`s. -/
theorem flushLoop_eq (cl : CommitLog) (outcomes : ℕ → FileOutcome) (clock : ℕ → ℕ)
    (batch : List (List UInt8)) :
    cl.flushLoop outcomes clock batch = cl.appendEach outcomes clock batch := by
  induction batch generalizing cl outcomes clock with
  | nil => rfl
  | cons data batch ih =>
    rw [flushLoop, appendEach, flushEntry_eq]
    exact ih _ _ _

theorem appendEach_eq_appendAll (cl : CommitLog) {outcomes : ℕ → FileOutcome} (clock : ℕ → ℕ)
    {batch : List (List UInt8)} (hdone : ∀ i < batch.length, outcomes i = .done) :
    cl.appendEach outcomes clock batch =
      (cl.appendAll (batch.mapIdx fun i data => (clock i, data))).1 := by
  induction batch generalizing cl outcomes clock with
  | nil => rfl
  | cons data batch ih =>
    rw [appendEach, hdone 0 (Nat.succ_pos _), tryAppend_done, List.mapIdx_cons, appendAll_cons]
    exact ih _ _ fun i hi => hdone (i + 1) (Nat.succ_lt_succ hi)

end CommitLog

namespace BatchLog

/-- `OpenCommitLog`, as far as the queue is concerned. -/
def openBatchLog (files : GoMap ℕ (List UInt8)) : BatchLog where
  log := CommitLog.openCommitLog files
  batchBuffer := []
  batchSize := 100
  flushCh := false

def setBatchConfig (b : BatchLog) (size : ℤ) : BatchLog := { b with batchSize := size }

/-- `AppendAsync`: a full queue puts the token into `flushCh` if there is none. -/
def appendAsync (b : BatchLog) (data : List UInt8) : BatchLog :=
  let batchBuffer := b.batchBuffer ++ [data]
  { b with
    batchBuffer := batchBuffer
    flushCh := b.flushCh || decide (b.batchSize ≤ batchBuffer.length) }

/-- What `batchFlush` does under `batchMu`. -/
def takeBatch (b : BatchLog) : BatchLog × List (List UInt8) :=
  ({ b with batchBuffer := [] }, b.batchBuffer)

/-- What it does afterwards with the copy of the queue. -/
def writeBatch (b : BatchLog) (outcomes : ℕ → FileOutcome) (clock : ℕ → ℕ) :
    List (List UInt8) → BatchLog
  | [data] => { b with log := (b.log.tryAppend (outcomes 0) (clock 0) data).1 }
  | batch => { b with log := b.log.flushLoop outcomes clock batch }

def batchFlush (b : BatchLog) (outcomes : ℕ → FileOutcome) (clock : ℕ → ℕ) : BatchLog :=
  if b.batchBuffer.length = 0 then b
  else
    let (b', batch) := b.takeBatch
    b'.writeBatch outcomes clock batch

/-- A batch of one is no exception. -/
theorem writeBatch_eq (b : BatchLog) (outcomes : ℕ → FileOutcome) (clock : ℕ → ℕ)
    (batch : List (List UInt8)) :
    b.writeBatch outcomes clock batch =
      { b with log := b.log.appendEach outcomes clock batch } := by
  rw [← CommitLog.flushLoop_eq]
  cases batch with
  | nil => rfl
  | cons data batch =>
    cases batch with
    | nil =>
      show { b with log := (b.log.tryAppend (outcomes 0) (clock 0) data).1 } = _
      rw [← CommitLog.flushEntry_eq]
      rfl
    | cons _ _ => rfl

end BatchLog

/-- **Batched append.** A flush whose file operations succeed leaves the log, with its offset,
its open segments and its files, of the plain appends with the same clock readings, and an empty
buffer. -/
theorem batchFlush_eq_appendAll (b : BatchLog) (outcomes : ℕ → FileOutcome) (clock : ℕ → ℕ)
    (hdone : ∀ i < b.batchBuffer.length, outcomes i = .done) :
    b.batchFlush outcomes clock =
      { b with
        log := (b.log.appendAll (b.batchBuffer.mapIdx fun i data => (clock i, data))).1
        batchBuffer := [] } := by
  rw [← CommitLog.appendEach_eq_appendAll b.log clock hdone, BatchLog.batchFlush]
  split
  case isTrue hempty =>
    obtain ⟨log, batchBuffer, batchSize, flushCh⟩ := b
    obtain rfl := List.length_eq_zero_iff.mp hempty
    rfl
  case isFalse => exact BatchLog.writeBatch_eq b.takeBatch.1 outcomes clock b.batchBuffer

/-- Two entries in the queue of a new log. -/
theorem batchFlush_eq_appendAll_two :
    (((BatchLog.openBatchLog ∅).appendAsync [1, 2]).appendAsync [3]).batchFlush
        (fun _ => .done) (fun i => 5 + i) =
      { BatchLog.openBatchLog ∅ with
        log := ((CommitLog.openCommitLog ∅).appendAll [(5, [1, 2]), (6, [3])]).1 } :=
  batchFlush_eq_appendAll _ _ _ fun _ _ => rfl

/-! ## Callers and the flush goroutine -/

/-- The log with the copy of the queue that `batchFlush` is about to write, if it runs. There is
one goroutine that calls it. -/
structure FlushState where
  b : BatchLog
  batch : Option (List (List UInt8))

inductive FlushEvent where
  | append (outcome : FileOutcome) (timestamp : ℕ) (data : List UInt8)
  | appendAsync (data : List UInt8)
  | setBatchConfig (size : ℤ)
  /-- `batchFlushLoop` wakes up on the ticker, or else on the token. -/
  | wake (tick : Bool)
  | write (outcomes : ℕ → FileOutcome) (clock : ℕ → ℕ)

namespace FlushState

/-- `batchFlush` as the goroutine begins it. -/
def beginFlush (s : FlushState) : FlushState :=
  if s.b.batchBuffer.length = 0 then s
  else ⟨s.b.takeBatch.1, some s.b.takeBatch.2⟩

def step (s : FlushState) : FlushEvent → Option FlushState
  | .append outcome timestamp data =>
    some { s with b := { s.b with log := (s.b.log.tryAppend outcome timestamp data).1 } }
  | .appendAsync data => some { s with b := s.b.appendAsync data }
  | .setBatchConfig size => some { s with b := s.b.setBatchConfig size }
  | .wake tick =>
    match s.batch with
    | some _ => none
    | none =>
      if tick then some s.beginFlush
      else if s.b.flushCh then some (FlushState.beginFlush ⟨{ s.b with flushCh := false }, none⟩)
      else none
  | .write outcomes clock =>
    match s.batch with
    | none => none
    | some batch => some ⟨s.b.writeBatch outcomes clock batch, none⟩

/-- What has been given to `AppendAsync` and is not written yet. -/
def pending (s : FlushState) : List (List UInt8) := s.batch.getD [] ++ s.b.batchBuffer

end FlushState

/-- The data a caller hands over. -/
def FlushEvent.given : FlushEvent → List (List UInt8)
  | .append _ _ data => [data]
  | .appendAsync data => [data]
  | _ => []

/-- The file operations of the event succeed. -/
def FlushEvent.Healthy : FlushEvent → Prop
  | .append outcome _ _ => outcome = .done
  | .write outcomes _ => ∀ i, outcomes i = .done
  | _ => True

/-- What happens to the data in one step or in many. -/
def FlushState.Conserves (s : FlushState) (given : List (List UInt8)) (t : FlushState) : Prop :=
  ∃ records, t.b.log = (s.b.log.appendAll records).1 ∧
    (records.map Prod.snd ++ t.pending).Perm (s.pending ++ given)

namespace FlushState

variable {s t u : FlushState}

theorem beginFlush_log (s : FlushState) : s.beginFlush.b.log = s.b.log := by
  unfold beginFlush
  split
  · rfl
  · rfl

theorem beginFlush_pending (h : s.batch = none) : s.beginFlush.pending = s.pending := by
  unfold beginFlush
  split
  · rfl
  · show s.b.batchBuffer ++ [] = s.batch.getD [] ++ s.b.batchBuffer
    rw [h, List.append_nil]
    rfl

/-- A step that writes nothing. -/
theorem Conserves.of_pending {given : List (List UInt8)} (hlog : t.b.log = s.b.log)
    (hpending : t.pending = s.pending ++ given) : s.Conserves given t :=
  ⟨[], hlog, List.Perm.of_eq hpending⟩

theorem Conserves.trans {given given' : List (List UInt8)} (h : s.Conserves given t)
    (h' : t.Conserves given' u) : s.Conserves (given ++ given') u := by
  obtain ⟨records, hlog, hperm⟩ := h
  obtain ⟨records', hlog', hperm'⟩ := h'
  refine ⟨records ++ records', ?_, ?_⟩
  · rw [hlog', hlog, CommitLog.fst_appendAll_append]
  · rw [List.map_append, List.append_assoc]
    refine (hperm'.append_left _).trans ?_
    rw [← List.append_assoc, ← List.append_assoc]
    exact hperm.append_right _

theorem map_snd_mapIdx (clock : ℕ → ℕ) (batch : List (List UInt8)) :
    (batch.mapIdx fun i data => (clock i, data)).map Prod.snd = batch := by
  refine List.ext_getElem (by simp) fun i _ _ => ?_
  simp

/-- A step whose writes succeed neither loses nor repeats a message. -/
theorem step_conserves {ev : FlushEvent} (hstep : s.step ev = some t) (hhealthy : ev.Healthy) :
    s.Conserves ev.given t := by
  cases ev with
  | append outcome timestamp data =>
    obtain rfl : outcome = .done := hhealthy
    cases hstep
    refine ⟨[(timestamp, data)], ?_, List.perm_append_comm⟩
    show (s.b.log.tryAppend .done timestamp data).1 = _
    rw [CommitLog.tryAppend_done]
    rfl
  | appendAsync data =>
    cases hstep
    exact Conserves.of_pending rfl (List.append_assoc ..).symm
  | setBatchConfig size =>
    cases hstep
    exact Conserves.of_pending rfl (List.append_nil _).symm
  | wake tick =>
    cases hbatch : s.batch with
    | some batch => simp [step, hbatch] at hstep
    | none =>
      simp only [step, hbatch] at hstep
      -- the batch is full, or the ticker has fired
      split at hstep
      · cases hstep
        refine Conserves.of_pending (beginFlush_log s) ?_
        rw [beginFlush_pending hbatch]
        exact (List.append_nil _).symm
      · obtain ⟨-, hsome⟩ := Option.ite_none_right_eq_some.mp hstep
        cases hsome
        refine Conserves.of_pending (beginFlush_log _) ?_
        rw [beginFlush_pending rfl, pending, pending, hbatch]
        exact (List.append_nil _).symm
  | write outcomes clock =>
    cases hbatch : s.batch with
    | none => simp [step, hbatch] at hstep
    | some batch =>
      simp only [step, hbatch, Option.some.injEq] at hstep
      subst hstep
      -- the batch goes to the log in its order
      refine ⟨batch.mapIdx fun i data => (clock i, data), ?_, ?_⟩
      · rw [BatchLog.writeBatch_eq,
          CommitLog.appendEach_eq_appendAll _ clock fun i _ => hhealthy i]
      · refine List.Perm.of_eq ?_
        rw [map_snd_mapIdx, BatchLog.writeBatch_eq, pending, pending, hbatch]
        exact (List.append_nil _).symm

end FlushState

/-- **Run.** While file operations succeed, the log is one of plain appends, of data that were
pending or have been handed over since; what has not been appended is pending. -/
theorem flush_conserves {s t : FlushState} {events : List FlushEvent}
    (hhealthy : ∀ ev ∈ events, ev.Healthy)
    (hexec : events.foldlM FlushState.step s = some t) :
    s.Conserves (events.flatMap FlushEvent.given) t := by
  induction events generalizing s with
  | nil =>
    cases hexec
    exact FlushState.Conserves.of_pending rfl (List.append_nil _).symm
  | cons ev events ih =>
    rw [List.foldlM_cons] at hexec
    obtain ⟨u, hstep, hexec⟩ := Option.bind_eq_some_iff.mp hexec
    rw [List.flatMap_cons]
    have hhead := FlushState.step_conserves hstep (hhealthy ev List.mem_cons_self)
    exact hhead.trans (ih (fun ev' hev => hhealthy ev' (List.mem_cons_of_mem _ hev)) hexec)

/-- `Append` overtakes an entry that the goroutine has copied and not written. -/
theorem flush_conserves_overtaken :
    ∃ t, FlushState.Conserves ⟨BatchLog.openBatchLog ∅, none⟩ [[1], [2]] t ∧ t.pending = [] :=
  ⟨_, @flush_conserves _ _
    [.appendAsync [1], .wake true, .append .done 5 [2], .write (fun _ => .done) id]
    (by simp [FlushEvent.Healthy]) rfl, rfl⟩

end DistributedMQ.Storage
