import DistributedMQ.Broker.Redelivery
import DistributedMQ.Broker.StoreRestart

/-!
# Retention (`broker.go` lines 154–169, `storage/bridge_go.go` lines 272–302)

`cleanupOldSegments` goes through the open partitions and has `CleanupOldSegments` remove the
segment files in the directory `<topic>-<partition>` that are too old or too large. The commit log
of a partition is in the directory `<topic>-<partition>.log`.

`CleanupOldSegments` hands the directory to `filepath.Glob` as a part of a pattern. What that finds
is a parameter; all that is known of it is that a name matches a pattern that ends in a digit only
if it ends in the same digit. Times are in nanoseconds, and those of the files are an input.

- `disk_cleanupOldSegments`: the directories of the logs stay as they are.
- `retention_law_iff`: so the law holds as long as there is nothing to remove.
- `old_segment_stays`: two segments, and the old one stays.
-/

namespace DistributedMQ.Broker

open Storage Naming BigEndian

/-- `retentionMs` and `retentionBytes` of a broker. -/
structure Retention where
  ms : ℤ
  bytes : ℤ

/-- `time.Unix()`. -/
def unix (time : ℤ) : ℤ := time / 10 ^ 9

/-- The two criteria. -/
def Retention.Removes (r : Retention) (now modTime : ℤ) (size : ℕ) : Prop :=
  (0 < r.ms ∧ r.ms.tdiv 1000 < unix now - unix modTime) ∨ (0 < r.bytes ∧ r.bytes < size)

instance (r : Retention) (now modTime : ℤ) (size : ℕ) : Decidable (r.Removes now modTime size) :=
  inferInstanceAs (Decidable (_ ∨ _))

/-- The files that `filepath.Glob` finds for `<dir>/segment_*.log`, `none` if that is no
pattern. -/
class SegmentGlob where
  find : (FilePath → Files) → FilePath → Option (List (FilePath × ℕ))
  lastByte_eq : ∀ {disk : FilePath → Files} {dir : FilePath} {files : List (FilePath × ℕ)}
    {x : UInt8}, find disk dir = some files → dir.lastByte = some x →
    48 ≤ x.toNat ∧ x.toNat ≤ 57 → ∀ file ∈ files, file.1.lastByte = some x

/-- A directory that is not itself a pattern. -/
@[reducible] def literalSegmentGlob : SegmentGlob where
  find disk dir := some ((disk dir).keys.map fun seg => (dir, seg))
  lastByte_eq := by
    intro disk dir files x hfind hlast _ file hfile
    rw [← Option.some.inj hfind] at hfile
    obtain ⟨seg, -, rfl⟩ := List.mem_map.mp hfile
    exact hlast

/-- The body of the loop: the disk and the number of files that were removed. -/
def cleanupFile (r : Retention) (modTimes : FilePath → ℕ → ℤ) (now : ℤ)
    (acc : (FilePath → Files) × ℕ) (file : FilePath × ℕ) : (FilePath → Files) × ℕ :=
  match (acc.1 file.1).lookup file.2 with
  | none => acc
  | some content =>
    if r.Removes now (modTimes file.1 file.2) content.length then
      (Function.update acc.1 file.1 ((acc.1 file.1).erase file.2), acc.2 + 1)
    else acc

/-- `storage.CleanupOldSegments`. -/
def cleanupOldSegmentsIn [SegmentGlob] (r : Retention) (modTimes : FilePath → ℕ → ℤ)
    (disk : FilePath → Files) (segmentDir : FilePath) (now : ℤ) :
    (FilePath → Files) × Except String ℕ :=
  match SegmentGlob.find disk segmentDir with
  | none => (disk, .error "syntax error in pattern")
  | some files =>
    let (disk, count) := files.foldl (cleanupFile r modTimes now) (disk, 0)
    (disk, .ok count)

/-- `filepath.Join(b.dataDir, "commitlog", fmt.Sprintf("%s-%d", tp.Topic, tp.Partition))`. -/
def segmentDir (dataDir topic : ByteString) (partition : ℤ) : FilePath :=
  commitLogDir dataDir (dashed topic partition)

namespace Store

/-- `cleanupOldSegments`; `visits` are the open partitions in the order of the loop, each with the
clock reading taken for it. -/
def cleanupOldSegments [SegmentGlob] (b : Store) (r : Retention) (modTimes : FilePath → ℕ → ℤ)
    (visits : List (TopicPartition × ℤ)) : Store :=
  { b with
    disk := visits.foldl (fun disk visit =>
      (cleanupOldSegmentsIn r modTimes disk
        (segmentDir b.dataDir visit.1.topic visit.1.partition) visit.2).1) b.disk }

end Store

/-- **The law** for a partition: old segments are removed and the current one is not, and what is
removed is the old end of the log. -/
structure RetentionLaw (r : Retention) (modTimes : FilePath → ℕ → ℤ)
    (before after : FilePath → Files) (tp : TopicPartition) (now : ℤ) : Prop where
  old : 0 < r.ms → ∀ seg ∈ before tp.basePath,
    r.ms * 10 ^ 6 < now - modTimes tp.basePath seg → seg ≠ CommitLog.segKey tp.lastOffset →
    seg ∉ after tp.basePath
  oldEnd : ∀ seg ∈ before tp.basePath, seg ∉ after tp.basePath →
    ∀ seg' ∈ before tp.basePath, seg' < seg → seg' ∉ after tp.basePath
  current : CommitLog.segKey tp.lastOffset ∈ before tp.basePath →
    CommitLog.segKey tp.lastOffset ∈ after tp.basePath

/-! ## The directories -/

section

variable {r : Retention} {modTimes : FilePath → ℕ → ℤ} {path : FilePath}

/-- The directory of a log ends in a letter. -/
theorem lastByte_logPath (dataDir topic : ByteString) (partition : ℤ) :
    (logPath dataDir topic partition).lastByte = some 103 := by
  have hlast : (dashed topic partition ++ ".log".toUTF8.toList).getLast? = some 103 := by
    rw [List.getLast?_append, show ".log".toUTF8.toList.getLast? = some 103 by decide +kernel]
    rfl
  exact FilePath.lastByte_join [[slash], dataDir, "commitlog".toUTF8.toList] hlast (by decide)
    (by decide)

/-- The directory that is searched ends in a digit. -/
theorem lastByte_segmentDir (dataDir topic : ByteString) (partition : ℤ) :
    ∃ x, (segmentDir dataDir topic partition).lastByte = some x ∧
      48 ≤ x.toNat ∧ x.toNat ≤ 57 := by
  obtain ⟨x, hx, hdigit⟩ := getLast?_formatInt partition
  have hlast : (dashed topic partition).getLast? = some x := by
    rw [dashed, List.getLast?_append, List.getLast?_cons, hx]
    rfl
  refine ⟨x, ?_, hdigit⟩
  refine FilePath.lastByte_join [[slash], dataDir, "commitlog".toUTF8.toList] hlast ?_ ?_
  · rintro rfl
    exact absurd hdigit (by decide)
  · rintro rfl
    exact absurd hdigit (by decide)

/-- **A file**: the other directories stay as they are. -/
theorem cleanupFile_of_ne {now : ℤ} {file : FilePath × ℕ} (h : path ≠ file.1)
    (acc : (FilePath → Files) × ℕ) : (cleanupFile r modTimes now acc file).1 path = acc.1 path := by
  rw [cleanupFile]
  split
  · rfl
  split
  · exact Function.update_of_ne h ..
  · rfl

theorem foldl_cleanupFile {now : ℤ} {files : List (FilePath × ℕ)}
    (h : ∀ file ∈ files, path ≠ file.1) (acc : (FilePath → Files) × ℕ) :
    (files.foldl (cleanupFile r modTimes now) acc).1 path = acc.1 path := by
  induction files generalizing acc with
  | nil => rfl
  | cons file files ih =>
    obtain ⟨hfile, hfiles⟩ := List.forall_mem_cons.mp h
    rw [List.foldl_cons, ih hfiles, cleanupFile_of_ne hfile]

/-- **A directory**: that of a log is another one. -/
theorem cleanupOldSegmentsIn_of_log [SegmentGlob] (hlog : path.lastByte = some 103)
    (disk : FilePath → Files) (dataDir topic : ByteString) (partition now : ℤ) :
    (cleanupOldSegmentsIn r modTimes disk (segmentDir dataDir topic partition) now).1 path =
      disk path := by
  obtain ⟨x, hx, hdigit⟩ := lastByte_segmentDir dataDir topic partition
  rw [cleanupOldSegmentsIn]
  split
  · rfl
  · rename_i files hfind
    refine foldl_cleanupFile (fun file hfile heq => ?_) _
    have hend := SegmentGlob.lastByte_eq hfind hx hdigit file hfile
    rw [← heq, hlog] at hend
    cases hend
    exact absurd hdigit (by decide)

/-- The cleaner changes no file whose path ends in a `g`, as those of the logs do. -/
theorem disk_cleanupOldSegments [SegmentGlob] (hlog : path.lastByte = some 103) (b : Store)
    (visits : List (TopicPartition × ℤ)) :
    (b.cleanupOldSegments r modTimes visits).disk path = b.disk path := by
  show visits.foldl _ b.disk path = b.disk path
  generalize b.disk = disk
  induction visits generalizing disk with
  | nil => rfl
  | cons visit visits ih =>
    rw [List.foldl_cons, ih, cleanupOldSegmentsIn_of_log hlog]

end

/-! ## The law -/

/-- Every open partition is in the directory of a log. -/
theorem Store.Filled.lastByte_basePath [Glob] {b : Store} (h : b.Filled) {tp : TopicPartition}
    (htp : tp ∈ GoMap.values b.topics) : tp.basePath.lastByte = some 103 := by
  obtain ⟨x, hx, rfl⟩ := List.mem_map.mp htp
  have hlookup : b.topics.lookup x.1 = some x.2 := AList.mem_lookup_iff.mpr hx
  obtain ⟨hkey, -⟩ := h.keyed x.1 x.2 hlookup
  obtain ⟨b₀, as, hnew, -, rfl⟩ := h
  rw [hkey] at hlookup
  rw [(Store.placed_of_new hnew).applyAll as _ _ _ hlookup]
  exact lastByte_logPath _ _ _

/-- **Retention.** Whatever `cleanupOldSegments` does, the law holds iff the open partitions have no
old segments, except for the current ones. -/
theorem retention_law_iff [Glob] [SegmentGlob] {b : Store} (hfilled : b.Filled)
    {visits : List (TopicPartition × ℤ)}
    (hvisits : (visits.map Prod.fst).Perm (GoMap.values b.topics)) (r : Retention)
    (modTimes : FilePath → ℕ → ℤ) :
    (∀ visit ∈ visits, RetentionLaw r modTimes b.disk
        (b.cleanupOldSegments r modTimes visits).disk visit.1 visit.2) ↔
      ∀ visit ∈ visits, 0 < r.ms → ∀ seg ∈ b.disk visit.1.basePath,
        r.ms * 10 ^ 6 < visit.2 - modTimes visit.1.basePath seg →
        seg = CommitLog.segKey visit.1.lastOffset := by
  refine forall₂_congr fun visit hvisit => ?_
  have hlog : visit.1.basePath.lastByte = some 103 :=
    hfilled.lastByte_basePath (hvisits.subset (List.mem_map_of_mem hvisit))
  have hsame : (b.cleanupOldSegments r modTimes visits).disk visit.1.basePath =
      b.disk visit.1.basePath := disk_cleanupOldSegments hlog b visits
  constructor
  · intro h hms seg hseg hage
    by_contra hne
    exact h.old hms seg hseg hage hne (hsame ▸ hseg)
  · intro h
    refine ⟨fun hms seg hseg hage hne => absurd (h hms seg hseg hage) hne, ?_, ?_⟩
    · exact fun seg hseg hgone => absurd (hsame ▸ hseg) hgone
    · exact fun hcurrent => hsame ▸ hcurrent

section

local instance : Glob := literalGlob

local instance : SegmentGlob := literalSegmentGlob

/-- One partition with one segment, which is old and current. -/
theorem retention_law_iff_one :
    ∃ visits, (visits.map Prod.fst) = GoMap.values RedeliveryBroker.onePartition.store.topics ∧
      ∀ visit ∈ visits, RetentionLaw ⟨1000, 0⟩ (fun _ _ => 0)
        RedeliveryBroker.onePartition.store.disk
        (RedeliveryBroker.onePartition.store.cleanupOldSegments ⟨1000, 0⟩ (fun _ _ => 0)
          visits).disk visit.1 visit.2 := by
  have hone : ∀ tp ∈ GoMap.values RedeliveryBroker.onePartition.store.topics,
      ∀ seg ∈ (RedeliveryBroker.onePartition.store.disk tp.basePath).keys,
        seg = CommitLog.segKey tp.lastOffset := by decide +kernel
  have hvisits : ((GoMap.values RedeliveryBroker.onePartition.store.topics).map
      (·, (10 : ℤ) ^ 12)).map Prod.fst =
        GoMap.values RedeliveryBroker.onePartition.store.topics := by
    rw [List.map_map]
    exact List.map_id _
  refine ⟨_, hvisits, (retention_law_iff (RedeliveryBroker.filled_leading (by decide))
    (.of_eq hvisits) _ _).mpr ?_⟩
  intro visit hvisit _ seg hseg _
  obtain ⟨tp, htp, rfl⟩ := List.mem_map.mp hvisit
  exact hone tp htp seg (AList.mem_keys.mp hseg)

/-- A record of one segment and a byte, and one more. -/
def twoRecords (data : List UInt8) : List Applied :=
  [⟨⟨[116], 0, data⟩, 0, 0⟩, ⟨⟨[116], 0, [7]⟩, 0, 0⟩]

/-- A new broker that has applied them. -/
def twoSegments (data : List UInt8) : Store :=
  ({ dataDir := [100], disk := fun _ => ∅ } : Store).applyAll (twoRecords data)

/-- The partition is open, and its log is that of the two records. -/
theorem exists_log_twoSegments (data : List UInt8) :
    ∃ tp, (twoSegments data).topics.lookup (partitionKey [116] 0) = some tp ∧
      tp.log ((twoSegments data).disk (logPath [100] [116] 0)) =
        ((overrun data).append 0 [7]).1 := by
  have hpair : ∀ a ∈ twoRecords data, a.entry.pair = ([116], 0) := by
    intro a ha
    rcases List.mem_pair.mp ha with rfl | rfl <;> rfl
  have hsep : Store.Separate [100] [116] 0 (twoRecords data) :=
    fun a ha hne => absurd (hpair a ha) hne
  have hown : Store.own [116] 0 (twoRecords data) = twoRecords data :=
    List.filter_eq_self.mpr fun a ha => decide_eq_true (hpair a ha)
  let b : Store := { dataDir := [100], disk := fun _ => ∅ }
  have hview := Store.view_applyAll_none (Store.placed_of_new (b := b) rfl)
    (Store.view_of_new (b := b) rfl [116] 0) hsep
  rw [hown] at hview
  rcases hview with ⟨hnil, -⟩ | ⟨-, b', hdir, hdisk, hview⟩
  · exact absurd hnil (List.cons_ne_nil _ _)
  -- both entries are for the one partition, opened on an empty disk
  have hopen : (b'.openPartition [116] 0).log ∅ = CommitLog.openCommitLog ∅ := by
    have hpath : b'.disk (logPath b'.dataDir [116] 0) = ∅ := by
      rw [hdir]
      exact hdisk
    have hoffset : Store.openOffset b'.disk (logPath b'.dataDir [116] 0) = 0 := by
      rw [openOffset_literal fun _ => rfl, hpath]
      rfl
    rw [Store.openPartition, TopicPartition.log, hoffset]
    rfl
  have hlog := TopicPartition.log_applyAll (b'.openPartition [116] 0) ∅ (twoRecords data)
  rw [hopen] at hlog
  obtain ⟨htp, hfiles⟩ := Prod.mk.inj hview
  refine ⟨_, htp, ?_⟩
  have hfiles' : (twoSegments data).disk (logPath [100] [116] 0) =
      ((b'.openPartition [116] 0).applyAll ∅ (twoRecords data)).2 := hfiles
  rw [hfiles']
  exact hlog

/-- Two segments, of which the first one is a thousand seconds old. One second is the limit, and it
stays. -/
theorem old_segment_stays :
    ∃ tp, (twoSegments (List.replicate 1048557 0)).topics.lookup (partitionKey [116] 0) = some tp ∧
      CommitLog.segKey tp.lastOffset = 1 ∧
      0 ∈ ((twoSegments (List.replicate 1048557 0)).cleanupOldSegments ⟨1000, 0⟩ (fun _ _ => 0)
        ((GoMap.values (twoSegments (List.replicate 1048557 0)).topics).map (·, 10 ^ 12))).disk
        (logPath [100] [116] 0) := by
  have hlen : (List.replicate 1048557 (0 : UInt8)).length = 1048557 := List.length_replicate
  generalize List.replicate 1048557 (0 : UInt8) = data at hlen
  obtain ⟨tp, htp, hlog⟩ := exists_log_twoSegments data
  have hoffset : tp.lastOffset = 1048598 := by
    have h := congrArg CommitLog.lastOffset hlog
    rw [CommitLog.lastOffset_append, lastOffset_overrun hlen] at h
    exact h
  refine ⟨tp, htp, by rw [hoffset]; rfl, ?_⟩
  rw [disk_cleanupOldSegments (lastByte_logPath _ _ _), ← AList.lookup_isSome]
  have hfile := length_file_second hlen 0
  rw [← hlog, if_pos rfl] at hfile
  by_contra hnone
  have hlookup : ((twoSegments data).disk (logPath [100] [116] 0)).lookup 0 = none :=
    Option.not_isSome_iff_eq_none.mp hnone
  rw [CommitLog.file, GoMap.get, TopicPartition.log, hlookup] at hfile
  exact absurd hfile (by decide)

end

end DistributedMQ.Broker
