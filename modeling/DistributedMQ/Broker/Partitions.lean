import DistributedMQ.Lib.Naming
import DistributedMQ.Storage.Reopen
import DistributedMQ.Storage.SparseIndex

/-!
# Topic partitions (`broker.go` lines 674–720 and 762–788)

The storage side of a broker: the map `topics` and the directories of the commit
logs under `dataDir`. `applyBatch` opens the partition of an entry if it is not
open, appends the data to its commit log and puts an index entry.

- A partition is known by `fmt.Sprintf("%s-%d", topic, partition)`: `partitionKey`
  in memory, `logPath` on disk. Topics are byte strings, as `handleClient` reads
  them. Paths are taken from the root (`commitLogDir`): a topic with `..` in it can
  lead out of `dataDir` and back by way of the working directory.
- A commit log keeps its files in its directory, so two partitions with one
  directory share them. `TopicPartition` holds what the `CommitLog` object has in
  memory; `TopicPartition.log` adds the files.
- `OpenCommitLog` hands the path to `filepath.Glob` as a part of a pattern. What
  that finds is a parameter (`Glob`); `Glob.Literal` is a path without pattern
  characters.
- `view_applyAll_some`, `view_applyAll_none`: entries of partitions with another
  key and another directory do not matter; what a partition holds after a
  sequence of entries is what its own ones make of it.

File operations succeed, and the clock readings `Append` and `applyBatch` take
are arguments.
-/

namespace DistributedMQ.Broker

open Storage Naming

/-- The segment files of a commit log. -/
abbrev Files : Type := GoMap ℕ (List UInt8)

/-- The sizes of the files `filepath.Glob` finds for the pattern
`<path>/segment_*.log`. -/
class Glob where
  sizes : (FilePath → Files) → FilePath → List ℕ

/-- The path is read as it stands: the files found are those of its directory. So it is if
the path has no pattern character (`*`, `?`, `[` or a backslash). -/
def Glob.Literal [Glob] (path : FilePath) : Prop :=
  ∀ disk : FilePath → Files, Glob.sizes disk path = (GoMap.values (disk path)).map List.length

/-- No path is a pattern. -/
@[reducible] def literalGlob : Glob where
  sizes disk path := (GoMap.values (disk path)).map List.length

/-- What `applyBatch` reads of a log entry. -/
structure Entry where
  topic : ByteString
  partition : ℤ
  data : List UInt8
deriving DecidableEq, Repr

/-- An entry with the clock readings taken while it is applied. -/
structure Applied where
  entry : Entry
  appendTime : ℕ := 0
  putTime : ℕ := 0
deriving DecidableEq, Repr

def Entry.pair (e : Entry) : ByteString × ℤ := (e.topic, e.partition)

structure TopicPartition where
  topic : ByteString
  partition : ℤ
  /-- `commitLog.basePath`. -/
  basePath : FilePath
  /-- `commitLog.segments`. -/
  segments : List ℕ
  /-- `commitLog.lastOffset`. -/
  lastOffset : ℕ
  index : SparseIndex
  /-- `commitLog.lastOffset` when the log was opened. -/
  openedAt : ℕ

namespace TopicPartition

/-- The commit log with the files in its directory. -/
def log (tp : TopicPartition) (files : Files) : CommitLog where
  files := files
  segments := tp.segments
  lastOffset := tp.lastOffset

/-- The body of the first loop of `applyBatch`. -/
def apply (tp : TopicPartition) (files : Files) (a : Applied) : TopicPartition × Files :=
  let (log, offset) := (tp.log files).append a.appendTime a.entry.data
  ({ tp with
     segments := log.segments
     lastOffset := log.lastOffset
     index := tp.index.put offset (int32 a.entry.data.length) a.putTime }, log.files)

/-- A partition that is given entries one after the other. -/
def applyAll (tp : TopicPartition) (files : Files) (as : List Applied) : TopicPartition × Files :=
  as.foldl (fun x a => x.1.apply x.2 a) (tp, files)

end TopicPartition

/-- `fmt.Sprintf("%s-%d", topic, partition)`. -/
def partitionKey (topic : ByteString) (partition : ℤ) : ByteString := dashed topic partition

/-- The directory that `filepath.Join(b.dataDir, "commitlog", name)` names. A relative `dataDir` is
given together with the working directory in front of it, so the path starts at the root and no
`..` is left in it: if there are no links, two paths that differ are two directories. -/
def commitLogDir (dataDir name : ByteString) : FilePath :=
  FilePath.join [[slash], dataDir, "commitlog".toUTF8.toList, name]

/-- `filepath.Join(b.dataDir, "commitlog", fmt.Sprintf("%s-%d.log", topic, partition))`. -/
def logPath (dataDir topic : ByteString) (partition : ℤ) : FilePath :=
  commitLogDir dataDir (dashed topic partition ++ ".log".toUTF8.toList)

/-- The broker's partitions and the commit log directories. -/
structure Store where
  /-- The directory `dataDir` stands for, from the root. -/
  dataDir : ByteString
  topics : GoMap ByteString TopicPartition := ∅
  disk : FilePath → Files

namespace Store

section glob

variable [Glob]

/-- The offset `OpenCommitLog` starts at. -/
def openOffset (disk : FilePath → Files) (path : FilePath) : ℕ :=
  (Glob.sizes disk path).foldl (fun last size => max size last) 0

/-- A partition as `getOrCreateTopicPartition` makes it. -/
def openPartition (b : Store) (topic : ByteString) (partition : ℤ) : TopicPartition :=
  let path := logPath b.dataDir topic partition
  let offset := openOffset b.disk path
  { topic, partition
    basePath := path
    segments := []
    lastOffset := offset
    index := SparseIndex.openSparseIndex
    openedAt := offset }

/-- `getOrCreateTopicPartition`: the partition found or opened. -/
def getOrCreateTopicPartition (b : Store) (topic : ByteString) (partition : ℤ) : TopicPartition :=
  (b.topics.lookup (partitionKey topic partition)).getD (b.openPartition topic partition)

/-- One entry of `applyBatch`. -/
def applyEntry (b : Store) (a : Applied) : Store :=
  let tp := b.getOrCreateTopicPartition a.entry.topic a.entry.partition
  let (tp', files) := tp.apply (b.disk tp.basePath) a
  { b with
    topics := b.topics.insert (partitionKey a.entry.topic a.entry.partition) tp'
    disk := Function.update b.disk tp.basePath files }

/-- The entries of one or more batches. The second loop of `applyBatch` syncs the
files and changes nothing here. -/
def applyAll (b : Store) (as : List Applied) : Store := as.foldl applyEntry b

/-- `applyBatch`; the `i`-th entry is applied at the times `clock i`. -/
def applyBatch (b : Store) (clock : ℕ → ℕ × ℕ) (batch : List Entry) : Store :=
  b.applyAll (batch.mapIdx fun i e => ⟨e, (clock i).1, (clock i).2⟩)

end glob

end Store

/-! ## What a partition holds after a sequence of entries -/

namespace TopicPartition

variable {tp : TopicPartition} {files : Files}

@[simp] theorem applyAll_nil (tp : TopicPartition) (files : Files) :
    tp.applyAll files [] = (tp, files) := rfl

theorem applyAll_cons (tp : TopicPartition) (files : Files) (a : Applied) (as : List Applied) :
    tp.applyAll files (a :: as) = (tp.apply files a).1.applyAll (tp.apply files a).2 as := rfl

/-- The record of an entry in the commit log. -/
def record (a : Applied) : ℕ × List UInt8 := (a.appendTime, a.entry.data)

/-- **Commit log.** It gets the data of every entry, in order. -/
theorem log_applyAll (tp : TopicPartition) (files : Files) (as : List Applied) :
    (tp.applyAll files as).1.log (tp.applyAll files as).2 =
      ((tp.log files).appendAll (as.map record)).1 := by
  induction as generalizing tp files with
  | nil => rfl
  | cons a as ih =>
    rw [applyAll_cons, ih]
    rfl

theorem basePath_applyAll (tp : TopicPartition) (files : Files) (as : List Applied) :
    (tp.applyAll files as).1.basePath = tp.basePath := by
  induction as generalizing tp files with
  | nil => rfl
  | cons a as ih =>
    rw [applyAll_cons, ih]
    rfl

theorem openedAt_applyAll (tp : TopicPartition) (files : Files) (as : List Applied) :
    (tp.applyAll files as).1.openedAt = tp.openedAt := by
  induction as generalizing tp files with
  | nil => rfl
  | cons a as ih =>
    rw [applyAll_cons, ih]
    rfl

/-- The index entries a sequence of entries adds, the log standing at `offset`. -/
def indexEntries (offset : ℕ) (as : List Applied) : List IndexEntry :=
  List.zipWith
    (fun offset a => { offset, size := int32 a.entry.data.length, timestamp := a.putTime })
    (CommitLog.offsetsFrom offset (as.map fun a => a.entry.data)) as

theorem indexEntries_cons (offset : ℕ) (a : Applied) (as : List Applied) :
    indexEntries offset (a :: as) =
      { offset, size := int32 a.entry.data.length, timestamp := a.putTime } ::
        indexEntries (offset + headerSize + a.entry.data.length) as := rfl

/-- The log is ahead of its index. -/
def IndexBelow (tp : TopicPartition) : Prop :=
  ∀ offset, tp.lastOffset ≤ offset → tp.index.entries.lookup offset = none

theorem lastOffset_apply (tp : TopicPartition) (files : Files) (a : Applied) :
    (tp.apply files a).1.lastOffset = tp.lastOffset + headerSize + a.entry.data.length :=
  CommitLog.lastOffset_append ..

theorem index_apply (tp : TopicPartition) (files : Files) (a : Applied) :
    (tp.apply files a).1.index =
      tp.index.put tp.lastOffset (int32 a.entry.data.length) a.putTime := rfl

theorem IndexBelow.apply (h : tp.IndexBelow) (files : Files) (a : Applied) :
    (tp.apply files a).1.IndexBelow := by
  intro offset hle
  rw [lastOffset_apply, headerSize] at hle
  rw [index_apply, SparseIndex.lookup_put_ne (by omega)]
  exact h offset (by omega)

theorem values_index_apply (h : tp.IndexBelow) (files : Files) (a : Applied) :
    GoMap.values (tp.apply files a).1.index.entries =
      { offset := tp.lastOffset
        size := int32 a.entry.data.length
        timestamp := a.putTime } :: GoMap.values tp.index.entries :=
  SparseIndex.values_put (h _ le_rfl) _ _

/-- **Index.** It gets one entry for every entry applied. -/
theorem IndexBelow.values_applyAll (h : tp.IndexBelow) (files : Files) (as : List Applied) :
    (GoMap.values (tp.applyAll files as).1.index.entries).Perm
      (GoMap.values tp.index.entries ++ indexEntries tp.lastOffset as) := by
  induction as generalizing tp files with
  | nil => rw [applyAll_nil, show indexEntries tp.lastOffset [] = [] from rfl, List.append_nil]
  | cons a as ih =>
    refine (ih (h.apply files a) (tp.apply files a).2).trans ?_
    rw [values_index_apply h, lastOffset_apply]
    exact List.perm_middle.symm

end TopicPartition

namespace Store

variable {b : Store} {a : Applied} {as : List Applied} {topic : ByteString} {partition : ℤ}

/-- The entries of one topic and partition. -/
def own (topic : ByteString) (partition : ℤ) (as : List Applied) : List Applied :=
  as.filter fun a => a.entry.pair = (topic, partition)

/-- No entry of another pair is kept in the directory of this one. -/
def Separate (dataDir topic : ByteString) (partition : ℤ) (as : List Applied) : Prop :=
  ∀ a ∈ as, a.entry.pair ≠ (topic, partition) →
    logPath dataDir a.entry.topic a.entry.partition ≠ logPath dataDir topic partition

/-- What a topic and partition name: the open partition and the directory. -/
def view (b : Store) (topic : ByteString) (partition : ℤ) : Option TopicPartition × Files :=
  (b.topics.lookup (partitionKey topic partition), b.disk (logPath b.dataDir topic partition))

/-- Every partition is in the directory of its key. -/
def Placed (b : Store) : Prop :=
  ∀ topic partition tp, b.topics.lookup (partitionKey topic partition) = some tp →
    tp.basePath = logPath b.dataDir topic partition

theorem placed_of_new (hnew : b.topics = ∅) : b.Placed := by
  intro topic partition tp hlookup
  rw [hnew] at hlookup
  exact absurd hlookup nofun

theorem view_of_new (hnew : b.topics = ∅) (topic : ByteString) (partition : ℤ) :
    b.view topic partition = (none, b.disk (logPath b.dataDir topic partition)) := by
  rw [view, hnew]
  rfl

/-- One key, one directory. -/
theorem logPath_congr {dataDir topic topic' : ByteString} {partition partition' : ℤ}
    (h : partitionKey topic partition = partitionKey topic' partition') :
    logPath dataDir topic partition = logPath dataDir topic' partition' :=
  congrArg (fun key => commitLogDir dataDir (key ++ _)) h

theorem mem_own : a ∈ own topic partition as ↔ a ∈ as ∧ a.entry.pair = (topic, partition) := by
  rw [own, List.mem_filter, decide_eq_true_iff]

theorem own_cons_of_eq (h : a.entry.pair = (topic, partition)) (as : List Applied) :
    own topic partition (a :: as) = a :: own topic partition as :=
  List.filter_cons_of_pos (p := fun a : Applied => decide (a.entry.pair = (topic, partition)))
    (decide_eq_true h)

theorem own_cons_of_ne (h : a.entry.pair ≠ (topic, partition)) (as : List Applied) :
    own topic partition (a :: as) = own topic partition as :=
  List.filter_cons_of_neg (p := fun a : Applied => decide (a.entry.pair = (topic, partition)))
    (by simpa using h)

theorem Separate.tail {dataDir : ByteString} (h : Separate dataDir topic partition (a :: as)) :
    Separate dataDir topic partition as := fun a' ha' => h a' (List.mem_cons_of_mem a ha')

section glob

variable [Glob]

theorem applyAll_cons (b : Store) (a : Applied) (as : List Applied) :
    b.applyAll (a :: as) = (b.applyEntry a).applyAll as := rfl

theorem dataDir_applyAll (b : Store) (as : List Applied) : (b.applyAll as).dataDir = b.dataDir := by
  induction as generalizing b with
  | nil => rfl
  | cons a as ih => exact ih _

theorem applyAll_append (b : Store) (as as' : List Applied) :
    b.applyAll (as ++ as') = (b.applyAll as).applyAll as' := List.foldl_append

theorem basePath_getOrCreate (h : b.Placed) (topic : ByteString) (partition : ℤ) :
    (b.getOrCreateTopicPartition topic partition).basePath =
      logPath b.dataDir topic partition := by
  rw [getOrCreateTopicPartition]
  cases hlookup : b.topics.lookup (partitionKey topic partition) with
  | none => rfl
  | some tp => exact h topic partition tp hlookup

theorem lookup_applyEntry (b : Store) (a : Applied) :
    (b.applyEntry a).topics.lookup (partitionKey a.entry.topic a.entry.partition) =
      some ((b.getOrCreateTopicPartition a.entry.topic a.entry.partition).apply
        (b.disk (b.getOrCreateTopicPartition a.entry.topic a.entry.partition).basePath) a).1 :=
  AList.lookup_insert _

theorem lookup_applyEntry_ne {key : ByteString}
    (hkey : key ≠ partitionKey a.entry.topic a.entry.partition) :
    (b.applyEntry a).topics.lookup key = b.topics.lookup key :=
  AList.lookup_insert_ne hkey

/-- An entry puts its partition into the directory of its key and moves no other. -/
theorem Placed.applyEntry (h : b.Placed) (a : Applied) : (b.applyEntry a).Placed := by
  intro topic partition tp hlookup
  by_cases hkey : partitionKey topic partition = partitionKey a.entry.topic a.entry.partition
  · have htp := hlookup
    rw [hkey] at htp
    obtain rfl := Option.some.inj ((lookup_applyEntry b a).symm.trans htp)
    exact (basePath_getOrCreate h _ _).trans (logPath_congr hkey.symm)
  · exact h topic partition tp ((lookup_applyEntry_ne hkey).symm.trans hlookup)

/-- Partitions are in the directories of their keys after any entries. -/
theorem Placed.applyAll (h : b.Placed) (as : List Applied) : (b.applyAll as).Placed := by
  induction as generalizing b with
  | nil => exact h
  | cons a as ih => exact ih (h.applyEntry a)

/-- **Frame.** An entry kept in another directory leaves a partition alone. -/
theorem view_applyEntry_of_ne (h : b.Placed)
    (hpath : logPath b.dataDir a.entry.topic a.entry.partition ≠
      logPath b.dataDir topic partition) :
    (b.applyEntry a).view topic partition = b.view topic partition := by
  have hkey : partitionKey topic partition ≠
      partitionKey a.entry.topic a.entry.partition := fun heq =>
    hpath (logPath_congr heq.symm)
  refine Prod.ext (lookup_applyEntry_ne hkey) (Function.update_of_ne ?_ ..)
  rw [basePath_getOrCreate h]
  exact hpath.symm

/-- An entry of the partition itself is applied to what the partition holds. -/
theorem view_applyEntry_of_eq (h : b.Placed) (hpair : a.entry.pair = (topic, partition)) :
    (b.applyEntry a).view topic partition =
      ((b.getOrCreateTopicPartition topic partition).apply
        (b.disk (logPath b.dataDir topic partition)) a).map some id := by
  obtain ⟨rfl, rfl⟩ := Prod.mk.inj hpair
  have hbase := basePath_getOrCreate h a.entry.topic a.entry.partition
  refine Prod.ext ?_ ?_
  · rw [← hbase]
    exact lookup_applyEntry b a
  · show Function.update _ _ _ (logPath b.dataDir a.entry.topic a.entry.partition) = _
    rw [← hbase]
    exact Function.update_self ..

/-- **A partition that is open**, after a sequence of entries. -/
theorem view_applyAll_some (h : b.Placed) {tp : TopicPartition} {files : Files}
    (hview : b.view topic partition = (some tp, files))
    (hsep : Separate b.dataDir topic partition as) :
    (b.applyAll as).view topic partition =
      (tp.applyAll files (own topic partition as)).map some id := by
  induction as generalizing b tp files with
  | nil => exact hview
  | cons a as ih =>
    obtain ⟨htp, rfl⟩ := Prod.mk.inj hview
    rw [applyAll_cons]
    by_cases hpair : a.entry.pair = (topic, partition)
    · have hstep := view_applyEntry_of_eq h hpair
      rw [getOrCreateTopicPartition, htp, Option.getD_some] at hstep
      rw [own_cons_of_eq hpair]
      exact ih (h.applyEntry a) hstep hsep.tail
    · have hstep := view_applyEntry_of_ne h (hsep a List.mem_cons_self hpair)
      rw [own_cons_of_ne hpair]
      exact ih (h.applyEntry a) (hstep.trans hview) hsep.tail

/-- **A partition that is not open** is opened at its first entry, in the
directory as it was before the sequence. -/
theorem view_applyAll_none (h : b.Placed) {files : Files}
    (hview : b.view topic partition = (none, files))
    (hsep : Separate b.dataDir topic partition as) :
    own topic partition as = [] ∧ (b.applyAll as).view topic partition = (none, files) ∨
      own topic partition as ≠ [] ∧ ∃ b' : Store, b'.dataDir = b.dataDir ∧
        b'.disk (logPath b.dataDir topic partition) = files ∧
        (b.applyAll as).view topic partition =
          ((b'.openPartition topic partition).applyAll files (own topic partition as)).map
            some id := by
  induction as generalizing b with
  | nil => exact Or.inl ⟨rfl, hview⟩
  | cons a as ih =>
    obtain ⟨htp, hfiles⟩ := Prod.mk.inj hview
    rw [applyAll_cons]
    by_cases hpair : a.entry.pair = (topic, partition)
    · -- the partition is opened here, and stays open
      have hstep := view_applyEntry_of_eq h hpair
      rw [getOrCreateTopicPartition, htp, Option.getD_none, hfiles] at hstep
      rw [own_cons_of_eq hpair]
      exact Or.inr ⟨List.cons_ne_nil _ _, b, rfl, hfiles,
        view_applyAll_some (h.applyEntry a) hstep hsep.tail⟩
    · have hstep := view_applyEntry_of_ne h (hsep a List.mem_cons_self hpair)
      rw [own_cons_of_ne hpair]
      exact ih (h.applyEntry a) (hstep.trans hview) hsep.tail

end glob

/-! ## Plain names -/

/-- A topic without a path separator and a partition that is not negative. -/
def Plain (topic : ByteString) (partition : ℤ) : Prop := slash ∉ topic ∧ 0 ≤ partition

instance (topic : ByteString) (partition : ℤ) : Decidable (Plain topic partition) :=
  inferInstanceAs (Decidable (_ ∧ _))

theorem slash_notMem_dashed {topic : ByteString} (h : slash ∉ topic) (partition : ℤ) :
    slash ∉ dashed topic partition := by
  rw [dashed, List.mem_append, List.mem_cons, not_or, not_or]
  exact ⟨h, by decide, slash_notMem_formatInt partition⟩

/-- The name of a plain partition's directory is one component of the path. -/
theorem component_logName (h : Plain topic partition) :
    FilePath.Component (dashed topic partition ++ ".log".toUTF8.toList) := by
  have hlast : (dashed topic partition ++ ".log".toUTF8.toList).getLast? = some 103 := by
    rw [List.getLast?_append, show ".log".toUTF8.toList.getLast? = some 103 by decide +kernel]
    rfl
  constructor
  · rw [List.mem_append, not_or]
    exact ⟨slash_notMem_dashed h.1 partition, by decide +kernel⟩
  · exact fun heq => absurd (heq ▸ hlast) (by decide)
  · exact fun heq => absurd (heq ▸ hlast) (by decide)
  · exact fun heq => absurd (heq ▸ hlast) (by decide)

/-- Partitions with plain names share neither a file nor a key. -/
theorem separate_of_plain (hplain : Plain topic partition)
    (has : ∀ a ∈ as, Plain a.entry.topic a.entry.partition) (dataDir : ByteString) :
    Separate dataDir topic partition as := by
  intro a ha hpair hpath
  have hdir : ∃ elem ∈ [[slash], dataDir, "commitlog".toUTF8.toList], elem ≠ [] :=
    ⟨_, List.mem_cons_self, by decide⟩
  have hname := FilePath.join_concat_inj hdir (component_logName (has a ha))
    (component_logName hplain) hpath
  obtain ⟨htopic, hpart⟩ := dashed_inj (has a ha).2 hplain.2 (List.append_cancel_right hname)
  exact hpair (Prod.ext htopic hpart)

end Store

end DistributedMQ.Broker
