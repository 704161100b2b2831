import DistributedMQ.Broker.Fetch

/-!
# The partitions of a restarted broker (`broker.go` lines 505–551 and 674–788,
`storage/bridge_go.go` lines 304–308)

A broker that restarts finds the commit logs on disk, but it knows no partition
and no index: `OpenSparseIndex` starts with an empty map. What it applies after
the restart, be it for the first time or once more, is appended behind what the
files hold.

- `FirstMessage`: the first message ever applied stands at offset 0 of its partition
  and can be fetched.
- `Behind`: after a restart every message of that partition gets a later offset.
- `kept_after_restart`: the messages fetched before the restart are fetched after it
  iff there were none.
-/

namespace DistributedMQ.Broker

open Storage Naming

/-- The process stops and starts again on the same `dataDir`. -/
def Store.restart (b : Store) : Store := { b with topics := ∅ }

/-- **Kept.** Every message that some `Fetch` on `b` returns, some `Fetch` on `b'`
returns with the same offset and data. -/
def Kept (b b' : Store) : Prop :=
  ∀ topic partition tp order offset maxBytes,
    b.topics.lookup (partitionKey topic partition) = some tp → tp.index.Order order →
    ∀ msg ∈ (b.fetch order topic partition offset maxBytes).msgs,
      ∃ tp' order' offset' maxBytes',
        b'.topics.lookup (partitionKey topic partition) = some tp' ∧ tp'.index.Order order' ∧
        ∃ msg' ∈ (b'.fetch order' topic partition offset' maxBytes').msgs,
          msg'.offset = msg.offset ∧ msg'.value = msg.value

/-! ## Messages come from the index -/

theorem mem_fetchLoop {log : CommitLog} {topic : ByteString} {partition maxBytes : ℤ}
    {entries : List IndexEntry} {totalBytes : ℤ} {msgs msgs' : List Message}
    (h : fetchLoop log topic partition maxBytes entries totalBytes msgs = some msgs')
    {msg : Message} (hmsg : msg ∈ msgs') :
    msg ∈ msgs ∨ ∃ entry ∈ entries, entry.offset = msg.offset := by
  induction entries generalizing totalBytes msgs with
  | nil =>
    cases h
    exact Or.inl hmsg
  | cons entry entries ih =>
    rw [fetchLoop] at h
    split at h
    · cases h
      exact Or.inl hmsg
    split at h
    · cases h
    · rcases ih h with hin | ⟨e, he, heq⟩
      · exact Or.inl hin
      · exact Or.inr ⟨e, List.mem_cons_of_mem _ he, heq⟩
    · rcases ih h with hin | ⟨e, he, heq⟩
      · rcases List.mem_append.mp hin with hin | hin
        · exact Or.inl hin
        · rw [List.mem_singleton.mp hin]
          exact Or.inr ⟨entry, List.mem_cons_self, rfl⟩
      · exact Or.inr ⟨e, List.mem_cons_of_mem _ he, heq⟩

/-- A message that is fetched has an index entry. -/
theorem exists_entry_of_fetch {b : Store} {tp : TopicPartition} {topic : ByteString}
    {partition : ℤ} (htp : b.topics.lookup (partitionKey topic partition) = some tp)
    {order : List IndexEntry} (horder : tp.index.Order order) {offset maxBytes : ℤ}
    {msg : Message} (hmsg : msg ∈ (b.fetch order topic partition offset maxBytes).msgs) :
    ∃ entry, tp.index.entries.lookup msg.offset = some entry := by
  rw [Store.fetch, htp] at hmsg
  dsimp only at hmsg
  split at hmsg
  · exact absurd hmsg List.not_mem_nil
  · rename_i msgs hloop
    rcases mem_fetchLoop hloop hmsg with hin | ⟨entry, hentry, heq⟩
    · exact absurd hin List.not_mem_nil
    · have hmem := horder.mem_iff.mp (SparseIndex.mem_getEntriesAfter.mp hentry).1
      exact ⟨entry, heq ▸ SparseIndex.mem_values_iff.mp hmem⟩

/-! ## Directories only grow -/

/-- The record at `offset` with these data is where `Read` looks for it. -/
def StoredIn (files : Files) (offset : ℕ) (data : List UInt8) : Prop :=
  CommitLog.Stored { files, segments := [], lastOffset := 0 } offset data

theorem StoredIn.apply {files : Files} {offset : ℕ} {data : List UInt8}
    (h : StoredIn files offset data) (tp : TopicPartition) (a : Applied) :
    StoredIn (tp.apply files a).2 offset data :=
  @CommitLog.Stored.append (tp.log files) offset data h a.appendTime a.entry.data

theorem StoredIn.applyEntry [Glob] {b : Store} {path : FilePath} {offset : ℕ} {data : List UInt8}
    (h : StoredIn (b.disk path) offset data) (a : Applied) :
    StoredIn ((b.applyEntry a).disk path) offset data := by
  show StoredIn (Function.update b.disk _ _ path) offset data
  by_cases hpath : path = (b.getOrCreateTopicPartition a.entry.topic a.entry.partition).basePath
  · subst hpath
    rw [Function.update_self]
    exact h.apply _ a
  · rwa [Function.update_of_ne hpath]

/-! ## Before the restart -/

variable {b : Store} {topic : ByteString} {partition : ℤ} {data : List UInt8}

/-- **The first message.** The files of the partition begin with the record of
`data`, and its index has it at offset 0. No index entry has a negative size. -/
structure FirstMessage (b : Store) (topic : ByteString) (partition : ℤ) (data : List UInt8) :
    Prop where
  stored : StoredIn (b.disk (logPath b.dataDir topic partition)) 0 data
  partition : ∃ tp timestamp, b.topics.lookup (partitionKey topic partition) = some tp ∧
    0 < tp.lastOffset ∧
    tp.index.entries.lookup 0 = some { offset := 0, size := data.length, timestamp } ∧
    ∀ offset entry, tp.index.entries.lookup offset = some entry → 0 ≤ entry.size

namespace FirstMessage

/-- The first message stays: its record is not overwritten, and no later entry is put at offset 0. -/
theorem applyEntry [Glob] (h : FirstMessage b topic partition data) {a : Applied}
    (hsize : a.entry.data.length < 2 ^ 31) :
    FirstMessage (b.applyEntry a) topic partition data := by
  refine ⟨h.stored.applyEntry a, ?_⟩
  obtain ⟨tp, timestamp, htp, hpos, hfirst, hsizes⟩ := h.partition
  by_cases hkey : partitionKey topic partition = partitionKey a.entry.topic a.entry.partition
  · rw [hkey] at htp ⊢
    have hget : b.getOrCreateTopicPartition a.entry.topic a.entry.partition = tp := by
      rw [Store.getOrCreateTopicPartition, htp, Option.getD_some]
    refine ⟨_, timestamp, Store.lookup_applyEntry b a, ?_, ?_, ?_⟩
    · rw [hget, TopicPartition.lastOffset_apply]
      omega
    · rw [hget]
      exact (SparseIndex.lookup_put_ne (Nat.ne_of_lt hpos) _ _).trans hfirst
    · rw [hget]
      intro offset entry hentry
      by_cases heq : offset = tp.lastOffset
      · subst heq
        rw [TopicPartition.index_apply, SparseIndex.lookup_put, int32_of_lt hsize] at hentry
        cases hentry
        exact Int.natCast_nonneg _
      · exact hsizes offset entry ((SparseIndex.lookup_put_ne heq _ _).symm.trans hentry)
  · exact ⟨tp, timestamp, (Store.lookup_applyEntry_ne hkey).trans htp, hpos, hfirst, hsizes⟩

/-- The first message stays, whatever is applied behind it. -/
theorem applyAll [Glob] (h : FirstMessage b topic partition data) {as : List Applied}
    (hsize : ∀ a ∈ as, a.entry.data.length < 2 ^ 31) :
    FirstMessage (b.applyAll as) topic partition data := by
  induction as generalizing b with
  | nil => exact h
  | cons a as ih =>
    obtain ⟨ha, has⟩ := List.forall_mem_cons.mp hsize
    exact ih (h.applyEntry ha) has

theorem readEntry {tp : TopicPartition} {files : Files} (hstored : StoredIn files 0 data)
    (timestamp : ℕ) :
    Broker.readEntry (tp.log files) { offset := 0, size := data.length, timestamp } =
      .ok data := by
  have hread : (tp.log files).read 0 data.length = some data := CommitLog.Stored.read hstored
  obtain ⟨before, after, -, hfile⟩ := hstored
  rw [Broker.readEntry, show (tp.log files).files.lookup (CommitLog.segKey 0) = _ from hfile]
  dsimp only
  rw [if_neg (by omega), Int.toNat_natCast, hread]

/-- The first message can be fetched: by a request for everything that takes only
one message, if the map gives it first. -/
theorem exists_fetch (h : FirstMessage b topic partition data) (hplaced : b.Placed) :
    ∃ tp order msg, b.topics.lookup (partitionKey topic partition) = some tp ∧
      tp.index.Order order ∧ msg ∈ (b.fetch order topic partition (-1) (-1)).msgs ∧
      msg.offset = 0 ∧ msg.value = data := by
  obtain ⟨tp, timestamp, htp, -, hfirst, hsizes⟩ := h.partition
  let first : IndexEntry := { offset := 0, size := data.length, timestamp }
  let rest := (GoMap.values tp.index.entries).erase first
  have hmem : first ∈ GoMap.values tp.index.entries := SparseIndex.mem_values_iff.mpr hfirst
  have horder : tp.index.Order (first :: rest) := (List.perm_cons_erase hmem).symm
  have hbase := hplaced topic partition tp htp
  refine ⟨tp, first :: rest, message topic partition first data, htp, horder, ?_, rfl, rfl⟩
  have hread : Broker.readEntry (tp.log (b.disk tp.basePath)) first = .ok data :=
    readEntry (hbase ▸ h.stored) timestamp
  have hloop : fetchLoop (tp.log (b.disk tp.basePath)) topic partition (-1)
      (SparseIndex.getEntriesAfter (first :: rest) (-1)) 0 [] =
        some [message topic partition first data] := by
    have hafter : (-1 : ℤ) < first.offset := by
      show (-1 : ℤ) < ((0 : ℕ) : ℤ)
      omega
    rw [SparseIndex.getEntriesAfter_cons hafter, fetchLoop_cons_nil hread]
    match hrest : SparseIndex.getEntriesAfter rest (-1) with
    | [] => rfl
    | entry :: entries =>
      -- sizes are not negative, so the second message does not fit
      have hentry : entry ∈ rest := by
        have hin : entry ∈ SparseIndex.getEntriesAfter rest (-1) := hrest ▸ List.mem_cons_self
        exact (SparseIndex.mem_getEntriesAfter.mp hin).1
      have hsize := hsizes _ _ (SparseIndex.mem_values_iff.mp (List.mem_of_mem_erase hentry))
      refine fetchLoop_cons_of_full ⟨?_, Nat.one_pos⟩
      show (-1 : ℤ) < 0 + (data.length : ℤ) + entry.size
      omega
  rw [fetch_eq htp hloop]
  exact List.mem_singleton_self _

end FirstMessage

/-! ## After the restart -/

/-- **Behind.** The partition is not open, or its log has started behind offset 0
and nothing stands there. -/
structure Behind (b : Store) (topic : ByteString) (partition : ℤ) (data : List UInt8) : Prop where
  stored : StoredIn (b.disk (logPath b.dataDir topic partition)) 0 data
  partition : ∀ tp, b.topics.lookup (partitionKey topic partition) = some tp →
    0 < tp.lastOffset ∧ tp.index.entries.lookup 0 = none

section glob

variable [Glob]

theorem openOffset_literal {path : FilePath} (h : Glob.Literal path) (disk : FilePath → Files) :
    Store.openOffset disk path = (CommitLog.openCommitLog (disk path)).lastOffset := by
  rw [Store.openOffset, h disk]
  exact List.foldl_map

/-- A log whose files begin with a record does not start at 0. -/
theorem StoredIn.openOffset_pos {disk : FilePath → Files} {path : FilePath}
    (h : StoredIn (disk path) 0 data) (hliteral : Glob.Literal path) :
    0 < Store.openOffset disk path := by
  obtain ⟨before, after, hbefore, hfile⟩ := h
  have hlen := CommitLog.length_file_open_le (disk path) 0
  have hlookup : (CommitLog.openCommitLog (disk path)).file 0 = before ++ data ++ after := by
    rw [CommitLog.file, GoMap.get]
    exact congrArg (Option.getD · []) hfile
  rw [hlookup, List.length_append, List.length_append, hbefore, headerSize] at hlen
  rw [openOffset_literal hliteral]
  omega

/-- An entry is appended behind what the directory held at the restart. -/
theorem Behind.applyEntry (h : Behind b topic partition data)
    (hliteral : Glob.Literal (logPath b.dataDir topic partition)) (a : Applied) :
    Behind (b.applyEntry a) topic partition data := by
  refine ⟨h.stored.applyEntry a, ?_⟩
  intro tp htp
  by_cases hkey : partitionKey topic partition = partitionKey a.entry.topic a.entry.partition
  · -- the partition the entry goes to, open or just opened, is behind offset 0
    have hget : 0 < (b.getOrCreateTopicPartition a.entry.topic a.entry.partition).lastOffset ∧
        (b.getOrCreateTopicPartition a.entry.topic a.entry.partition).index.entries.lookup 0 =
          none := by
      rw [Store.getOrCreateTopicPartition, ← hkey]
      cases hlookup : b.topics.lookup (partitionKey topic partition) with
      | none =>
        have hpath : logPath b.dataDir topic partition =
            logPath b.dataDir a.entry.topic a.entry.partition := Store.logPath_congr hkey
        exact ⟨(hpath ▸ h.stored).openOffset_pos (hpath ▸ hliteral), rfl⟩
      | some tp => exact h.partition tp hlookup
    rw [hkey, Store.lookup_applyEntry] at htp
    cases htp
    refine ⟨?_, ?_⟩
    · rw [TopicPartition.lastOffset_apply]
      omega
    · exact (SparseIndex.lookup_put_ne (Nat.ne_of_lt hget.1) _ _).trans hget.2
  · exact h.partition tp ((Store.lookup_applyEntry_ne hkey).symm.trans htp)

/-- Whatever is applied after a restart leaves offset 0 of the partition without an index entry. -/
theorem Behind.applyAll (h : Behind b topic partition data)
    (hliteral : Glob.Literal (logPath b.dataDir topic partition)) (as : List Applied) :
    Behind (b.applyAll as) topic partition data := by
  induction as generalizing b with
  | nil => exact h
  | cons a as ih => exact ih (h.applyEntry hliteral a) hliteral

/-- The first entry of a new broker becomes the first message of its partition. -/
theorem firstMessage_applyEntry (hnew : b.topics = ∅) (hdisk : ∀ path, b.disk path = ∅)
    {a : Applied} (hliteral : Glob.Literal (logPath b.dataDir a.entry.topic a.entry.partition))
    (hsize : a.entry.data.length < 2 ^ 31) :
    FirstMessage (b.applyEntry a) a.entry.topic a.entry.partition a.entry.data := by
  -- the partition is opened in an empty directory, at offset 0
  have hopen : b.getOrCreateTopicPartition a.entry.topic a.entry.partition =
      b.openPartition a.entry.topic a.entry.partition := by
    rw [Store.getOrCreateTopicPartition, hnew]
    rfl
  have hoffset : (b.openPartition a.entry.topic a.entry.partition).lastOffset = 0 := by
    show Store.openOffset b.disk _ = 0
    rw [openOffset_literal hliteral, hdisk]
    rfl
  have hlog : (b.openPartition a.entry.topic a.entry.partition).log ∅ =
      CommitLog.openCommitLog ∅ := by
    rw [TopicPartition.log, hoffset]
    rfl
  have hview := Store.view_applyEntry_of_eq (a := a) (Store.placed_of_new hnew) rfl
  rw [hopen, hdisk] at hview
  have htp : (b.applyEntry a).topics.lookup (partitionKey a.entry.topic a.entry.partition) =
      some ((b.openPartition a.entry.topic a.entry.partition).apply ∅ a).1 :=
    congrArg Prod.fst hview
  have hfiles : (b.applyEntry a).disk (logPath b.dataDir a.entry.topic a.entry.partition) =
      ((b.openPartition a.entry.topic a.entry.partition).apply ∅ a).2 := congrArg Prod.snd hview
  have hfirst : ((b.openPartition a.entry.topic a.entry.partition).apply ∅ a).1.index =
      SparseIndex.openSparseIndex.put 0 a.entry.data.length a.putTime := by
    rw [TopicPartition.index_apply, hoffset, int32_of_lt hsize]
    rfl
  -- the data is in the file, and the entry in the index
  constructor
  · rw [show (b.applyEntry a).dataDir = b.dataDir from rfl, hfiles]
    have hstored : (((b.openPartition a.entry.topic a.entry.partition).log ∅).append a.appendTime
        a.entry.data).1.Stored 0 a.entry.data := by
      rw [hlog]
      exact CommitLog.aligned_open.stored a.appendTime a.entry.data
    exact hstored
  · refine ⟨_, a.putTime, htp, ?_, ?_, ?_⟩
    · rw [TopicPartition.lastOffset_apply, headerSize]
      omega
    · rw [hfirst, SparseIndex.lookup_put]
    · rw [hfirst]
      intro offset entry hentry
      by_cases heq : offset = 0
      · subst heq
        rw [SparseIndex.lookup_put] at hentry
        cases hentry
        exact Int.natCast_nonneg _
      · rw [SparseIndex.lookup_put_ne heq] at hentry
        cases hentry

end glob

/-- Nothing that is applied after a restart is fetched at offset 0. -/
theorem Behind.not_mem_fetch (h : Behind b topic partition data) {tp : TopicPartition}
    (htp : b.topics.lookup (partitionKey topic partition) = some tp) {order : List IndexEntry}
    (horder : tp.index.Order order) {offset maxBytes : ℤ} {msg : Message}
    (hmsg : msg ∈ (b.fetch order topic partition offset maxBytes).msgs) : msg.offset ≠ 0 := by
  intro hzero
  obtain ⟨entry, hentry⟩ := exists_entry_of_fetch htp horder hmsg
  rw [hzero, (h.partition tp htp).2] at hentry
  exact absurd hentry nofun


/-- **Restart.** Let a broker start on an empty directory, apply `before`, stop,
start again and apply `after`: what the Raft state makes it apply, whatever that
is. The messages that could be fetched are still fetched if nothing had been applied
before, and (for names without pattern characters and messages whose size an `int32` holds)
only then. -/
theorem kept_after_restart [Glob] (dataDir : ByteString) (before after : List Applied) :
    let b : Store := { dataDir, disk := fun _ => ∅ }
    (before = [] → Kept (b.applyAll before) ((b.applyAll before).restart.applyAll after)) ∧
      ((∀ a ∈ before, Glob.Literal (logPath dataDir a.entry.topic a.entry.partition)) →
        (∀ a ∈ before, a.entry.data.length < 2 ^ 31) →
        Kept (b.applyAll before) ((b.applyAll before).restart.applyAll after) → before = []) := by
  intro b
  constructor
  · rintro rfl topic partition tp order offset maxBytes htp
    exact absurd htp nofun
  · intro hliteral hsize hkept
    cases before with
    | nil => rfl
    | cons a before =>
      exfalso
      obtain ⟨ha, hbefore⟩ := List.forall_mem_cons.mp hsize
      have hpath := hliteral a List.mem_cons_self
      -- the first message is fetched before the restart
      have hfirst : FirstMessage (b.applyAll (a :: before)) a.entry.topic a.entry.partition
          a.entry.data := (firstMessage_applyEntry rfl (fun _ => rfl) hpath ha).applyAll hbefore
      have hplaced : (b.applyAll (a :: before)).Placed := (Store.placed_of_new rfl).applyAll _
      obtain ⟨tp, order, msg, htp, horder, hmsg, hzero, -⟩ := hfirst.exists_fetch hplaced
      obtain ⟨tp', order', offset', maxBytes', htp', horder', msg', hmsg', hsame, -⟩ :=
        hkept _ _ tp order _ _ htp horder msg hmsg
      -- after it, what is fetched lies behind it in the file
      have hbehind : Behind (b.applyAll (a :: before)).restart a.entry.topic a.entry.partition
          a.entry.data := ⟨hfirst.stored, fun tp htp => absurd htp nofun⟩
      have hdir : (b.applyAll (a :: before)).restart.dataDir = dataDir := Store.dataDir_applyAll ..
      exact (hbehind.applyAll (hdir ▸ hpath) after).not_mem_fetch htp' horder' hmsg'
        (hsame.trans hzero)

/-- One message, at offset 0. After a restart its partition is unknown; and if the
entry is applied once more, the message is found at offset 21. -/
theorem restart_loses_message :
    let _ := literalGlob
    let b : Store := { dataDir := [100], disk := fun _ => ∅ }
    let a : Applied := { entry := ⟨[116], 0, [1]⟩ }
    let order : List IndexEntry := [⟨0, 1, 0⟩]
    (b.applyAll [a]).fetch order [116] 0 (-1) 100 = .ok [⟨[116], 0, 0, 0, [1]⟩] 1 ∧
      (b.applyAll [a]).restart.fetch order [116] 0 (-1) 100 =
        .error "topic partition not found" ∧
      ((b.applyAll [a]).restart.applyAll [a]).fetch [⟨21, 1, 0⟩] [116] 0 (-1) 100 =
        .ok [⟨[116], 0, 21, 0, [1]⟩] 22 := by
  decide +kernel

end DistributedMQ.Broker
