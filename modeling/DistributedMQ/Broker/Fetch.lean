import DistributedMQ.Broker.Partitions

/-!
# Fetching messages (`broker.go` lines 505–551)

`Fetch` walks over the index entries behind the requested offset, in the order in
which Go happens to give them, and stops when the next message would exceed
`maxBytes`, but never before the first one.

- `Store.fetch`: the answer for one order of the index map.
- `OrderedRun`: the messages are in order and none is left out between them.
- `fetch_ordered_iff`: every order of the map gives an ordered run iff at most one
  message matches the request.
-/

namespace DistributedMQ.Broker

open Storage Naming

/-- The fields of `Message` that `Fetch` sets. -/
structure Message where
  topic : ByteString
  partition : ℤ
  offset : ℕ
  timestamp : ℕ
  value : List UInt8
deriving DecidableEq, Repr

inductive ReadResult where
  | ok (data : List UInt8)
  | error
  /-- `make([]byte, size)` with a negative size. -/
  | panic
deriving DecidableEq

/-- `tp.commitLog.Read(entry.Offset, entry.Size)`. The file is opened before the
buffer is made. -/
def readEntry (log : CommitLog) (entry : IndexEntry) : ReadResult :=
  match log.files.lookup (CommitLog.segKey entry.offset) with
  | none => .error
  | some _ =>
    if entry.size < 0 then .panic
    else
      match log.read entry.offset entry.size.toNat with
      | none => .error
      | some data => .ok data

/-- The loop of `Fetch`; `none` is a panic. -/
def fetchLoop (log : CommitLog) (topic : ByteString) (partition maxBytes : ℤ) :
    List IndexEntry → ℤ → List Message → Option (List Message)
  | [], _, msgs => some msgs
  | entry :: entries, totalBytes, msgs =>
    if maxBytes < totalBytes + entry.size ∧ 0 < msgs.length then some msgs
    else
      match readEntry log entry with
      | .panic => none
      | .error => fetchLoop log topic partition maxBytes entries totalBytes msgs
      | .ok data =>
        let msg := { topic, partition, offset := entry.offset, timestamp := entry.timestamp,
                     value := data }
        fetchLoop log topic partition maxBytes entries (totalBytes + entry.size) (msgs ++ [msg])

inductive FetchResult where
  | ok (msgs : List Message) (highWatermark : ℕ)
  | error (text : String)
  | panic
deriving DecidableEq

/-- The messages of an answer. -/
def FetchResult.msgs : FetchResult → List Message
  | .ok msgs _ => msgs
  | _ => []

/-- `Fetch`, ranging over the index in the order given. -/
def Store.fetch (b : Store) (order : List IndexEntry) (topic : ByteString) (partition offset : ℤ)
    (maxBytes : ℤ) : FetchResult :=
  match b.topics.lookup (partitionKey topic partition) with
  | none => .error "topic partition not found"
  | some tp =>
    let entries := SparseIndex.getEntriesAfter order offset
    let highWatermark := (entries.getLast?.map fun entry => entry.offset + 1).getD 0
    match fetchLoop (tp.log (b.disk tp.basePath)) topic partition maxBytes entries 0 [] with
    | none => .panic
    | some msgs => .ok msgs highWatermark

/-! ## What the loop returns -/

/-- The message made from an index entry and its data. -/
def message (topic : ByteString) (partition : ℤ) (entry : IndexEntry) (data : List UInt8) :
    Message :=
  { topic, partition, offset := entry.offset, timestamp := entry.timestamp, value := data }

section loop

variable {log : CommitLog} {topic : ByteString} {partition maxBytes : ℤ}
  {entry : IndexEntry} {entries : List IndexEntry}

theorem fetchLoop_cons_of_fits {data : List UInt8} (hread : readEntry log entry = .ok data)
    {totalBytes : ℤ} {msgs : List Message}
    (hfits : ¬(maxBytes < totalBytes + entry.size ∧ 0 < msgs.length)) :
    fetchLoop log topic partition maxBytes (entry :: entries) totalBytes msgs =
      fetchLoop log topic partition maxBytes entries (totalBytes + entry.size)
        (msgs ++ [message topic partition entry data]) := by
  rw [fetchLoop, if_neg hfits, hread]
  rfl

theorem fetchLoop_cons_nil {data : List UInt8} (hread : readEntry log entry = .ok data)
    (totalBytes : ℤ) :
    fetchLoop log topic partition maxBytes (entry :: entries) totalBytes [] =
      fetchLoop log topic partition maxBytes entries (totalBytes + entry.size)
        [message topic partition entry data] := by
  refine fetchLoop_cons_of_fits hread ?_
  rintro ⟨-, hpos⟩
  exact Nat.lt_irrefl 0 hpos

theorem fetchLoop_cons_of_full {totalBytes : ℤ} {msgs : List Message}
    (hfull : maxBytes < totalBytes + entry.size ∧ 0 < msgs.length) :
    fetchLoop log topic partition maxBytes (entry :: entries) totalBytes msgs = some msgs := by
  rw [fetchLoop, if_pos hfull]

/-- Without read errors the loop prolongs the list by a front part of the entries. -/
theorem fetchLoop_eq (hread : ∀ entry ∈ entries, ∃ data, readEntry log entry = .ok data)
    (totalBytes : ℤ) (msgs : List Message) :
    ∃ more, fetchLoop log topic partition maxBytes entries totalBytes msgs = some (msgs ++ more) ∧
      more.map Message.offset <+: entries.map IndexEntry.offset := by
  induction entries generalizing totalBytes msgs with
  | nil => exact ⟨[], by rw [List.append_nil]; rfl, List.nil_prefix⟩
  | cons entry entries ih =>
    obtain ⟨⟨data, hdata⟩, hentries⟩ := List.forall_mem_cons.mp hread
    by_cases hfull : maxBytes < totalBytes + entry.size ∧ 0 < msgs.length
    · exact ⟨[], by rw [fetchLoop_cons_of_full hfull, List.append_nil], List.nil_prefix⟩
    · obtain ⟨more, hmore, hpre⟩ := ih hentries (totalBytes + entry.size)
        (msgs ++ [message topic partition entry data])
      refine ⟨message topic partition entry data :: more, ?_, ?_⟩
      · rw [fetchLoop_cons_of_fits hdata hfull, hmore, List.append_assoc]
        rfl
      · exact List.cons_prefix_cons.mpr ⟨rfl, hpre⟩

/-- The first entry is always returned. -/
theorem fetchLoop_first {data : List UInt8} (hdata : readEntry log entry = .ok data)
    (hread : ∀ entry ∈ entries, ∃ data, readEntry log entry = .ok data) :
    ∃ more, fetchLoop log topic partition maxBytes (entry :: entries) 0 [] =
        some (message topic partition entry data :: more) ∧
      more.map Message.offset <+: entries.map IndexEntry.offset := by
  obtain ⟨more, hmore, hpre⟩ := @fetchLoop_eq log topic partition maxBytes entries
    hread (0 + entry.size) [message topic partition entry data]
  exact ⟨more, (fetchLoop_cons_nil hdata 0).trans hmore, hpre⟩

end loop

/-! ## Ordered runs -/

/-- **An ordered run.** The messages have increasing offsets, and no message of
the index behind the requested offset and before the last one is left out. -/
structure OrderedRun (idx : SparseIndex) (offset : ℤ) (msgs : List Message) : Prop where
  increasing : (msgs.map Message.offset).Pairwise (· < ·)
  complete : ∀ entry ∈ GoMap.values idx.entries, offset < entry.offset →
    ∀ last ∈ msgs.getLast?, entry.offset < last.offset → entry.offset ∈ msgs.map Message.offset

/-- Two entries behind an offset can be the first two of the map, in either order. -/
theorem SparseIndex.exists_order_of_two {idx : SparseIndex} {offset : ℤ}
    (h : 1 < ((GoMap.values idx.entries).filter fun entry => offset < entry.offset).length) :
    ∃ x y rest, idx.Order (y :: x :: rest) ∧ offset < x.offset ∧ offset < y.offset ∧
      x.offset < y.offset := by
  have hperm := List.filter_append_perm (fun entry : IndexEntry => decide (offset < entry.offset))
    (GoMap.values idx.entries)
  have hmatch := fun entry => @List.of_mem_filter _
    (fun entry : IndexEntry => decide (offset < entry.offset)) entry (GoMap.values idx.entries)
  match hl : (GoMap.values idx.entries).filter fun entry => offset < entry.offset with
  | [] => simp [hl] at h
  | [_] => simp [hl] at h
  | x :: y :: rest =>
    rw [hl] at hperm hmatch
    have hx : offset < x.offset := of_decide_eq_true (hmatch x (by simp))
    have hy : offset < y.offset := of_decide_eq_true (hmatch y (by simp))
    have hne : x.offset ≠ y.offset := by
      have hnodup := (hperm.map IndexEntry.offset).nodup_iff.mpr idx.nodup_offsets
      exact fun heq => (List.nodup_cons.mp hnodup).1 (heq ▸ List.mem_cons_self)
    rcases Nat.lt_or_gt_of_ne hne with hlt | hlt
    · exact ⟨x, y, _, (List.Perm.swap x y _).trans hperm, hx, hy, hlt⟩
    · exact ⟨y, x, _, hperm, hy, hx, hlt⟩

/-- The messages of a run that starts with a larger offset and goes on with a
smaller one, or stops before it, are no ordered run. -/
theorem not_orderedRun {idx : SparseIndex} {offset : ℤ} {x y : IndexEntry}
    (hx : x ∈ GoMap.values idx.entries) (hoffset : offset < x.offset) (hlt : x.offset < y.offset)
    {first : Message} (hfirst : first.offset = y.offset) {more : List Message} {offsets : List ℕ}
    (hmore : more.map Message.offset <+: x.offset :: offsets) :
    ¬OrderedRun idx offset (first :: more) := by
  intro hrun
  cases more with
  | nil =>
    -- the smaller one is left out
    have hmem := hrun.complete x hx hoffset first rfl (hfirst ▸ hlt)
    rw [List.map_singleton, List.mem_singleton, hfirst] at hmem
    omega
  | cons second more =>
    -- the smaller one comes second
    have hsecond : second.offset = x.offset := (List.cons_prefix_cons.mp hmore).1
    have hincr := (List.pairwise_cons.mp hrun.increasing).1 second.offset List.mem_cons_self
    omega

section fetch

variable {b : Store} {tp : TopicPartition} {topic : ByteString} {partition : ℤ}

theorem fetch_eq (htp : b.topics.lookup (partitionKey topic partition) = some tp)
    {order : List IndexEntry} {offset maxBytes : ℤ} {msgs : List Message}
    (hloop : fetchLoop (tp.log (b.disk tp.basePath)) topic partition maxBytes
      (SparseIndex.getEntriesAfter order offset) 0 [] = some msgs) :
    b.fetch order topic partition offset maxBytes =
      .ok msgs (((SparseIndex.getEntriesAfter order offset).getLast?.map
        fun entry => entry.offset + 1).getD 0) := by
  rw [Store.fetch, htp]
  dsimp only
  rw [hloop]

/-- A fetch in the order the map is stored in, evaluated. -/
theorem exists_fetch_of_any {P : List Message → Prop} [DecidablePred P] {offset maxBytes : ℤ}
    (h : ((b.topics.lookup (partitionKey topic partition)).any fun tp => decide
      (P (b.fetch (GoMap.values tp.index.entries) topic partition offset maxBytes).msgs)) = true) :
    ∃ tp order, b.topics.lookup (partitionKey topic partition) = some tp ∧
      tp.index.Order order ∧ P (b.fetch order topic partition offset maxBytes).msgs := by
  obtain ⟨tp, htp, hP⟩ := (Option.any_eq_true _ _).mp h
  exact ⟨tp, _, htp, SparseIndex.order_values _, of_decide_eq_true hP⟩

end fetch

variable {b : Store} {tp : TopicPartition} {topic : ByteString} {partition : ℤ}

/-- **Order.** Let every message of a partition be readable. Whatever the order of
the index map, `Fetch` returns an ordered run, iff at most one message of the
partition is behind the requested offset. -/
theorem fetch_ordered_iff (htp : b.topics.lookup (partitionKey topic partition) = some tp)
    (hread : ∀ entry ∈ GoMap.values tp.index.entries,
      ∃ data, readEntry (tp.log (b.disk tp.basePath)) entry = .ok data)
    (offset maxBytes : ℤ) :
    (∀ order, tp.index.Order order →
      ∃ msgs highWatermark,
        b.fetch order topic partition offset maxBytes = .ok msgs highWatermark ∧
          OrderedRun tp.index offset msgs) ↔
      ((GoMap.values tp.index.entries).filter fun entry => offset < entry.offset).length ≤ 1 := by
  constructor
  · intro hall
    by_contra hmany
    -- let the map give a larger offset first
    obtain ⟨x, y, rest, horder, hx, hy, hlt⟩ :=
      SparseIndex.exists_order_of_two (Nat.lt_of_not_le hmany)
    have hmem : ∀ entry ∈ y :: x :: rest, entry ∈ GoMap.values tp.index.entries :=
      fun entry hentry => horder.mem_iff.mp hentry
    have hafter : SparseIndex.getEntriesAfter (y :: x :: rest) offset =
        y :: x :: SparseIndex.getEntriesAfter rest offset := by
      rw [SparseIndex.getEntriesAfter_cons hy, SparseIndex.getEntriesAfter_cons hx]
    obtain ⟨data, hdata⟩ := hread y (hmem y (by simp))
    obtain ⟨more, hloop, hpre⟩ := @fetchLoop_first _ topic partition maxBytes y
      (x :: SparseIndex.getEntriesAfter rest offset) data hdata fun entry hentry =>
        hread entry (hmem entry (by
          rcases List.mem_cons.mp hentry with rfl | hentry
          · simp
          · simp [(SparseIndex.mem_getEntriesAfter.mp hentry).1]))
    rw [← hafter] at hloop
    obtain ⟨msgs, hw, hfetch, hrun⟩ := hall _ horder
    obtain ⟨rfl, -⟩ := FetchResult.ok.inj ((fetch_eq htp hloop).symm.trans hfetch)
    exact not_orderedRun (hmem x (by simp)) hx hlt rfl hpre hrun
  · intro hone order horder
    have hlen : (SparseIndex.getEntriesAfter order offset).length ≤ 1 := by
      rw [SparseIndex.getEntriesAfter, (horder.filter _).length_eq]
      exact hone
    cases hentries : SparseIndex.getEntriesAfter order offset with
    | nil =>
      refine ⟨[], _, fetch_eq htp ?_, List.Pairwise.nil, fun _ _ _ last hlast => ?_⟩
      · rw [hentries]
        rfl
      · cases hlast
    | cons entry rest =>
      rw [hentries, List.length_cons] at hlen
      obtain rfl : rest = [] := List.length_eq_zero_iff.mp (by omega)
      have hentry : entry ∈ SparseIndex.getEntriesAfter order offset := by
        rw [hentries]
        exact List.mem_singleton_self entry
      obtain ⟨data, hdata⟩ := hread entry
        (horder.mem_iff.mp (SparseIndex.mem_getEntriesAfter.mp hentry).1)
      obtain ⟨more, hloop, hpre⟩ := @fetchLoop_first _ topic partition maxBytes entry [] data
        hdata fun _ hmem => absurd hmem List.not_mem_nil
      obtain rfl : more = [] := List.map_eq_nil_iff.mp (List.prefix_nil.mp hpre)
      refine ⟨_, _, fetch_eq htp (hentries ▸ hloop), List.pairwise_singleton _ _, ?_⟩
      -- the only entry behind the offset is the one returned
      intro x hx hoffset last hlast hlt
      have hx : x ∈ SparseIndex.getEntriesAfter order offset :=
        SparseIndex.mem_getEntriesAfter.mpr ⟨horder.mem_iff.mpr hx, hoffset⟩
      rw [hentries, List.mem_singleton] at hx
      cases hlast
      exact absurd hlt (hx ▸ Nat.lt_irrefl _)

/-- A broker that has applied messages of one partition. -/
def oneTopic (datas : List (List UInt8)) : Store :=
  let _ := literalGlob
  Store.applyAll { dataDir := [100], disk := fun _ => ∅ }
    (datas.map fun data => { entry := { topic := [116], partition := 0, data } })

/-- A partition with two messages, at offsets 0 and 21; one is behind the requested offset. -/
theorem fetch_ordered_iff_two :
    ∃ tp, (oneTopic [[1], [2, 3]]).topics.lookup (partitionKey [116] 0) = some tp ∧
      ∀ order, tp.index.Order order → ∃ msgs highWatermark,
        (oneTopic [[1], [2, 3]]).fetch order [116] 0 0 100 = .ok msgs highWatermark ∧
          OrderedRun tp.index 0 msgs := by
  refine ⟨_, rfl, (fetch_ordered_iff rfl (fun entry hentry => ?_) 0 100).mpr (by decide +kernel)⟩
  rcases List.mem_pair.mp hentry with rfl | rfl
  · exact ⟨[2, 3], by decide +kernel⟩
  · exact ⟨[1], by decide +kernel⟩

/-- Both are behind the offset -1. If the map gives the second one first, so does `Fetch`; and
if only one fits, it is the second one. -/
theorem fetch_out_of_order :
    ∃ tp order, (oneTopic [[1], [2, 3]]).topics.lookup (partitionKey [116] 0) = some tp ∧
      tp.index.Order order ∧
      ((oneTopic [[1], [2, 3]]).fetch order [116] 0 (-1) 100).msgs.map Message.offset = [21, 0] ∧
      ((oneTopic [[1], [2, 3]]).fetch order [116] 0 (-1) 0).msgs.map Message.offset = [21] :=
  ⟨_, _, rfl, SparseIndex.order_values _, by decide +kernel, by decide +kernel⟩

end DistributedMQ.Broker
