import DistributedMQ.Broker.Partitions

/-!
# Applying committed entries (`broker.go` lines 722–788)

`handleApply` collects entries from `applyCh` and applies them in batches: when a
hundred have come together, when its timer fires, and when it stops. The timer is
an event that may fire at any moment, so every schedule of the source is a run of
`ApplyLoop.step`. The batch slice is reused, but `applyBatch` does not keep it and
nobody else sees it, so it is a list here.

- `LoopInv`: what has been applied and the batch are the entries taken, in order.
- `Holds`: what a partition holds once it has been given a list of entries.
- `handleApply_sequential`: when the loop returns, every partition holds exactly
  its entries, at offsets that depend on their lengths only.
-/

namespace DistributedMQ.Broker

open Storage Naming Machine

structure ApplyLoop where
  store : Store
  batch : List Entry := []
  returned : Bool := false
  /-- The entries received from `applyCh`. -/
  taken : List Entry := []

/-- The four cases of the `select`. The clock readings are those of the
`applyBatch` that may follow. -/
inductive ApplyEvent where
  /-- `stopCh` is closed. -/
  | stop (clock : ℕ → ℕ × ℕ)
  | entry (e : Entry) (clock : ℕ → ℕ × ℕ)
  /-- `applyCh` is closed. -/
  | closed (clock : ℕ → ℕ × ℕ)
  | timer (clock : ℕ → ℕ × ℕ)

namespace ApplyLoop

variable [Glob]

/-- `if len(batch) > 0`, apply it and start a new one. -/
def flush (s : ApplyLoop) (clock : ℕ → ℕ × ℕ) : ApplyLoop :=
  if s.batch = [] then s
  else { s with store := s.store.applyBatch clock s.batch, batch := [] }

/-- One round of `handleApply`. -/
def step (s : ApplyLoop) (ev : ApplyEvent) : Option ApplyLoop :=
  if s.returned then none
  else
    match ev with
    | .stop clock => some { s.flush clock with returned := true }
    | .closed clock => some { s.flush clock with returned := true }
    | .timer clock => some (s.flush clock)
    | .entry e clock =>
      let s := { s with batch := s.batch ++ [e], taken := s.taken ++ [e] }
      some (if 100 ≤ s.batch.length then s.flush clock else s)

end ApplyLoop

/-! ## The loop applies what it takes -/

/-- The store has the entries taken so far, apart from those in the batch. -/
structure LoopInv [Glob] (b : Store) (s : ApplyLoop) : Prop where
  /-- The entries applied, then the batch, are the entries taken. -/
  taken : ∃ done : List Applied, s.taken = done.map Applied.entry ++ s.batch ∧
    s.store = b.applyAll done
  returned : s.returned = true → s.batch = []

namespace LoopInv

variable [Glob] {b : Store} {s t : ApplyLoop}

omit [Glob] in
theorem map_entry_mapIdx (clock : ℕ → ℕ × ℕ) (batch : List Entry) :
    (batch.mapIdx fun i e => (⟨e, (clock i).1, (clock i).2⟩ : Applied)).map Applied.entry =
      batch := by
  refine List.ext_getElem? fun i => ?_
  rw [List.getElem?_map, List.getElem?_mapIdx, Option.map_map]
  exact Option.map_id'

theorem flush (h : LoopInv b s) (clock : ℕ → ℕ × ℕ) : LoopInv b (s.flush clock) := by
  rw [ApplyLoop.flush]
  split
  · exact h
  · obtain ⟨done, htaken, hstore⟩ := h.taken
    refine ⟨⟨done ++ s.batch.mapIdx fun i e => ⟨e, (clock i).1, (clock i).2⟩, ?_, ?_⟩,
      fun _ => rfl⟩
    · show s.taken = _ ++ []
      rw [htaken, List.append_nil, List.map_append, map_entry_mapIdx]
    · show s.store.applyBatch clock s.batch = _
      rw [Store.applyAll_append, ← hstore]
      rfl

theorem batch_flush (s : ApplyLoop) (clock : ℕ → ℕ × ℕ) : (s.flush clock).batch = [] := by
  rw [ApplyLoop.flush]
  split
  · assumption
  · rfl

/-- Whether it takes an entry, writes the batch or returns, the loop accounts for what it took. -/
theorem step (h : LoopInv b s) {ev : ApplyEvent} (hstep : s.step ev = some t) : LoopInv b t := by
  unfold ApplyLoop.step at hstep
  split at hstep
  · exact absurd hstep nofun
  rename_i hrunning
  cases ev with
  | stop clock =>
    cases hstep
    exact ⟨(h.flush clock).taken, fun _ => batch_flush s clock⟩
  | closed clock =>
    cases hstep
    exact ⟨(h.flush clock).taken, fun _ => batch_flush s clock⟩
  | timer clock =>
    cases hstep
    exact h.flush clock
  | entry e clock =>
    cases hstep
    have hmore : LoopInv b { s with batch := s.batch ++ [e], taken := s.taken ++ [e] } := by
      obtain ⟨done, htaken, hstore⟩ := h.taken
      refine ⟨⟨done, ?_, hstore⟩, fun hret => absurd hret hrunning⟩
      show s.taken ++ [e] = _ ++ (s.batch ++ [e])
      rw [htaken, List.append_assoc]
    dsimp only
    split
    · exact hmore.flush clock
    · exact hmore

/-- At any time the store is the one it was given plus the entries applied. -/
theorem of_run (hrun : Run ApplyLoop.step (fun _ _ _ => True) { store := b } s) : LoopInv b s :=
  hrun.invariant (P := LoopInv b) ⟨⟨[], rfl, rfl⟩, fun hret => absurd hret Bool.false_ne_true⟩
    fun _ _ _ h _ hstep => h.step hstep

end LoopInv

/-! ## What a partition holds -/

/-- The offsets of messages in a log that starts at `start`: the `k`-th one is
`start` plus 20 and the length of every earlier one. -/
def messageOffsets (start : ℕ) (messages : List Entry) : List ℕ :=
  (List.range messages.length).map fun k =>
    start + ((messages.take k).map fun e => 20 + e.data.length).sum

/-- **Holds.** The partition has been opened in a directory with `files₀` and has
been given `messages`. -/
structure Holds [Glob] (files₀ : Files) (messages : List Entry) (tp : TopicPartition)
    (files : Files) : Prop where
  /-- The log starts where `OpenCommitLog` has put it. -/
  opened : ∃ disk, disk tp.basePath = files₀ ∧ tp.openedAt = Store.openOffset disk tp.basePath
  /-- The commit log is `files₀` with one record for every message, in order and
  at the offsets above. -/
  log : ∃ times : List ℕ, times.length = messages.length ∧
    CommitLog.appendAll { files := files₀, segments := [], lastOffset := tp.openedAt }
        (times.zip (messages.map Entry.data)) =
      (tp.log files, messageOffsets tp.openedAt messages)
  /-- The index has one entry for every message, with its offset and size. -/
  index : ((GoMap.values tp.index.entries).map fun e => (e.offset, e.size)).Perm
    ((messageOffsets tp.openedAt messages).zip
      (messages.map fun e => (e.data.length : ℤ)))

theorem messageOffsets_eq (start : ℕ) (as : List Applied) :
    messageOffsets start (as.map Applied.entry) =
      CommitLog.offsetsFrom start (as.map fun a => a.entry.data) := by
  rw [CommitLog.offsetsFrom_eq, messageOffsets, List.length_map, List.length_map]
  refine List.map_congr_left fun k _ => ?_
  simp only [← List.map_take, List.map_map, headerSize]
  rfl

theorem map_indexEntries {as : List Applied} (hsize : ∀ a ∈ as, a.entry.data.length < 2 ^ 31)
    (start : ℕ) :
    (TopicPartition.indexEntries start as).map (fun e => (e.offset, e.size)) =
      (CommitLog.offsetsFrom start (as.map fun a => a.entry.data)).zip
        ((as.map Applied.entry).map fun e => (e.data.length : ℤ)) := by
  induction as generalizing start with
  | nil => rfl
  | cons a as ih =>
    obtain ⟨ha, has⟩ := List.forall_mem_cons.mp hsize
    rw [TopicPartition.indexEntries_cons, List.map_cons, ih has, int32_of_lt ha]
    rfl

/-- A partition that has just been opened and is given entries of under 2 GiB. -/
theorem holds_applyAll [Glob] (b : Store) {topic : ByteString} {partition : ℤ} {files : Files}
    (hfiles : b.disk (logPath b.dataDir topic partition) = files) {as : List Applied}
    (hsize : ∀ a ∈ as, a.entry.data.length < 2 ^ 31) :
    Holds files (as.map Applied.entry) ((b.openPartition topic partition).applyAll files as).1
      ((b.openPartition topic partition).applyAll files as).2 := by
  have hopened := (b.openPartition topic partition).openedAt_applyAll files as
  have hbase := (b.openPartition topic partition).basePath_applyAll files as
  refine ⟨⟨b.disk, ?_, ?_⟩, ⟨as.map Applied.appendTime, ?_, ?_⟩, ?_⟩
  · rw [hbase]
    exact hfiles
  · rw [hopened, hbase]
    rfl
  · rw [List.length_map, List.length_map]
  · have hrecords : (as.map Applied.appendTime).zip ((as.map Applied.entry).map Entry.data) =
        as.map TopicPartition.record := by
      rw [List.map_map, List.zip_map']
      rfl
    rw [hrecords, hopened]
    refine Prod.ext ((b.openPartition topic partition).log_applyAll files as).symm ?_
    rw [CommitLog.snd_appendAll, messageOffsets_eq, List.map_map]
    rfl
  · have hbelow : (b.openPartition topic partition).IndexBelow := fun _ _ => rfl
    refine ((hbelow.values_applyAll files as).map _).trans (List.Perm.of_eq ?_)
    rw [messageOffsets_eq, hopened]
    exact map_indexEntries hsize _

section run

variable [Glob] {b : Store} {s : ApplyLoop}

omit [Glob] in
theorem own_map_entry (topic : ByteString) (partition : ℤ) (as : List Applied) :
    (Store.own topic partition as).map Applied.entry =
      (as.map Applied.entry).filter fun e => e.pair = (topic, partition) := by
  rw [List.filter_map]
  rfl

/-- What the returned loop leaves in a partition. -/
theorem view_of_returned (hnew : b.topics = ∅)
    (hrun : Run ApplyLoop.step (fun _ _ _ => True) { store := b } s) (hret : s.returned = true)
    (hplain : ∀ e ∈ s.taken, Store.Plain e.topic e.partition)
    (hsize : ∀ e ∈ s.taken, e.data.length < 2 ^ 31) {topic : ByteString} {partition : ℤ}
    (hname : Store.Plain topic partition) :
    let messages := s.taken.filter fun e => e.pair = (topic, partition)
    let files₀ := b.disk (logPath b.dataDir topic partition)
    messages = [] ∧ s.store.view topic partition = (none, files₀) ∨
      messages ≠ [] ∧ ∃ tp files, s.store.view topic partition = (some tp, files) ∧
        Holds files₀ messages tp files := by
  intro messages files₀
  have hinv := LoopInv.of_run hrun
  obtain ⟨done, htaken, hstore⟩ := hinv.taken
  -- a loop that has returned has an empty batch
  rw [hinv.returned hret, List.append_nil] at htaken
  have hmessages : messages = (Store.own topic partition done).map Applied.entry := by
    rw [own_map_entry, ← htaken]
  have hdone : ∀ a ∈ done, a.entry ∈ s.taken := fun a ha => by
    rw [htaken]
    exact List.mem_map_of_mem ha
  have hsep := Store.separate_of_plain hname (fun a ha => hplain _ (hdone a ha)) b.dataDir
  rw [hmessages, hstore, List.map_eq_nil_iff, Ne, List.map_eq_nil_iff]
  rcases Store.view_applyAll_none (Store.placed_of_new hnew)
      (Store.view_of_new hnew topic partition) hsep with h | ⟨hown, b', hdir, hdisk, hview⟩
  · exact Or.inl h
  · refine Or.inr ⟨hown, _, _, hview, ?_⟩
    have hfiles : b'.disk (logPath b'.dataDir topic partition) = files₀ := by
      rw [hdir]
      exact hdisk
    exact holds_applyAll b' hfiles fun a ha => hsize _ (hdone a (Store.mem_own.mp ha).1)

theorem holds_of_view (hnew : b.topics = ∅)
    (hrun : Run ApplyLoop.step (fun _ _ _ => True) { store := b } s) (hret : s.returned = true)
    (hplain : ∀ e ∈ s.taken, Store.Plain e.topic e.partition)
    (hsize : ∀ e ∈ s.taken, e.data.length < 2 ^ 31) {topic : ByteString} {partition : ℤ}
    (hname : Store.Plain topic partition) {tp : TopicPartition} {files : Files}
    (hview : s.store.view topic partition = (some tp, files)) :
    Holds (b.disk (logPath b.dataDir topic partition))
      (s.taken.filter fun e => e.pair = (topic, partition)) tp files := by
  rcases view_of_returned hnew hrun hret hplain hsize hname with
    ⟨-, hnone⟩ | ⟨-, tp', files', hview', hholds⟩
  · exact absurd (hnone.symm.trans hview) (by simp)
  · obtain ⟨htp, rfl⟩ := Prod.mk.inj (hview.symm.trans hview')
    cases htp
    exact hholds

end run

/-- **Apply.** Start the loop on a broker that has no partition open, and let it
run until it returns, under any schedule of arrivals and timer firings. Nothing
it has taken is left in the batch, and every partition holds exactly its entries.
A second broker whose loop has taken the same entries under another schedule
gives them the same offsets wherever its log started at the same one. -/
theorem handleApply_sequential [Glob] {b : Store} (hnew : b.topics = ∅) {s : ApplyLoop}
    (hrun : Run ApplyLoop.step (fun _ _ _ => True) { store := b } s) (hret : s.returned = true)
    (hplain : ∀ e ∈ s.taken, Store.Plain e.topic e.partition)
    (hsize : ∀ e ∈ s.taken, e.data.length < 2 ^ 31) :
    s.batch = [] ∧
    (∀ topic partition, Store.Plain topic partition →
      let messages := s.taken.filter fun e => e.pair = (topic, partition)
      let files₀ := b.disk (logPath b.dataDir topic partition)
      messages = [] ∧ s.store.view topic partition = (none, files₀) ∨
        messages ≠ [] ∧ ∃ tp files, s.store.view topic partition = (some tp, files) ∧
          Holds files₀ messages tp files) ∧
    ∀ (b' : Store) (s' : ApplyLoop), b'.topics = ∅ →
      Run ApplyLoop.step (fun _ _ _ => True) { store := b' } s' → s'.returned = true →
      s'.taken = s.taken → ∀ topic partition, Store.Plain topic partition →
        ∀ tp files tp' files', s.store.view topic partition = (some tp, files) →
          s'.store.view topic partition = (some tp', files') → tp.openedAt = tp'.openedAt →
            ((GoMap.values tp.index.entries).map IndexEntry.offset).Perm
              ((GoMap.values tp'.index.entries).map IndexEntry.offset) := by
  refine ⟨(LoopInv.of_run hrun).returned hret, fun topic partition hname =>
    view_of_returned hnew hrun hret hplain hsize hname, ?_⟩
  intro b' s' hnew' hrun' hret' htaken topic partition hname tp files tp' files' hview hview' hopen
  have hholds := holds_of_view hnew hrun hret hplain hsize hname hview
  have hholds' := holds_of_view hnew' hrun' hret' (htaken ▸ hplain) (htaken ▸ hsize) hname hview'
  rw [htaken] at hholds'
  -- both indexes have the offsets of the same messages from the same start
  have hoffsets := hholds.index.map Prod.fst
  have hoffsets' := hholds'.index.map Prod.fst
  rw [List.map_map] at hoffsets hoffsets'
  rw [← hopen] at hoffsets'
  exact hoffsets.trans hoffsets'.symm

/-- Two entries of one partition with a timer firing in between, then a stop. -/
theorem handleApply_sequential_two :
    let _ := literalGlob
    let e : Entry := { topic := [116], partition := 0, data := [1, 2] }
    ∃ s, Run ApplyLoop.step (fun _ _ _ => True) { store := { dataDir := [100], disk := fun _ => ∅ } }
        s ∧ s.returned = true ∧ s.taken = [e, e] ∧ s.batch = [] := by
  intro _ e
  have hrun : Run ApplyLoop.step (fun _ _ _ => True)
      { store := { dataDir := [100], disk := fun _ => ∅ } } _ :=
    (((Run.refl.tail (l := .entry e fun _ => (7, 8)) trivial rfl).tail
      (l := .timer fun _ => (9, 10)) trivial rfl).tail
      (l := .entry e fun _ => (11, 12)) trivial rfl).tail
      (l := .stop fun _ => (13, 14)) trivial rfl
  have hplain : ∀ e' ∈ [e, e], Store.Plain e'.topic e'.partition := by decide +kernel
  have hsize : ∀ e' ∈ [e, e], e'.data.length < 2 ^ 31 := by decide +kernel
  exact ⟨_, hrun, rfl, rfl, (handleApply_sequential rfl hrun rfl hplain hsize).1⟩

end DistributedMQ.Broker
