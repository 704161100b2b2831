import DistributedMQ.NameServer.Groups
import DistributedMQ.NameServer.Offsets

/-!
# Commits by former owners (`nameserver.go` lines 527–577, `offset_store.go` lines 37–49)

`handleCommitOffset` does not look at the groups: whoever sends a commit, and whoever the
partition belongs to by now, the offset is put. `GroupOffsets` has the groups and the committed
offsets of one NameServer. The groups are lost when it is started again.

- `commit_not_rolled_back`: if the offsets of every client increase, then a client that does
  not own a partition does not lower its offset, as long as it is the one who has committed
  last.
- `former_owner_rolls_back`: what happens if it is not.
-/

namespace DistributedMQ.NameServer

open Machine History Naming BigEndian

structure GroupOffsets where
  groups : NameServerState := {}
  offsets : OffsetServer

inductive GroupOffsetsEvent where
  | groups (ev : NsEvent)
  | offsets (ev : OffsetEvent)

namespace GroupOffsets

def step (s : GroupOffsets) : GroupOffsetsEvent → Option GroupOffsets
  | .groups ev =>
    if s.offsets.opened = none then none else (s.groups.step ev).map fun n => { s with groups := n }
  | .offsets ev =>
    (s.offsets.step ev).map fun o =>
      match ev with
      | .start => { groups := {}, offsets := o }
      | .commit _ _ => { s with offsets := o }

/-- The partition is currently assigned to the client. -/
def Assigned (n : NameServerState) (clientID groupID topic : ByteString) (partition : ℤ) : Prop :=
  ∃ g ∈ n.consumerGroups.lookup (text groupID), g.topic = text topic ∧
    ∃ m ∈ g.members.lookup (text clientID), ∃ pid ∈ m.assignments, (pid : ℤ) = partition

instance (n : NameServerState) (clientID groupID topic : ByteString) (partition : ℤ) :
    Decidable (Assigned n clientID groupID topic partition) :=
  inferInstanceAs (Decidable (∃ g ∈ n.consumerGroups.lookup (text groupID), _))

/-- The stored offset of a group, a topic and a partition. -/
def stored (s : GroupOffsets) (groupID topic : ByteString) (partition : ℤ) : Option ℤ :=
  (s.offsets.bucket.lookup (offsetKey groupID topic partition)).map fun data =>
    toSigned 64 (decode data)

/-- The commit of a client is for the group and the topic of a request. -/
def SameSender (req : CommitRequest) (a : Acked) : Prop :=
  a.clientID = req.clientID ∧ a.commit.groupID = req.groupID ∧ a.commit.topic = req.topic

instance (req : CommitRequest) (a : Acked) : Decidable (SameSender req a) :=
  inferInstanceAs (Decidable (_ ∧ _))

/-- A client does not commit less than it has committed before. -/
def Increasing (s : GroupOffsets) (req : CommitRequest) : Prop :=
  ∀ partition ∈ parseInt req.partition, ∀ offset ∈ parseInt req.offset, ∀ a ∈ s.offsets.acked,
    SameSender req a → a.commit.partition = partition → a.commit.offset ≤ offset

/-- A client that does not own the partition is the one who has committed last. -/
def Undisturbed (s : GroupOffsets) (req : CommitRequest) : Prop :=
  ∀ partition ∈ parseInt req.partition,
    Assigned s.groups req.clientID req.groupID req.topic partition ∨
      ∀ a ∈ latest (OffsetServer.savedUnder (offsetKey req.groupID req.topic partition))
        s.offsets.acked, SameSender req a

instance (s : GroupOffsets) (req : CommitRequest) : Decidable (s.Increasing req) :=
  inferInstanceAs (Decidable (∀ partition ∈ parseInt req.partition, _))

instance (s : GroupOffsets) (req : CommitRequest) : Decidable (s.Undisturbed req) :=
  inferInstanceAs (Decidable (∀ partition ∈ parseInt req.partition, _))

/-- Every commit meets the first condition. -/
def Ascending (s : GroupOffsets) (ev : GroupOffsetsEvent) (_ : GroupOffsets) : Prop :=
  match ev with
  | .offsets (.commit req _) => s.Increasing req
  | _ => True

instance (s : GroupOffsets) (ev : GroupOffsetsEvent) (t : GroupOffsets) :
    Decidable (s.Ascending ev t) :=
  match ev with
  | .offsets (.commit req _) => inferInstanceAs (Decidable (s.Increasing req))
  | .offsets .start | .groups _ => inferInstanceAs (Decidable True)

/-- Every commit meets both conditions. -/
def Orderly (s : GroupOffsets) (ev : GroupOffsetsEvent) (_ : GroupOffsets) : Prop :=
  match ev with
  | .offsets (.commit req _) => s.Increasing req ∧ s.Undisturbed req
  | _ => True

instance (s : GroupOffsets) (ev : GroupOffsetsEvent) (t : GroupOffsets) :
    Decidable (s.Orderly ev t) :=
  match ev with
  | .offsets (.commit req _) => inferInstanceAs (Decidable (s.Increasing req ∧ s.Undisturbed req))
  | .offsets .start | .groups _ => inferInstanceAs (Decidable True)

variable {s t : GroupOffsets} {directory : Bool}

/-- A commit leaves the groups alone. -/
theorem step_commit {req : CommitRequest} {err : Option String}
    (h : s.step (.offsets (.commit req err)) = some t) :
    s.offsets.step (.commit req err) = some t.offsets := by
  obtain ⟨o, ho, rfl⟩ := Option.map_eq_some_iff.mp h
  exact ho

/-- **Run.** The offsets are in the bucket, whatever happens to the groups. -/
theorem bucketInv_of_run {guard : GroupOffsets → GroupOffsetsEvent → GroupOffsets → Prop}
    (hrun : Run step guard { offsets := { directory } } s) : s.offsets.BucketInv := by
  refine hrun.invariant (P := fun s => s.offsets.BucketInv) (OffsetServer.BucketInv.init directory) ?_
  intro s ev t h _ hstep
  cases ev with
  | groups ev =>
    rw [step] at hstep
    split at hstep
    · cases hstep
    · obtain ⟨n, _, rfl⟩ := Option.map_eq_some_iff.mp hstep
      exact h
  | offsets ev =>
    obtain ⟨o, ho, rfl⟩ := Option.map_eq_some_iff.mp hstep
    cases ev with
    | start => exact h.step ho
    | commit req err => exact h.step ho

/-- The stored offset is the last one that was saved. -/
theorem stored_eq (h : s.offsets.BucketInv) (groupID topic : ByteString) (partition : ℤ) :
    s.stored groupID topic partition =
      (latest (OffsetServer.savedUnder (offsetKey groupID topic partition)) s.offsets.acked).map
        fun a => a.commit.offset := by
  rw [stored, h.lookup, Option.map_map]
  refine Option.map_congr fun a ha => ?_
  rw [Function.comp_apply, Committed.toSigned_bytes (h.fits a (mem_of_latest ha).1)]

/-- **No offset is rolled back.** In every run in which the offsets of every client increase
and clients that do not own a partition commit only after themselves, a commit by a client that
does not own the partition does not lower the stored offset. -/
theorem commit_not_rolled_back (hrun : Run step Orderly { offsets := { directory } } s)
    {req : CommitRequest} {err : Option String}
    (horderly : s.Orderly (.offsets (.commit req err)) t)
    (hstep : s.step (.offsets (.commit req err)) = some t) {partition : ℤ}
    (hpartition : parseInt req.partition = some partition)
    (hformer : ¬Assigned s.groups req.clientID req.groupID req.topic partition) {offset : ℤ}
    (hstored : s.stored req.groupID req.topic partition = some offset) :
    ∃ offset', t.stored req.groupID req.topic partition = some offset' ∧ offset ≤ offset' := by
  obtain ⟨hincreasing, hundisturbed⟩ : s.Increasing req ∧ s.Undisturbed req := horderly
  have hinv := bucketInv_of_run hrun
  obtain ⟨opened, -, hsame | ⟨c, hof, hcommit⟩⟩ := OffsetServer.step_commit (step_commit hstep)
  · refine ⟨offset, ?_, le_rfl⟩
    rw [stored, hsame]
    exact hstored
  obtain rfl : c.partition = partition := Option.some.inj (hof.partition.symm.trans hpartition)
  have hkey : c.key = offsetKey req.groupID req.topic c.partition := by
    rw [Committed.key, hof.groupID, hof.topic]
  cases opened with
  | false =>
    -- without a store nothing is written
    refine ⟨offset, ?_, le_rfl⟩
    rw [stored, hcommit]
    exact hstored
  | true =>
    refine ⟨c.offset, ?_, ?_⟩
    · rw [stored, hcommit, ← hkey]
      dsimp only
      rw [if_pos rfl, AList.lookup_insert, Option.map_some,
        Committed.toSigned_bytes (fits_of_parseInt hof.offset)]
    · -- what is stored is the client's own last offset
      rw [stored_eq hinv] at hstored
      obtain ⟨a, ha, rfl⟩ := Option.map_eq_some_iff.mp hstored
      have hsender := (hundisturbed c.partition hpartition).resolve_left hformer a ha
      obtain ⟨hmem, hsaved⟩ := mem_of_latest ha
      have hsame : a.commit.partition = c.partition :=
        (offsetKey_eq_iff.mp (of_decide_eq_true hsaved).2).2
      exact hincreasing c.partition hpartition c.offset hof.offset a hmem hsender hsame

/-- `b` owns the only partition of `t` and commits 5; then `a` joins and takes it over. -/
def takenOver : List GroupOffsetsEvent :=
  [.offsets .start, .groups (.register "x" "x:9092" "host"),
    .groups (.createTopic "t" (.given (some 1)) [1]), .groups (.joinGroup "g" "b" "t" 1),
    .offsets (.commit ⟨[98], [103], [116], [48], [53]⟩ none), .groups (.joinGroup "g" "a" "t" 2)]

/-- Nobody else has committed: `b` may still commit 6. -/
theorem commit_not_rolled_back_late :
    ∃ s t : GroupOffsets, ¬Assigned s.groups [98] [103] [116] 0 ∧
      s.stored [103] [116] 0 = some 5 ∧
      s.step (.offsets (.commit ⟨[98], [103], [116], [48], [54]⟩ none)) = some t ∧
      ∃ offset, t.stored [103] [116] 0 = some offset ∧ 5 ≤ offset := by
  obtain ⟨s, t, _, hrun, horderly, hstep, _, hformer, hstored⟩ : ∃ s t u : GroupOffsets,
      Run step Orderly { offsets := { directory := true } } s ∧
      s.Orderly (.offsets (.commit ⟨[98], [103], [116], [48], [54]⟩ none)) t ∧
      s.step (.offsets (.commit ⟨[98], [103], [116], [48], [54]⟩ none)) = some t ∧
      Run step Orderly t u ∧
      ¬Assigned s.groups [98] [103] [116] 0 ∧ s.stored [103] [116] 0 = some 5 :=
    exists_step_of_execWith takenOver (.offsets (.commit ⟨[98], [103], [116], [48], [54]⟩ none)) []
      (by decide +kernel)
  exact ⟨s, t, hformer, hstored, hstep,
    commit_not_rolled_back hrun horderly hstep (by decide +kernel) hformer hstored⟩

/-- The new owner has committed 9 when the commit of `b` arrives: the offset goes back to 6. -/
theorem former_owner_rolls_back :
    ∃ s t : GroupOffsets, Run step Ascending { offsets := { directory := true } } s ∧
      s.Ascending (.offsets (.commit ⟨[98], [103], [116], [48], [54]⟩ none)) t ∧
      s.step (.offsets (.commit ⟨[98], [103], [116], [48], [54]⟩ none)) = some t ∧
      ¬Assigned s.groups [98] [103] [116] 0 ∧
      s.stored [103] [116] 0 = some 9 ∧ t.stored [103] [116] 0 = some 6 := by
  obtain ⟨s, t, _, hrun, hascending, hstep, _, hfacts⟩ : ∃ s t u : GroupOffsets,
      Run step Ascending { offsets := { directory := true } } s ∧
      s.Ascending (.offsets (.commit ⟨[98], [103], [116], [48], [54]⟩ none)) t ∧
      s.step (.offsets (.commit ⟨[98], [103], [116], [48], [54]⟩ none)) = some t ∧
      Run step Ascending t u ∧ ¬Assigned s.groups [98] [103] [116] 0 ∧
      s.stored [103] [116] 0 = some 9 ∧ t.stored [103] [116] 0 = some 6 :=
    exists_step_of_execWith
      (takenOver ++ [.offsets (.commit ⟨[97], [103], [116], [48], [57]⟩ none)])
      (.offsets (.commit ⟨[98], [103], [116], [48], [54]⟩ none)) [] (by decide +kernel)
  exact ⟨s, t, hrun, hascending, hstep, hfacts⟩

end GroupOffsets

end DistributedMQ.NameServer
