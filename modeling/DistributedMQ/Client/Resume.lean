import DistributedMQ.NameServer.Offsets

/-!
# Where a consumer starts (`MQConsumer.java` lines 41–141 and 277–301)

`poll` asks the name server for the committed offset of a partition if the consumer has no
offset for it. `joinGroup` has put the offset 0 for every partition that is assigned, so this
never happens.

The calls on one `MQConsumer` come one after the other; `poll` is one step for every partition.
In between other clients commit and the name server starts again. Answers that do not arrive,
the errors of the offset store and what a fetch returns are inputs.

`fetches` and `committed` are not in the source: the fetches the consumer has sent, and the
offsets it has committed, since it has joined.

- `JoinedInv`: until its first fetch the offset of a partition is the last one that the consumer
  itself has committed since it has joined, and 0 if there is none.
- `first_fetch_iff`: so the first fetch uses the stored offset iff that is the stored one.
-/

namespace DistributedMQ.Client

open NameServer Machine History Naming

/-- A consumer and the name server. -/
structure Consuming where
  server : OffsetServer
  groupID : ByteString
  clientID : ByteString
  topic : ByteString
  offsets : GoMap Int32 Int64 := ∅
  assignments : List Int32 := []
  running : Bool := true
  fetches : List (Int32 × Int64) := []
  committed : List (Int32 × Int64) := []

inductive ConsumerEvent where
  /-- The name server starts, or another client commits. -/
  | server (ev : OffsetEvent)
  /-- `joinGroup`; the name server answers with these partitions. -/
  | joinGroup (partitions : List Int32)
  /-- `commitOffset`; the answer may not arrive. -/
  | commitOffset (partition : Int32) (offset : Int64) (err : Option String) (arrives : Bool)
  /-- The turn of `poll` for a partition. `err` is the error of the offset store, if it is
  asked, and `last` the offset of the last message that is returned, if there is one. -/
  | poll (partition : Int32) (err : Option String) (last : Option Int64)
  | leaveGroup

namespace Consuming

/-- The request of `commitOffset`. -/
def commitRequest (s : Consuming) (partition : Int32) (offset : Int64) : CommitRequest where
  clientID := s.clientID
  groupID := s.groupID
  topic := s.topic
  partition := formatInt partition.toInt
  offset := formatInt offset.toInt

/-- `getOffsetFromNameserver`; `none` is an exception. -/
def getOffsetFromNameserver (s : Consuming) (partition : Int32) (err : Option String) :
    Option Int64 :=
  match s.server.opened with
  | none => none
  | some opened =>
    match handleGetOffset s.server.bucket opened s.groupID s.topic
      (formatInt partition.toInt) err with
    | .ok offset => some (Int64.ofInt offset)
    | .error _ => some 0

/-- The fetch of `poll`, with this offset, and what it does with the messages. -/
def fetch (s : Consuming) (partition : Int32) (offset : Int64) (last : Option Int64) :
    Consuming :=
  let s := { s with fetches := s.fetches ++ [(partition, offset)] }
  match last with
  | none => s
  | some lastOffset => { s with offsets := s.offsets.insert partition (lastOffset + 1) }

def step (s : Consuming) : ConsumerEvent → Option Consuming
  | .server ev => (s.server.step ev).map fun server => { s with server }
  | .joinGroup partitions =>
    some { s with
      assignments := partitions
      offsets := partitions.foldl (fun offsets partition => offsets.insert partition 0) s.offsets
      fetches := []
      committed := [] }
  | .commitOffset partition offset err arrives =>
    match s.server.opened with
    | none => none
    | some opened =>
      let req := s.commitRequest partition offset
      let (bucket, res) := handleCommitOffset s.server.bucket opened req err
      let s := { s with server := s.server.answered s.clientID opened bucket res }
      match res with
      | .error _ => some s
      | .ok _ =>
        if arrives then
          some { s with
            offsets := s.offsets.insert partition offset
            committed := s.committed ++ [(partition, offset)] }
        else some s
  | .poll partition err last =>
    if s.running ∧ partition ∈ s.assignments then
      match s.offsets.lookup partition with
      | some offset => some (s.fetch partition offset last)
      | none =>
        match s.getOffsetFromNameserver partition err with
        | none => none
        | some offset =>
          some (fetch { s with offsets := s.offsets.insert partition offset } partition offset last)
    else none
  | .leaveGroup => some { s with running := false }

/-- The offset that is stored for the group, the topic and the partition. -/
def stored (s : Consuming) (partition : Int32) : ℤ :=
  getOffset s.server.bucket s.groupID s.topic partition.toInt

/-- What the consumer itself has committed last since it has joined, or 0. -/
def ownOffset (committed : List (Int32 × Int64)) (partition : Int32) : Int64 :=
  ((latest (fun c => c.1 = partition) committed).map Prod.snd).getD 0

/-- The partition has not been fetched since the consumer has joined. -/
def Unfetched (fetches : List (Int32 × Int64)) (partition : Int32) : Prop :=
  ∀ f ∈ fetches, f.1 ≠ partition

instance (fetches : List (Int32 × Int64)) (partition : Int32) :
    Decidable (Unfetched fetches partition) :=
  List.decidableBAll (fun f : Int32 × Int64 => f.1 ≠ partition) fetches

/-- Until its first fetch the offset of an assigned partition is the consumer's own one. -/
def JoinedInv (s : Consuming) : Prop :=
  ∀ partition ∈ s.assignments, Unfetched s.fetches partition →
    s.offsets.lookup partition = some (ownOffset s.committed partition)

theorem lookup_foldl_insert (partitions : List Int32) (offsets : GoMap Int32 Int64)
    {partition : Int32} (h : partition ∈ partitions ∨ offsets.lookup partition = some 0) :
    (partitions.foldl (fun offsets partition => offsets.insert partition 0) offsets).lookup
      partition = some 0 := by
  induction partitions generalizing offsets with
  | nil => exact h.resolve_left List.not_mem_nil
  | cons p partitions ih =>
    refine ih _ ?_
    rw [GoMap.lookup_insert_eq]
    by_cases hp : partition = p
    · exact Or.inr (if_pos hp)
    · rw [if_neg hp]
      exact h.imp_left fun hmem => (List.mem_cons.mp hmem).resolve_left hp

theorem ownOffset_concat (committed : List (Int32 × Int64)) (p partition : Int32)
    (offset : Int64) :
    ownOffset (committed ++ [(p, offset)]) partition =
      if partition = p then offset else ownOffset committed partition := by
  rw [ownOffset, latest_concat]
  by_cases hp : partition = p
  · rw [if_pos hp, if_pos (by simp [hp])]
    rfl
  · rw [if_neg hp, if_neg (by simpa using Ne.symm hp)]
    rfl

theorem unfetched_concat {fetches : List (Int32 × Int64)} {f : Int32 × Int64} {partition : Int32}
    (h : Unfetched (fetches ++ [f]) partition) : Unfetched fetches partition ∧ f.1 ≠ partition :=
  ⟨fun g hg => h g (List.mem_append_left _ hg), h f (List.mem_append_right _ List.mem_cons_self)⟩

/-- A fetch may change the offset of its partition, which is no longer unfetched. -/
theorem JoinedInv.fetch {s : Consuming} {partition : Int32}
    (h : ∀ p ∈ s.assignments, p ≠ partition → Unfetched s.fetches p →
      s.offsets.lookup p = some (ownOffset s.committed p))
    (offset : Int64) (last : Option Int64) : JoinedInv (s.fetch partition offset last) := by
  cases last with
  | none =>
    intro p hp hunfetched
    obtain ⟨hbefore, hne⟩ := unfetched_concat hunfetched
    exact h p hp hne.symm hbefore
  | some lastOffset =>
    intro p hp hunfetched
    obtain ⟨hbefore, hne⟩ := unfetched_concat hunfetched
    show (s.offsets.insert partition (lastOffset + 1)).lookup p = _
    rw [GoMap.lookup_insert_eq, if_neg hne.symm]
    exact h p hp hne.symm hbefore

theorem JoinedInv.step {s t : Consuming} {ev : ConsumerEvent} (h : JoinedInv s)
    (hstep : s.step ev = some t) : JoinedInv t := by
  cases ev with
  | server ev =>
    obtain ⟨server, -, rfl⟩ := Option.map_eq_some_iff.mp hstep
    exact h
  | joinGroup partitions =>
    cases hstep
    intro partition hpartition _
    exact lookup_foldl_insert partitions s.offsets (Or.inl hpartition)
  | commitOffset partition offset err arrives =>
    dsimp only [Consuming.step] at hstep
    split at hstep
    · cases hstep
    split at hstep
    · cases hstep
      exact h
    split at hstep
    · cases hstep
      -- it keeps the offset that it has sent
      intro p hp hunfetched
      show (s.offsets.insert partition offset).lookup p =
        some (ownOffset (s.committed ++ [(partition, offset)]) p)
      rw [GoMap.lookup_insert_eq, ownOffset_concat]
      by_cases heq : p = partition
      · rw [if_pos heq, if_pos heq]
      · rw [if_neg heq, if_neg heq]
        exact h p hp hunfetched
    · cases hstep
      exact h
  | poll partition err last =>
    dsimp only [Consuming.step] at hstep
    split at hstep
    · split at hstep
      · cases hstep
        exact JoinedInv.fetch (fun p hp _ => h p hp) _ last
      · split at hstep
        · cases hstep
        · cases hstep
          -- the offset of this partition is asked for first
          refine JoinedInv.fetch (fun p hp hne hunfetched => ?_) _ last
          show (s.offsets.insert partition _).lookup p = _
          rw [GoMap.lookup_insert_eq, if_neg hne]
          exact h p hp hunfetched
    · cases hstep
  | leaveGroup =>
    cases hstep
    exact h

/-- A consumer that has not joined yet. -/
def start (directory : Bool) (groupID clientID topic : ByteString) : Consuming :=
  { server := { directory }, groupID, clientID, topic }

theorem JoinedInv.start (directory : Bool) (groupID clientID topic : ByteString) :
    JoinedInv (start directory groupID clientID topic) :=
  fun _ hpartition => absurd hpartition List.not_mem_nil

/-- **The first fetch.** In every run the first fetch for a partition since the consumer has
joined is sent with the offset the consumer itself has committed since then, or 0. So it uses
the stored offset iff that is the same. -/
theorem first_fetch_iff {directory : Bool} {groupID clientID topic : ByteString} {s t : Consuming}
    (hrun : Run step (fun _ _ _ => True) (start directory groupID clientID topic) s)
    {partition : Int32} {err : Option String} {last : Option Int64}
    (hfirst : Unfetched s.fetches partition) (hstep : s.step (.poll partition err last) = some t) :
    ∃ offset, t.fetches = s.fetches ++ [(partition, offset)] ∧
      (offset.toInt = s.stored partition ↔
        s.stored partition = (ownOffset s.committed partition).toInt) := by
  have hinv : JoinedInv s := by
    refine hrun.invariant (JoinedInv.start directory groupID clientID topic) ?_
    exact fun _ _ _ h _ hstep => h.step hstep
  dsimp only [step] at hstep
  split at hstep
  · rename_i hassigned
    rw [hinv partition hassigned.2 hfirst] at hstep
    cases hstep
    refine ⟨ownOffset s.committed partition, ?_, eq_comm⟩
    cases last <;> rfl
  · cases hstep

/-- The consumer commits 7 after it has joined; its first fetch uses 7. -/
theorem first_fetch_iff_own :
    ∃ (s t : Consuming) (offset : Int64),
      Run step (fun _ _ _ => True) (start true [103] [97] [116]) s ∧
      s.step (.poll 0 none none) = some t ∧ t.fetches = s.fetches ++ [(0, offset)] ∧
      offset.toInt = s.stored 0 := by
  obtain ⟨s, hrun, t, hstep, hfirst, hown⟩ :
      ∃ s : Consuming, Run step (fun _ _ _ => True) (start true [103] [97] [116]) s ∧
        ∃ t ∈ s.step (.poll 0 none none), Unfetched s.fetches 0 ∧
          s.stored 0 = (ownOffset s.committed 0).toInt :=
    exists_run_of_execWith [.server .start, .joinGroup [0], .commitOffset 0 7 none true]
      (by decide +kernel)
  obtain ⟨offset, hfetch, hiff⟩ := first_fetch_iff hrun hfirst hstep
  exact ⟨s, t, offset, hrun, hstep, hfetch, hiff.mpr hown⟩

/-- Another consumer of the group has committed 7; the first fetch after joining uses 0. -/
theorem first_fetch_from_zero :
    ∃ s : Consuming, Run step (fun _ _ _ => True) (start true [103] [97] [116]) s ∧
      ∃ t ∈ s.step (.poll 0 none none), s.fetches = [] ∧ s.stored 0 = 7 ∧
        t.fetches = [(0, 0)] :=
  exists_run_of_execWith
    [.server .start, .server (.commit ⟨[98], [103], [116], [48], [55]⟩ none), .joinGroup [0]]
    (by decide +kernel)

end Consuming

end DistributedMQ.Client
