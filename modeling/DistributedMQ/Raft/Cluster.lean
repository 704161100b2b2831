import DistributedMQ.Lib.Machine
import DistributedMQ.Raft.Process

/-!
# A cluster of Raft processes

The members run side by side and one of them at a time takes an event. The
network keeps every message ever sent and may hand it over at any later moment
any number of times: messages are delayed, lost, duplicated and reordered
freely. A reply is handled at most once, by the goroutine that waits for it.
-/

namespace DistributedMQ.Raft

/-- The member a message is for. -/
def Message.dest : Message → String
  | .voteRequest _ _ peer _ => peer
  | .voteReply caller _ _ _ => caller
  | .appendRequest _ _ peer _ => peer
  | .appendReply caller _ _ => caller
  | .snapshotRequest _ _ peer _ => peer
  | .snapshotReply caller _ _ => caller

/-- The message an event of process `self` takes from the network. -/
def Event.input (self : String) : Event → Option Message
  | .requestVote caller id args => some (.voteRequest caller id self args)
  | .voteReply id peer reply => some (.voteReply self id peer reply)
  | .appendEntries caller id args => some (.appendRequest caller id self args)
  | .appendReply id reply => some (.appendReply self id reply)
  | .installSnapshot caller id args => some (.snapshotRequest caller id self args)
  | .snapshotReply id reply => some (.snapshotReply self id reply)
  | .dieServing request => some request
  | _ => none

/-- The event finds its message on the network. -/
def Event.Delivered (self : String) (net : List Message) (ev : Event) : Prop :=
  ∀ m ∈ ev.input self, m.dest = self ∧ m ∈ net

instance (self : String) (net : List Message) (ev : Event) : Decidable (ev.Delivered self net) :=
  inferInstanceAs (Decidable (∀ m ∈ ev.input self, m.dest = self ∧ m ∈ net))

structure Cluster where
  members : List String
  procs : String → Proc
  net : List Message

namespace Cluster

/-- The node of a member. -/
def node (s : Cluster) (i : String) : RaftNode := (s.procs i).node

/-- Member `i` becomes `p` and puts `out` on the network. -/
def put (s : Cluster) (i : String) (p : Proc) (out : List Message) : Cluster :=
  { s with procs := Function.update s.procs i p, net := s.net ++ out }

section put

variable (s : Cluster) (i : String) (p : Proc) (out : List Message)

@[simp] theorem put_members : (s.put i p out).members = s.members := rfl

@[simp] theorem put_procs_self : (s.put i p out).procs i = p := Function.update_self _ _ _

@[simp] theorem put_node_self : (s.put i p out).node i = p.node :=
  congrArg Proc.node (s.put_procs_self i p out)

theorem put_procs_ne {j : String} (h : j ≠ i) : (s.put i p out).procs j = s.procs j :=
  Function.update_of_ne h _ _

theorem put_node_ne {j : String} (h : j ≠ i) : (s.put i p out).node j = s.node j :=
  congrArg Proc.node (s.put_procs_ne i p out h)

/-- What holds of the new process at `i` and of the old ones elsewhere holds
everywhere. -/
theorem forall_put {P : String → Proc → Prop} (hi : P i p) (hne : ∀ j, j ≠ i → P j (s.procs j)) :
    ∀ j, P j ((s.put i p out).procs j) :=
  (Function.forall_update_iff s.procs P).mpr ⟨hi, hne⟩

end put

variable [GrowthPolicy]

/-- Member `i` takes an event. -/
def step (s : Cluster) (l : String × Event) : Option Cluster :=
  if l.1 ∈ s.members ∧ l.2.Delivered l.1 s.net then
    match (s.procs l.1).step l.2 with
    | some (p, out) => some (s.put l.1 p out)
    | none => none
  else none

/-- A cluster as `NewRaftNode` starts it on given disks: nothing is in flight. -/
def boot (members : List String) (dataDir : String → String) (disk : String → Disk) : Cluster where
  members := members
  procs := fun i => Proc.boot i members (dataDir i) (disk i)
  net := []

/-- The files of a node of `members` that has saved a term, a commit index and a
log behind the sentinel, and no vote. -/
def savedDisk (members : List String) (term commitIndex : ℕ) (entries : List LogEntry) :
    Disk where
  stateFile := some
    { currentTerm := term
      votedFor := ""
      commitIndex := commitIndex
      lastApplied := commitIndex
      logLength := entries.length + 1
      configState := .stable
      currentConfig := RaftNode.configOf members
      newConfig := none
      persistedIndex := entries.length }
  logFile := some ⟨entries⟩

/-- What a step does: the member it picks takes the event, the others stay. -/
theorem step_inv {s s' : Cluster} {i : String} {ev : Event} (h : s.step (i, ev) = some s') :
    i ∈ s.members ∧ ev.Delivered i s.net ∧
      ∃ p out, (s.procs i).step ev = some (p, out) ∧ s' = s.put i p out := by
  unfold step at h
  by_cases hg : i ∈ s.members ∧ ev.Delivered i s.net
  · rw [if_pos hg] at h
    cases hp : (s.procs i).step ev with
    | none => simp [hp] at h
    | some res =>
      obtain ⟨p, out⟩ := res
      simp only [hp, Option.some.injEq] at h
      exact ⟨hg.1, hg.2, p, out, rfl, h.symm⟩
  · rw [if_neg hg] at h
    cases h

theorem step_eq {s : Cluster} {i : String} {ev : Event} {p : Proc} {out : List Message}
    (hi : i ∈ s.members) (hdel : ev.Delivered i s.net) (hp : (s.procs i).step ev = some (p, out)) :
    s.step (i, ev) = some (s.put i p out) := by
  unfold step
  rw [if_pos ⟨hi, hdel⟩]
  simp only [hp]

end Cluster

end DistributedMQ.Raft
