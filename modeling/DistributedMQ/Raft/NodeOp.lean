import DistributedMQ.Raft.Static

/-!
# The operation behind an event

`NodeOp p ev r`: the event `ev` turns the node of `p` into `r` by one operation
of the node, or leaves it alone. Invariants of a single node are proved by cases
on it, so that the goroutines, the messages and the lookups of a call stay out
of their proofs.
-/

namespace DistributedMQ.Raft

open RaftNode

variable [GrowthPolicy]

inductive NodeOp (p : Proc) : Event → RaftNode → Prop where
  | same (ev : Event) : NodeOp p ev p.node
  | startElection (ev : Event) (hlead : p.node.state ≠ .leader) (id : ℕ) :
      NodeOp p ev (p.node.startElection id).1
  | requestVote (caller : String) (id : ℕ) (args : RequestVoteArgs) :
      NodeOp p (.requestVote caller id args) (p.node.requestVote args).1
  | voteReply (id : ℕ) (peer : String) (reply : RequestVoteReply) (e : Election)
      (he : e ∈ p.elections) :
      NodeOp p (.voteReply id peer reply) (p.node.handleVoteReply e peer reply).1
  | sendAppendEntries (peer : String) (hlead : p.node.state = .leader) :
      NodeOp p (.sendAppendEntries peer) (p.node.normalizeNext peer)
  | appendEntries (caller : String) (id : ℕ) (args : AppendEntriesArgs) :
      NodeOp p (.appendEntries caller id args) (p.node.appendEntries args).1
  | appendReply (id : ℕ) (reply : AppendEntriesReply) (c : AppendCall) (hc : c ∈ p.appends)
      (hid : c.id = id) : NodeOp p (.appendReply id reply) (p.node.handleAppendReply c reply)
  | installSnapshot (caller : String) (id : ℕ) (args : InstallSnapshotArgs) :
      NodeOp p (.installSnapshot caller id args) (p.node.installSnapshot args).1
  | snapshotReply (id : ℕ) (reply : InstallSnapshotReply) (c : SnapshotCall)
      (hc : c ∈ p.snapshots) :
      NodeOp p (.snapshotReply id reply) (p.node.handleSnapshotReply c reply)
  | submitCommand (topic : String) (partition : ℤ) (data : List UInt8) :
      NodeOp p (.submitCommand topic partition data)
        (p.node.submitCommand topic partition data).1
  | applyCommittedEntries : NodeOp p .applyCommittedEntries p.node.applyCommittedEntries.1
  | checkISR : NodeOp p .checkISR p.node.checkISR
  | changeConfig (addr : String) (add : Bool) :
      NodeOp p (.changeConfig addr add) (p.node.changeConfig addr add)
  | appendStableConfig : NodeOp p .appendStableConfig p.node.appendStableConfig
  /-- The process is restarted, possibly after it has stepped down. -/
  | restart (ev : Event) (hev : ev.Restarts) (r : RaftNode)
      (hr : r = p.node ∨ ev ≠ .restart ∧ ∃ term, r = p.node.observeTerm term) :
      NodeOp p ev (newRaftNode r.selfAddr p.peerList r.dataDir r.disk)

namespace Proc

omit [GrowthPolicy] in
theorem startElection_node (p : Proc) :
    p.startElection.1.node = (p.node.startElection p.nextId).1 := by
  unfold startElection
  split
  · rename_i r heq
    rw [heq]
  · rename_i r e heq
    rw [heq]

theorem onSendAppendEntries_nodeOp (p : Proc) (peer : String) :
    NodeOp p (.sendAppendEntries peer) (p.onSendAppendEntries peer).node := by
  unfold onSendAppendEntries RaftNode.sendAppendEntries
  by_cases hlead : p.node.state = .leader
  · rw [if_pos hlead]
    cases p.node.sendOutcome peer p.nextId with
    | idle => exact .sendAppendEntries peer hlead
    | snapshot => exact .sendAppendEntries peer hlead
    | request c => exact .sendAppendEntries peer hlead
    | panic => exact .sendAppendEntries peer hlead
  · rw [if_neg hlead]
    exact .same _

/-- Every event is one operation of the node, or none. -/
theorem step_nodeOp {p p' : Proc} {ev : Event} {out : List Message}
    (h : p.step ev = some (p', out)) : NodeOp p ev p'.node := by
  cases step_cases h with
  | electionTimeout hlead =>
    rw [startElection_node]
    exact .startElection _ hlead _
  | electionRetry id e hfind hdone hcand =>
    rw [startElection_node]
    refine .startElection _ ?_ _
    rw [hcand.1]
    decide
  | requestVote caller id args => exact .requestVote caller id args
  | voteReply id peer reply e hfind hpeer =>
    exact .voteReply id peer reply e (List.mem_of_find?_eq_some hfind)
  | sendAppendEntries peer hpeer => exact p.onSendAppendEntries_nodeOp peer
  | appendEntries caller id args => exact .appendEntries caller id args
  | appendReply id reply c hfind =>
    exact .appendReply id reply c (List.mem_of_find?_eq_some hfind)
      (by simpa using List.find?_some hfind)
  | installSnapshot caller id args => exact .installSnapshot caller id args
  | snapshotReply id reply c hfind =>
    exact .snapshotReply id reply c (List.mem_of_find?_eq_some hfind)
  | submitCommand topic partition data => exact .submitCommand topic partition data
  | applyCommittedEntries => exact .applyCommittedEntries
  | checkISR => exact .checkISR
  | changeConfig addr add hmem => exact .changeConfig addr add
  | appendStableConfig => exact .appendStableConfig
  | restart => exact .restart .restart trivial p.node (Or.inl rfl)
  | dieServing request term hterm =>
    exact .restart (.dieServing request) trivial _ (Or.inr ⟨nofun, term, rfl⟩)
  -- the other events leave the node alone
  | _ => exact .same _

/-- A process on its own: any event may come, the messages go nowhere. -/
def next (p : Proc) (ev : Event) : Option Proc := (p.step ev).map Prod.fst

/-- What a step of a process on its own can do, whatever it sends. -/
theorem next_cases {p p' : Proc} {ev : Event} (h : p.next ev = some p') :
    ∃ out, Case p ev p' out := by
  obtain ⟨⟨q, out⟩, hstep, rfl⟩ := Option.map_eq_some_iff.mp h
  exact ⟨out, step_cases hstep⟩

theorem next_nodeOp {p p' : Proc} {ev : Event} (h : p.next ev = some p') :
    NodeOp p ev p'.node := by
  obtain ⟨⟨q, out⟩, hstep, rfl⟩ := Option.map_eq_some_iff.mp h
  exact step_nodeOp hstep

/-- Handling a reply is the work of the call it answers. -/
theorem step_appendReply {p p' : Proc} {id : ℕ} {reply : AppendEntriesReply} {out : List Message}
    (h : p.step (.appendReply id reply) = some (p', out)) :
    ∃ c ∈ p.appends, c.id = id ∧ p'.node = p.node.handleAppendReply c reply := by
  cases step_cases h with
  | appendReply _ _ c hfind =>
    exact ⟨c, List.mem_of_find?_eq_some hfind, by simpa using List.find?_some hfind, rfl⟩

end Proc

end DistributedMQ.Raft
