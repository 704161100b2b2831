import DistributedMQ.Raft.Replication

/-!
# Snapshots (`raft.go` lines 1047–1148)

The leader sends its whole log, sentinel included; the follower decodes it
behind the sentinel it keeps. `createSnapshot`'s read lock counts as already
held by `sendSnapshot`.
-/

namespace DistributedMQ.Raft

variable [GrowthPolicy]

/-- The variables of a `sendSnapshot` goroutine after it has released the lock. -/
structure SnapshotCall where
  /-- Names the call among those of its process. -/
  id : ℕ
  peer : String
  lastIndex : ℕ
deriving DecidableEq

namespace RaftNode

/-- `createSnapshot`: the log from index 0 on. -/
def createSnapshot (r : RaftNode) : GobBytes := ⟨r.log.elems⟩

/-- The request of `sendSnapshot`, sent by a leader only. -/
def sendSnapshot (r : RaftNode) : Option InstallSnapshotArgs :=
  if r.state = .leader then
    some
      { term := r.currentTerm
        leaderId := r.selfAddr
        lastIncludedIndex := r.lastIndex
        lastIncludedTerm := r.termAt r.lastIndex
        data := r.createSnapshot }
  else none

/-- `InstallSnapshot` once the request is newer than the commit index. -/
def acceptSnapshot (r : RaftNode) (args : InstallSnapshotArgs) : RaftNode :=
  saveState
    { r with
      log := (r.log.trunc 1).appendAll args.data.values
      lastApplied := args.lastIncludedIndex
      commitIndex := args.lastIncludedIndex
      persistedIndex := args.lastIncludedIndex }

/-- The `InstallSnapshot` handler. -/
def installSnapshot (r : RaftNode) (args : InstallSnapshotArgs) :
    RaftNode × InstallSnapshotReply :=
  if args.term < r.currentTerm then (r, { term := r.currentTerm, success := false })
  else
    let r := r.observeTerm args.term
    if args.lastIncludedIndex ≤ r.commitIndex then
      (r, { term := r.currentTerm, success := true })
    else
      let r := r.acceptSnapshot args
      (r, { term := r.currentTerm, success := true })

/-- `sendSnapshot` from the reply on. -/
def handleSnapshotReply (r : RaftNode) (c : SnapshotCall) (reply : InstallSnapshotReply) :
    RaftNode :=
  if reply.term > r.currentTerm then r.becomeFollower reply.term
  else if reply.success then
    { r with
      nextIndex := r.nextIndex.insert c.peer (c.lastIndex + 1)
      matchIndex := r.matchIndex.insert c.peer c.lastIndex }
  else r

end RaftNode

end DistributedMQ.Raft
