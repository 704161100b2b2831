import DistributedMQ.Raft.Election

/-!
# Replication, membership and apply (`raft.go` lines 309–564 and 572–736, 938–980)

`applyCommittedEntries` is run here as one uninterrupted step and the nested
acquisitions of `r.mu` (from `AppendEntries` and `SubmitCommand`) count as
already held; `Raft/ApplyOrder.lean` takes it apart at its critical sections.
-/

namespace DistributedMQ.Raft

variable [GrowthPolicy]

namespace RaftNode

/-- The map `addr ↦ true` over a list of addresses. -/
def configOf (addrs : List String) : GoMap String Bool :=
  addrs.foldl (fun m a => m.insert a true) ∅

/-- A new address of a joint configuration joins as a learner. -/
def addLearner (r : RaftNode) (addr : String) : RaftNode :=
  if (r.peers.lookup addr).isSome ∨ addr = r.selfAddr then r
  else
    { r with
      peers := r.peers.insert addr { addr := addr, learner := true }
      isr := r.isr.insert addr true
      nextIndex := r.nextIndex.insert addr r.log.len
      matchIndex := r.matchIndex.insert addr 0 }

/-- A peer outside the new configuration is dropped. -/
def dropPeer (r : RaftNode) (addr : String) : RaftNode :=
  if r.currentConfig.get addr false then r
  else
    { r with
      peers := r.peers.erase addr
      isr := r.isr.erase addr
      nextIndex := r.nextIndex.erase addr
      matchIndex := r.matchIndex.erase addr }

/-- `applyConfigChangeLocked`; the `appendStableConfig` goroutine a leader
starts in the joint case is an event of its own. -/
def applyConfigChangeLocked (r : RaftNode) (entry : LogEntry) : RaftNode :=
  match entry.type, entry.config with
  | .jointConsensus, some cfg =>
    cfg.newPeers.foldl addLearner
      { r with
        currentConfig := configOf cfg.oldPeers
        newConfig := some (configOf cfg.newPeers)
        configState := .joint }
  | .confChange, some cfg =>
    r.peers.keys.foldl dropPeer
      { r with
        currentConfig := configOf cfg.newPeers
        newConfig := none
        configState := .stable }
  | _, _ => r

/-- The body of the apply loop for the entry at `lastApplied`: configuration
entries change the node, other entries go out on `applyCh`. -/
def applyEntry (r : RaftNode) (entry : LogEntry) : RaftNode :=
  if entry.type = .jointConsensus ∨ entry.type = .confChange then
    r.applyConfigChangeLocked entry
  else { r with applyCh := r.applyCh.map fun sent => sent ++ [entry] }

/-- `k` iterations of the apply loop; false if `r.log[r.lastApplied]` panics. -/
def applyLoop : ℕ → RaftNode → RaftNode × Bool
  | 0, r => (r, true)
  | k + 1, r =>
    match r.log.elems[r.lastApplied + 1]? with
    | none => ({ r with lastApplied := r.lastApplied + 1 }, false)
    | some entry => applyLoop k ({ r with lastApplied := r.lastApplied + 1 }.applyEntry entry)

/-- `applyCommittedEntries`. -/
def applyCommittedEntries (r : RaftNode) : RaftNode × Bool :=
  applyLoop (r.commitIndex - r.lastApplied) r

/-- 1 and one for every peer of the configuration that has acknowledged `n`. -/
def ackCount (r : RaftNode) (inConfig : String → Bool) (n : ℕ) : ℕ :=
  1 + (r.matchIndex.entries.filter fun p => decide (n ≤ p.2) && inConfig p.1).length

/-- The quorum test of `updateCommitIndex`. -/
def commitQuorum (r : RaftNode) (n : ℕ) : Bool :=
  let oldCount := r.ackCount (fun p => r.currentConfig.get p false) n
  let newCount := r.ackCount r.inNewConfig n
  match r.configState with
  | .joint =>
    decide (r.currentConfig.len / 2 + 1 ≤ oldCount) && decide (r.newConfigLen / 2 + 1 ≤ newCount)
  | .stable => decide (r.currentConfig.len / 2 + 1 ≤ oldCount)

/-- `r.commitIndex = n`, and the channel waiting at `n` is closed. -/
def commitTo (r : RaftNode) (n : ℕ) : RaftNode :=
  match r.pendingCommit.lookup n with
  | some ch =>
    { r with
      commitIndex := n
      chansClosed := r.chansClosed ++ [ch]
      pendingCommit := r.pendingCommit.erase n }
  | none => { r with commitIndex := n }

/-- The loop of `updateCommitIndex`; its counter is always `commitIndex + 1`. -/
def commitLoop : ℕ → RaftNode → RaftNode
  | 0, r => r
  | k + 1, r =>
    let n := r.commitIndex + 1
    if n < r.log.len ∧ r.termAt n = r.currentTerm ∧ r.commitQuorum n = true then
      commitLoop k (r.commitTo n)
    else r

/-- `updateCommitIndex`; the apply goroutine it starts is an event of its own. -/
def updateCommitIndex (r : RaftNode) : RaftNode := commitLoop r.log.len r

end RaftNode

/-- The variables of a `sendAppendEntries` goroutine after it has released the
lock. `entries` is a window into the sender's log, read when the request is
marshalled. -/
structure AppendCall where
  /-- Names the call among those of its process. -/
  id : ℕ
  peer : String
  term : ℕ
  leaderId : String
  prevLogIndex : ℕ
  prevLogTerm : ℕ
  entries : GoWindow
  leaderCommit : ℕ
  /-- The request has been marshalled and is on the wire. -/
  sent : Bool := false
deriving DecidableEq

/-- What the first critical section of `sendAppendEntries` leads to. -/
inductive SendOutcome where
  | idle
  | snapshot
  | request (call : AppendCall)
  | panic

namespace RaftNode

/-- `r.nextIndex[peerAddr]`, with 0 read as 1. -/
def nextIdx (r : RaftNode) (peer : String) : ℕ :=
  if r.nextIndex.get peer 0 = 0 then 1 else r.nextIndex.get peer 0

/-- A missing or zero `nextIndex[peerAddr]` is set to 1. -/
def normalizeNext (r : RaftNode) (peer : String) : RaftNode :=
  if r.nextIndex.get peer 0 = 0 then { r with nextIndex := r.nextIndex.insert peer 1 } else r

/-- What a leader sends to a peer. The comparison that chooses a snapshot is on
`uint64`s; the slice expression `r.log[prevLogIndex+1:]` panics behind the end
of the log. -/
def sendOutcome (r : RaftNode) (peer : String) (id : ℕ) : SendOutcome :=
  let next := r.nextIdx peer
  if next < sub64 r.log.len 1000 then .snapshot
  else if r.log.len < next then .panic
  else
    .request
      { id := id
        peer := peer
        term := r.currentTerm
        leaderId := r.selfAddr
        prevLogIndex := next - 1
        prevLogTerm := if next - 1 > 0 then r.termAt (next - 1) else 0
        entries := r.log.view next
        leaderCommit := r.commitIndex }

/-- `sendAppendEntries` up to the point where it releases the lock. -/
def sendAppendEntries (r : RaftNode) (peer : String) (id : ℕ) : RaftNode × SendOutcome :=
  if r.state = .leader then (r.normalizeNext peer, r.sendOutcome peer id) else (r, .idle)

/-- The request a call puts on the wire: the window is read now. -/
def marshal (r : RaftNode) (c : AppendCall) : AppendEntriesArgs where
  term := c.term
  leaderId := c.leaderId
  prevLogIndex := c.prevLogIndex
  prevLogTerm := c.prevLogTerm
  entries := r.log.read c.entries
  leaderCommit := c.leaderCommit

/-- `sendAppendEntries` from the reply on. -/
def handleAppendReply (r : RaftNode) (c : AppendCall) (reply : AppendEntriesReply) : RaftNode :=
  if reply.term > r.currentTerm then r.becomeFollower reply.term
  else if r.state ≠ .leader then r
  else if reply.success then
    updateCommitIndex
      { r with
        nextIndex := r.nextIndex.insert c.peer (c.prevLogIndex + c.entries.len + 1)
        matchIndex := r.matchIndex.insert c.peer (c.prevLogIndex + c.entries.len) }
  else if r.nextIndex.get c.peer 0 > 1 then
    { r with nextIndex := r.nextIndex.insert c.peer (r.nextIndex.get c.peer 0 - 1) }
  else r

/-- `AppendEntries` once the request has passed the consistency check: merge
the entries, follow the leader's commit index, save. -/
def acceptEntries (r : RaftNode) (args : AppendEntriesArgs) : RaftNode :=
  let r := { r with log := r.log.splice LogEntry.term (args.prevLogIndex + 1) args.entries }
  let r :=
    if args.leaderCommit > r.commitIndex then
      -- every index the apply loop reads is below `len(r.log)`
      (applyCommittedEntries { r with commitIndex := min args.leaderCommit (r.log.len - 1) }).1
    else r
  r.saveState

/-- The `AppendEntries` handler. -/
def appendEntries (r : RaftNode) (args : AppendEntriesArgs) : RaftNode × AppendEntriesReply :=
  if args.term < r.currentTerm then
    (r, { term := r.currentTerm, success := false, lastLogIndex := r.lastIndex })
  else
    let last := r.lastIndex
    let r := r.observeTerm args.term
    if args.prevLogIndex ≥ r.log.len then
      (r, { term := r.currentTerm, success := false, conflictIndex := r.log.len,
            lastLogIndex := last })
    else if args.prevLogIndex > 0 ∧ r.termAt args.prevLogIndex ≠ args.prevLogTerm then
      (r, { term := r.currentTerm, success := false, conflictIndex := args.prevLogIndex,
            lastLogIndex := last })
    else
      let r := r.acceptEntries args
      (r, { term := r.currentTerm, success := true, lastLogIndex := r.lastIndex })

/-- Append an entry of the node's own term to its log and save. -/
def appendOwn (r : RaftNode) (entry : LogEntry) : RaftNode :=
  { r with log := r.log.append entry }.saveState

/-- The entry `SubmitCommand` creates. -/
def commandEntry (r : RaftNode) (topic : String) (partition : ℤ) (data : List UInt8) : LogEntry where
  term := r.currentTerm
  index := r.log.len
  topic := topic
  partition := partition
  data := data

/-- `SubmitCommand`: the index of the new entry and its commit channel. -/
def submitCommand (r : RaftNode) (topic : String) (partition : ℤ) (data : List UInt8) :
    RaftNode × Except String (ℕ × ℕ) :=
  if r.state = .leader then
    let index := r.log.len
    let r := r.appendOwn (r.commandEntry topic partition data)
    let ch := r.chansMade
    if r.peers.keys = [] then
      -- the channel handed out is already closed
      let r := (applyCommittedEntries { r with commitIndex := index }).1
      ({ r with chansMade := ch + 1, chansClosed := r.chansClosed ++ [ch] }, .ok (index, ch))
    else
      ({ r with chansMade := ch + 1, pendingCommit := r.pendingCommit.insert index ch },
        .ok (index, ch))
  else (r, .error "not leader")

/-- `checkISR`. -/
def checkISR (r : RaftNode) : RaftNode :=
  if r.state = .leader then
    { r with
      isr := r.peers.keys.foldl
        (fun m p => m.insert p
          (decide (sub64 r.commitIndex (r.matchIndex.get p 0) ≤ r.maxLag))) r.isr }
  else r

/-- The checks of `AddNode`. -/
def addNode (r : RaftNode) (addr : String) : Except String Unit :=
  if r.state ≠ .leader then .error "not leader"
  else if r.currentConfig.get addr false then .error s!"node {addr} already in cluster"
  else if r.configState = .joint then .error "another configuration change is in progress"
  else .ok ()

/-- The checks of `RemoveNode`. -/
def removeNode (r : RaftNode) (addr : String) : Except String Unit :=
  if r.state ≠ .leader then .error "not leader"
  else if r.currentConfig.get addr false = false then .error s!"node {addr} not in cluster"
  else if addr = r.selfAddr ∧ r.currentConfig.len = 1 then .error "cannot remove the only node"
  else if r.configState = .joint then .error "another configuration change is in progress"
  else .ok ()

/-- `changeConfig`, which `AddNode` and `RemoveNode` call with the lock taken
anew. -/
def changeConfig (r : RaftNode) (addr : String) (add : Bool) : RaftNode :=
  let copy := configOf r.currentConfig.keys
  let new := if add then copy.insert addr true else copy.erase addr
  let entry : LogEntry :=
    { term := r.currentTerm
      index := r.log.len
      type := .jointConsensus
      config := some { oldPeers := r.currentConfig.keys, newPeers := new.keys } }
  { r with newConfig := some new, configState := .joint }.appendOwn entry

/-- `appendStableConfig`. -/
def appendStableConfig (r : RaftNode) : RaftNode :=
  if r.state ≠ .leader ∨ r.configState ≠ .joint then r
  else
    r.appendOwn
      { term := r.currentTerm
        index := r.log.len
        type := .confChange
        config := some { oldPeers := [], newPeers := (r.newConfig.map AList.keys).getD [] } }

end RaftNode

end DistributedMQ.Raft
