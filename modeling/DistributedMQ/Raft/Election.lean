import DistributedMQ.Raft.Persist

/-!
# Elections (`raft.go` lines 183–290, 347–358, 516–527 and 915–936)

`startElection` leaves behind one goroutine per voting peer and the variables
they share; an `Election` is that closure. The goroutines work on it under the
node's lock, one reply at a time (`handleVoteReply`).
-/

namespace DistributedMQ.Raft

variable [GrowthPolicy]

/-- The variables captured by the vote goroutines of one `startElection`. -/
structure Election where
  /-- Names the closure among those of its process. -/
  id : ℕ
  term : ℕ
  args : RequestVoteArgs
  votes : ℕ
  oldConfigVotes : ℕ
  newConfigVotes : ℕ
  configState : ConfigState
  oldConfigCount : ℕ
  newConfigCount : ℕ
  nonLearnerPeers : List String
  /-- The peers whose goroutine has not called `wg.Done` yet. -/
  waiting : List String
deriving DecidableEq, Repr

namespace RaftNode

/-- Close every waiting commit channel and forget it. -/
def closePending (r : RaftNode) : RaftNode :=
  { r with
    chansClosed := r.chansClosed ++ GoMap.values r.pendingCommit
    pendingCommit := ∅ }

/-- `becomeLeader`; the heartbeats it starts are `sendAppendEntries` calls. -/
def becomeLeader (r : RaftNode) : RaftNode :=
  closePending
    { r with
      state := .leader
      nextIndex := r.peers.keys.foldl (fun m p => m.insert p r.log.len) r.nextIndex
      matchIndex := r.peers.keys.foldl (fun m p => m.insert p 0) r.matchIndex
      isr := r.peers.keys.foldl (fun m p => m.insert p true) r.isr }

def becomeFollower (r : RaftNode) (term : ℕ) : RaftNode :=
  saveState (closePending { r with state := .follower, currentTerm := term, votedFor := "" })

/-- The guard every RPC handler starts with: `if args.Term > r.currentTerm`. -/
def observeTerm (r : RaftNode) (term : ℕ) : RaftNode :=
  if term > r.currentTerm then r.becomeFollower term else r

/-- The peers that take part in a vote. -/
def nonLearnerPeers (r : RaftNode) : List String :=
  (r.peers.entries.filter fun p => !p.2.learner).map fun p => p.1

/-- The node as `startElection` first sets it. -/
def campaign (r : RaftNode) : RaftNode :=
  { r with
    state := .candidate
    currentTerm := inc64 r.currentTerm
    votedFor := r.selfAddr }

/-- The closure of an election, from the campaigning node. -/
def newElection (r : RaftNode) (id : ℕ) : Election where
  id := id
  term := r.currentTerm
  args :=
    { term := r.currentTerm
      candidateId := r.selfAddr
      lastLogIndex := r.lastIndex
      lastLogTerm := r.termAt r.lastIndex }
  votes := 1
  oldConfigVotes := 1
  newConfigVotes := 0
  configState := r.configState
  oldConfigCount := r.currentConfig.len
  newConfigCount := r.newConfigLen
  nonLearnerPeers := r.nonLearnerPeers
  waiting := r.nonLearnerPeers

/-- `startElection`: without peers the node leads at once, otherwise it leaves
an election behind. -/
def startElection (r : RaftNode) (id : ℕ) : RaftNode × Option Election :=
  if r.peers.keys = [] then (r.campaign.becomeLeader.saveState, none)
  else (r.campaign.saveState, some (r.campaign.newElection id))

end RaftNode

/-- Count the vote of `peer`, as the goroutine does in the configuration the
node has now. -/
def Election.count (e : Election) (r : RaftNode) (peer : String) : Election :=
  { e with
    votes := e.votes + 1
    oldConfigVotes :=
      if e.configState = .joint ∧ r.currentConfig.get peer false then e.oldConfigVotes + 1
      else e.oldConfigVotes
    newConfigVotes :=
      if e.configState = .joint ∧ r.inNewConfig peer then e.newConfigVotes + 1
      else e.newConfigVotes }

/-- The tally has reached the quorum of its configuration. -/
def Election.won (e : Election) : Bool :=
  match e.configState with
  | .joint =>
    decide (e.oldConfigCount / 2 + 1 ≤ e.oldConfigVotes) &&
      decide (e.newConfigCount / 2 + 1 ≤ e.newConfigVotes)
  | .stable => decide (e.votes > (e.nonLearnerPeers.length + 1) / 2)

namespace RaftNode

/-- A vote goroutine with the reply of `peer` in hand. -/
def handleVoteReply (r : RaftNode) (e : Election) (peer : String)
    (reply : RequestVoteReply) : RaftNode × Election :=
  let done := { e with waiting := e.waiting.erase peer }
  if reply.term > r.currentTerm then (r.becomeFollower reply.term, done)
  else if r.state = .candidate ∧ r.currentTerm = e.term ∧ reply.voteGranted = true then
    let counted := done.count r peer
    if counted.won then (r.becomeLeader, counted) else (r, counted)
  else (r, done)

/-- `isLogUpToDate`: true if the node's *own* log is strictly ahead of the
candidate's. -/
def isLogUpToDate (r : RaftNode) (lastLogIndex lastLogTerm : ℕ) : Bool :=
  let lastTerm := r.termAt r.lastIndex
  if lastTerm > lastLogTerm then true
  else if lastTerm = lastLogTerm ∧ r.lastIndex > lastLogIndex then true
  else false

/-- The condition under which `RequestVote` grants its vote, after the terms
have been compared. -/
def grants (r : RaftNode) (args : RequestVoteArgs) : Bool :=
  (r.votedFor == "" || r.votedFor == args.candidateId) &&
    r.isLogUpToDate args.lastLogIndex args.lastLogTerm

/-- The `RequestVote` handler. -/
def requestVote (r : RaftNode) (args : RequestVoteArgs) : RaftNode × RequestVoteReply :=
  if args.term < r.currentTerm then (r, { term := r.currentTerm, voteGranted := false })
  else
    let r := r.observeTerm args.term
    if r.grants args then
      ({ r with votedFor := args.candidateId }.saveState,
        { term := r.currentTerm, voteGranted := true })
    else (r, { term := r.currentTerm, voteGranted := false })

end RaftNode

end DistributedMQ.Raft
