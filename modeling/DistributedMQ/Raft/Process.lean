import DistributedMQ.Raft.Snapshot

/-!
# A Raft process: the node and its goroutines

A `Proc` is a `RaftNode` together with the goroutines that wait for a reply. An
`Event` is one critical section of `r.mu`: a timer that fires, an RPC that
arrives, a reply that is handled, a client call. `Proc.step` runs it and
returns the messages it puts on the wire.

Goroutines that only wait for the lock are not kept: a heartbeat, an apply loop
or an ISR check may run at any moment, which covers every schedule of those the
source starts. A step that panics kills the process; a killed process can only
be restarted from its disk. A process may also be stopped and restarted between
two critical sections (`restart`) or inside an RPC handler, after
`becomeFollower` has saved the new term (`dieServing`).
-/

namespace DistributedMQ.Raft

variable [GrowthPolicy]

/-- What travels between processes. A call is named by its caller and a number,
and its reply finds the goroutine by that name. -/
inductive Message where
  | voteRequest (caller : String) (id : ℕ) (peer : String) (args : RequestVoteArgs)
  | voteReply (caller : String) (id : ℕ) (peer : String) (reply : RequestVoteReply)
  | appendRequest (caller : String) (id : ℕ) (peer : String) (args : AppendEntriesArgs)
  | appendReply (caller : String) (id : ℕ) (reply : AppendEntriesReply)
  | snapshotRequest (caller : String) (id : ℕ) (peer : String) (args : InstallSnapshotArgs)
  | snapshotReply (caller : String) (id : ℕ) (reply : InstallSnapshotReply)
deriving DecidableEq

inductive Event where
  /-- `run`: the election timer fires. -/
  | electionTimeout
  /-- The goroutine behind `wg.Wait` of an election. -/
  | electionOver (id : ℕ)
  /-- `RequestVote` is served. -/
  | requestVote (caller : String) (id : ℕ) (args : RequestVoteArgs)
  /-- `requestVote` to a peer returns an error. -/
  | voteFailed (id : ℕ) (peer : String)
  /-- A vote goroutine handles its reply. -/
  | voteReply (id : ℕ) (peer : String) (reply : RequestVoteReply)
  /-- `sendAppendEntries` until it releases the lock. -/
  | sendAppendEntries (peer : String)
  /-- The request of a call is marshalled. -/
  | marshal (id : ℕ)
  /-- `AppendEntries` is served. -/
  | appendEntries (caller : String) (id : ℕ) (args : AppendEntriesArgs)
  /-- `appendEntries` to a peer returns an error. -/
  | appendFailed (id : ℕ)
  /-- `sendAppendEntries` handles its reply. -/
  | appendReply (id : ℕ) (reply : AppendEntriesReply)
  /-- `sendSnapshot` until it releases the lock. -/
  | sendSnapshot (peer : String)
  /-- `InstallSnapshot` is served. -/
  | installSnapshot (caller : String) (id : ℕ) (args : InstallSnapshotArgs)
  /-- `installSnapshot` to a peer returns an error. -/
  | snapshotFailed (id : ℕ)
  /-- `sendSnapshot` handles its reply. -/
  | snapshotReply (id : ℕ) (reply : InstallSnapshotReply)
  /-- `SubmitCommand`. -/
  | submitCommand (topic : String) (partition : ℤ) (data : List UInt8)
  /-- An `applyCommittedEntries` goroutine runs. -/
  | applyCommittedEntries
  /-- The ISR ticker fires. -/
  | checkISR
  /-- `AddNode` passes its checks. -/
  | addNode (addr : String)
  /-- `RemoveNode` passes its checks. -/
  | removeNode (addr : String)
  /-- A configuration change that has passed its checks runs `changeConfig`. -/
  | changeConfig (addr : String) (add : Bool)
  /-- The `appendStableConfig` goroutine runs. -/
  | appendStableConfig
  /-- The process stops and `NewRaftNode` starts it again on its `dataDir`. -/
  | restart
  /-- The same, in the middle of serving a request with a newer term. -/
  | dieServing (request : Message)

/-- The term of a request. -/
def Message.requestTerm : Message → Option ℕ
  | .voteRequest _ _ _ args => some args.term
  | .appendRequest _ _ _ args => some args.term
  | .snapshotRequest _ _ _ args => some args.term
  | _ => none

structure Proc where
  node : RaftNode
  /-- The `peers` argument of `NewRaftNode`. -/
  peerList : List String
  alive : Bool
  elections : List Election
  appends : List AppendCall
  snapshots : List SnapshotCall
  /-- The peers a `sendSnapshot` goroutine has been started for. -/
  snapshotsDue : List String
  /-- `AddNode` (true) and `RemoveNode` calls between check and change. -/
  changes : List (String × Bool)
  /-- The next name of a closure or call; never reused. -/
  nextId : ℕ

namespace Proc

/-- A process as `NewRaftNode` starts it. -/
def boot (selfAddr : String) (peerList : List String) (dataDir : String) (disk : Disk) : Proc where
  node := newRaftNode selfAddr peerList dataDir disk
  peerList := peerList
  alive := true
  elections := []
  appends := []
  snapshots := []
  snapshotsDue := []
  changes := []
  nextId := 0

/-- Run `startElection` and start the vote goroutines. -/
def startElection (p : Proc) : Proc × List Message :=
  match p.node.startElection p.nextId with
  | (r, none) => ({ p with node := r, nextId := p.nextId + 1 }, [])
  | (r, some e) =>
    ({ p with node := r, elections := p.elections ++ [e], nextId := p.nextId + 1 },
      e.waiting.map fun peer => .voteRequest r.selfAddr e.id peer e.args)

/-- Replace an election by its state after a reply. -/
def setElection (es : List Election) (e : Election) : List Election :=
  es.map fun e' => if e'.id = e.id then e else e'

def onVoteReply (p : Proc) (e : Election) (peer : String) (reply : RequestVoteReply) : Proc :=
  let res := p.node.handleVoteReply e peer reply
  { p with node := res.1, elections := setElection p.elections res.2 }

def onSendAppendEntries (p : Proc) (peer : String) : Proc :=
  match p.node.sendAppendEntries peer p.nextId with
  | (r, .request c) =>
    { p with node := r, appends := p.appends ++ [c], nextId := p.nextId + 1 }
  | (r, .snapshot) => { p with node := r, snapshotsDue := peer :: p.snapshotsDue }
  | (r, .panic) => { p with node := r, alive := false }
  | (r, .idle) => { p with node := r }

/-- Mark a call as marshalled. -/
def markSent (cs : List AppendCall) (id : ℕ) : List AppendCall :=
  cs.map fun c => if c.id = id then { c with sent := true } else c

/-- Remember a snapshot call that is on the wire. -/
def startSnapshot (p : Proc) (peer : String) : Proc :=
  { p with
    snapshots := p.snapshots ++ [{ id := p.nextId, peer := peer, lastIndex := p.node.lastIndex }]
    nextId := p.nextId + 1 }

/-- A new process on the same disk: the goroutines are gone. -/
def restart (p : Proc) : Proc :=
  { boot p.node.selfAddr p.peerList p.node.dataDir p.node.disk with nextId := p.nextId }

/-- One critical section of a live process. -/
def stepAlive (p : Proc) : Event → Option (Proc × List Message)
  | .electionTimeout =>
    if p.node.state = .leader then some (p, []) else some p.startElection
  | .electionOver id =>
    match p.elections.find? fun e => e.id = id with
    | some e =>
      if e.waiting = [] then
        let p := { p with elections := p.elections.filter fun e' => e'.id ≠ id }
        if p.node.state = .candidate ∧ p.node.currentTerm = e.term then some p.startElection
        else some (p, [])
      else none
    | none => none
  | .requestVote caller id args =>
    let res := p.node.requestVote args
    some ({ p with node := res.1 }, [.voteReply caller id p.node.selfAddr res.2])
  | .voteFailed id peer =>
    some (p, [.voteReply p.node.selfAddr id peer
      { term := p.node.currentTerm, voteGranted := false }])
  | .voteReply id peer reply =>
    match p.elections.find? fun e => e.id = id with
    | some e => if peer ∈ e.waiting then some (p.onVoteReply e peer reply, []) else none
    | none => none
  | .sendAppendEntries peer =>
    if peer ∈ p.node.peers.keys then some (p.onSendAppendEntries peer, []) else none
  | .marshal id =>
    match p.appends.find? fun c => c.id = id with
    | some c =>
      if c.sent then none
      else
        some ({ p with appends := markSent p.appends id },
          [.appendRequest p.node.selfAddr id c.peer (p.node.marshal c)])
    | none => none
  | .appendEntries caller id args =>
    let res := p.node.appendEntries args
    some ({ p with node := res.1 }, [.appendReply caller id res.2])
  | .appendFailed id =>
    some (p, [.appendReply p.node.selfAddr id { term := p.node.currentTerm, success := false }])
  | .appendReply id reply =>
    match p.appends.find? fun c => c.id = id with
    | some c =>
      some ({ p with
        node := p.node.handleAppendReply c reply
        appends := p.appends.filter fun c' => c'.id ≠ id }, [])
    | none => none
  | .sendSnapshot peer =>
    if peer ∈ p.snapshotsDue then
      let p := { p with snapshotsDue := p.snapshotsDue.erase peer }
      match p.node.sendSnapshot with
      | some args =>
        some (p.startSnapshot peer, [.snapshotRequest p.node.selfAddr p.nextId peer args])
      | none => some (p, [])
    else none
  | .installSnapshot caller id args =>
    let res := p.node.installSnapshot args
    some ({ p with node := res.1 }, [.snapshotReply caller id res.2])
  | .snapshotFailed id =>
    some (p, [.snapshotReply p.node.selfAddr id { term := p.node.currentTerm, success := false }])
  | .snapshotReply id reply =>
    match p.snapshots.find? fun c => c.id = id with
    | some c =>
      some ({ p with
        node := p.node.handleSnapshotReply c reply
        snapshots := p.snapshots.filter fun c' => c'.id ≠ id }, [])
    | none => none
  | .submitCommand topic partition data =>
    some ({ p with node := (p.node.submitCommand topic partition data).1 }, [])
  | .applyCommittedEntries =>
    let res := p.node.applyCommittedEntries
    some ({ p with node := res.1, alive := res.2 }, [])
  | .checkISR => some ({ p with node := p.node.checkISR }, [])
  | .addNode addr =>
    match p.node.addNode addr with
    | .ok _ => some ({ p with changes := p.changes ++ [(addr, true)] }, [])
    | .error _ => none
  | .removeNode addr =>
    match p.node.removeNode addr with
    | .ok _ => some ({ p with changes := p.changes ++ [(addr, false)] }, [])
    | .error _ => none
  | .changeConfig addr add =>
    if (addr, add) ∈ p.changes then
      some ({ p with node := p.node.changeConfig addr add,
                     changes := p.changes.erase (addr, add) }, [])
    else none
  | .appendStableConfig => some ({ p with node := p.node.appendStableConfig }, [])
  | .restart => some (p.restart, [])
  | .dieServing request =>
    match request.requestTerm with
    | some term => some ({ p with node := p.node.observeTerm term }.restart, [])
    | none => none

/-- One step of a process, with the messages it sends. -/
def step (p : Proc) (ev : Event) : Option (Proc × List Message) :=
  if p.alive then p.stepAlive ev
  else
    match ev with
    | .restart => some (p.restart, [])
    | _ => none

end Proc

end DistributedMQ.Raft
