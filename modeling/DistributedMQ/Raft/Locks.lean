import DistributedMQ.Lib.LockProgram
import DistributedMQ.Raft.NodeOp
import DistributedMQ.Raft.Cluster

/-!
# The lock of a node (every use of `r.mu` in `raft.go`)

`r.mu` is a Go `sync.RWMutex`, which is not reentrant. Each function that takes
it is written here as a `LockProgram`, statement by statement where the lock is
concerned; a stretch of code between two lock operations is one operation of the
node from the other modules. A `go` statement starts a thread of its own, and
since any operation may be started at any moment, it is left out.

Four places break the discipline:

- `SubmitCommand` on a leader without peers calls `applyCommittedEntries`, which
  takes the lock, with the lock held;
- so does `AppendEntries` when the leader's commit index is ahead;
- `sendSnapshot` calls `createSnapshot`, which takes the read lock, with the lock
  held;
- `applyCommittedEntries` returns on `stopCh` between its unlock and its lock, and
  its deferred unlock finds the lock released.

`lock_discipline` says that there is no fifth one.
-/

namespace DistributedMQ.Raft

open LockProgram Machine

/-- What the goroutines of a node share. -/
structure Shared where
  proc : Proc
  /-- The addresses with an open connection. -/
  clientConnPool : List String

/-- The case a `select` takes. -/
inductive SelectCase where
  | stopCh
  | electionTimer
  | heartbeatTimer
  | applyCh
deriving DecidableEq

/-- An answer from outside; a program reads the part it waits for. -/
structure Answer where
  select : SelectCase := .applyCh
  /-- `grpc.Dial` has succeeded. -/
  dialed : Bool := true
  voteReply : RequestVoteReply := { term := 0, voteGranted := false }
  appendReply : AppendEntriesReply := { term := 0, success := false }
  snapshotReply : InstallSnapshotReply := { term := 0, success := false }

/-- The branches and waits of the programs. -/
inductive Site where
  /-- The `select` of `run`. -/
  | runSelect
  /-- The `select` of `applyCommittedEntries`. -/
  | applySelect
  /-- A reply or a connection. -/
  | network
  /-- `len(r.peers) == 0` in `SubmitCommand`. -/
  | submitPeers
  /-- `args.LeaderCommit > r.commitIndex` in `AppendEntries`. -/
  | followerCommit (leaderCommit : ℕ)
  /-- `r.state != Leader` in `sendSnapshot`. -/
  | snapshotLeader
  /-- Any other branch on the node. -/
  | branch
deriving DecidableEq

namespace Locks

variable [GrowthPolicy]

abbrev Program : Type := Prog Shared Answer Site

/-- An operation of the node. -/
def node (f : RaftNode → RaftNode) : Program :=
  .act fun s => { s with proc := { s.proc with node := f s.proc.node } }

/-- A critical section that also concerns the shared variables of an election. -/
def event (ev : Event) : Program :=
  .act fun s => { s with proc := (s.proc.next ev).getD s.proc }

/-- A branch on the node. -/
def onNode (site : Site) (k : RaftNode → Program) : Program := .get site fun s => k s.proc.node

/-- A body that starts with `r.mu.Lock(); defer r.mu.Unlock()`. -/
def locked (body : Program) : Program := .call (.seq .lock body) .unlock

/-- A body that starts with `r.mu.RLock(); defer r.mu.RUnlock()`. -/
def rlocked (body : Program) : Program := .call (.seq .rlock body) .runlock

/-- A function without a deferred part. -/
def plain (body : List Program) : Program := .call (.block body) .skip

def run : Program :=
  plain
    [.loop (fun _ => true) (.input .runSelect fun a =>
      match a.select with
      | .stopCh => .ret
      | .electionTimer =>
        .block [.lock, onNode .branch fun r =>
          if r.state = .leader then .unlock else .block [event .electionTimeout, .unlock]]
      | .heartbeatTimer => .block [.lock, .unlock]
      | .applyCh => .skip)]

def getQuorumSize : Program := rlocked .skip

def getISRSize : Program := rlocked .skip

def getConfigSize : Program := rlocked .skip

def getState : Program := locked .skip

def getClient (peerAddr : String) : Program :=
  plain
    [.lock, .get .branch fun s =>
      if peerAddr ∈ s.clientConnPool then .block [.unlock, .ret]
      else
        .block [.unlock, .input .network fun a =>
          if a.dialed then
            .block [.lock, .get .branch fun s =>
              if peerAddr ∈ s.clientConnPool then .block [.unlock, .ret]
              else
                .block [.act fun s => { s with clientConnPool := peerAddr :: s.clientConnPool },
                  .unlock]]
          else .ret]]

/-- A vote goroutine of `startElection`. -/
def voteGoroutine (id : ℕ) (peerAddr : String) : Program :=
  plain
    [getClient peerAddr, .input .network fun a =>
      .block [.lock, onNode .branch fun r =>
        if a.voteReply.term > r.currentTerm then
          .block [event (.voteReply id peerAddr a.voteReply), .unlock, .ret]
        else .block [event (.voteReply id peerAddr a.voteReply), .unlock]]]

/-- The goroutine of `startElection` behind `wg.Wait`. -/
def electionGoroutine (id : ℕ) : Program := plain [.lock, event (.electionOver id), .unlock]

def checkISR : Program :=
  locked (onNode .branch fun r => if r.state ≠ .leader then .ret else node RaftNode.checkISR)

/-- A panic of the slice expression ends the process and with it the thread. -/
def sendAppendEntries (peerAddr : String) : Program :=
  plain
    [.lock, onNode .branch fun r =>
      if r.state ≠ .leader then .block [.unlock, .ret]
      else
        .seq (node fun r => r.normalizeNext peerAddr) <|
          match r.sendOutcome peerAddr 0 with
          | .request c =>
            .block [.unlock, getClient peerAddr, .input .network fun a =>
              locked (node fun r => r.handleAppendReply c a.appendReply)]
          | .snapshot => .block [.unlock, .ret]
          | .panic | .idle => .ret]

/-- `applyCommittedEntries`; a read behind the end of the log panics. -/
def applyCommittedEntries : Program :=
  locked <| .loop (fun s => decide (s.proc.node.lastApplied < s.proc.node.commitIndex)) <|
    onNode .branch fun r =>
      .seq (node fun r => { r with lastApplied := r.lastApplied + 1 }) <|
        match r.log.elems[r.lastApplied + 1]? with
        | none => .ret
        | some entry =>
          if entry.type = .jointConsensus ∨ entry.type = .confChange then
            node fun r => r.applyConfigChangeLocked entry
          else if r.applyCh.isSome then
            .block [.unlock, .input .applySelect fun a =>
              if a.select = .stopCh then .ret
              else node fun r => { r with applyCh := r.applyCh.map fun sent => sent ++ [entry] },
              .lock]
          else .skip

def submitCommand (topic : String) (partition : ℤ) (data : List UInt8) : Program :=
  plain
    [.lock, onNode .branch fun r =>
      if r.state ≠ .leader then .block [.unlock, .ret]
      else
        .block [node fun r => r.appendOwn (r.commandEntry topic partition data),
          onNode .submitPeers fun r' =>
            if r'.peers.keys = [] then
              .block [node fun r' => { r' with commitIndex := r.log.len },
                applyCommittedEntries, .unlock,
                node fun r' =>
                  { r' with
                    chansMade := r'.chansMade + 1
                    chansClosed := r'.chansClosed ++ [r'.chansMade] },
                .ret]
            else
              .block [node fun r' =>
                { r' with
                  chansMade := r'.chansMade + 1
                  pendingCommit := r'.pendingCommit.insert r.log.len r'.chansMade },
                .unlock]]]

def changeConfig (nodeAddr : String) (add : Bool) : Program :=
  locked (node fun r => r.changeConfig nodeAddr add)

def addNode (nodeAddr : String) : Program :=
  plain
    [.lock, onNode .branch fun r =>
      match r.addNode nodeAddr with
      | .error _ => .block [.unlock, .ret]
      | .ok _ => .block [.unlock, changeConfig nodeAddr true]]

def removeNode (nodeAddr : String) : Program :=
  plain
    [.lock, onNode .branch fun r =>
      match r.removeNode nodeAddr with
      | .error _ => .block [.unlock, .ret]
      | .ok _ => .block [.unlock, changeConfig nodeAddr false]]

def appendStableConfig : Program :=
  plain
    [.lock, onNode .branch fun r =>
      if r.state ≠ .leader ∨ r.configState ≠ .joint then .block [.unlock, .ret]
      else .block [node RaftNode.appendStableConfig, .unlock]]

def requestVote (args : RequestVoteArgs) : Program :=
  locked (node fun r => (r.requestVote args).1)

def appendEntries (args : AppendEntriesArgs) : Program :=
  locked <| onNode .branch fun r =>
    if args.term < r.currentTerm then .ret
    else
      .seq (node fun r => r.observeTerm args.term) <|
        onNode .branch fun r =>
          if args.prevLogIndex ≥ r.log.len then .ret
          else if args.prevLogIndex > 0 ∧ r.termAt args.prevLogIndex ≠ args.prevLogTerm then .ret
          else
            .block [node fun r =>
                { r with log := r.log.splice LogEntry.term (args.prevLogIndex + 1) args.entries },
              onNode (.followerCommit args.leaderCommit) fun r =>
                if args.leaderCommit > r.commitIndex then
                  .seq (node fun r =>
                      { r with commitIndex := min args.leaderCommit (r.log.len - 1) })
                    applyCommittedEntries
                else .skip,
              node RaftNode.saveState]

def installSnapshot (args : InstallSnapshotArgs) : Program :=
  locked (node fun r => (r.installSnapshot args).1)

def createSnapshot : Program := rlocked .skip

def sendSnapshot (peerAddr : String) : Program :=
  plain
    [.lock, onNode .snapshotLeader fun r =>
      if r.state ≠ .leader then .block [.unlock, .ret]
      else
        .block [createSnapshot, .unlock, getClient peerAddr, .input .network fun a =>
          locked (node fun r' =>
            r'.handleSnapshotReply { id := 0, peer := peerAddr, lastIndex := r.lastIndex }
              a.snapshotReply)]]

end Locks

/-- The operations that run in a goroutine of their own. -/
inductive Operation where
  | run
  | getQuorumSize
  | getISRSize
  | getConfigSize
  | getState
  | voteGoroutine (id : ℕ) (peerAddr : String)
  | electionGoroutine (id : ℕ)
  | checkISR
  | sendAppendEntries (peerAddr : String)
  | applyCommittedEntries
  | submitCommand (topic : String) (partition : ℤ) (data : List UInt8)
  | addNode (nodeAddr : String)
  | removeNode (nodeAddr : String)
  | appendStableConfig
  | requestVote (args : RequestVoteArgs)
  | appendEntries (args : AppendEntriesArgs)
  | installSnapshot (args : InstallSnapshotArgs)
  | sendSnapshot (peerAddr : String)

namespace Locks

variable [GrowthPolicy]

def program : Operation → Program
  | .run => run
  | .getQuorumSize => getQuorumSize
  | .getISRSize => getISRSize
  | .getConfigSize => getConfigSize
  | .getState => getState
  | .voteGoroutine id peerAddr => voteGoroutine id peerAddr
  | .electionGoroutine id => electionGoroutine id
  | .checkISR => checkISR
  | .sendAppendEntries peerAddr => sendAppendEntries peerAddr
  | .applyCommittedEntries => applyCommittedEntries
  | .submitCommand topic partition data => submitCommand topic partition data
  | .addNode nodeAddr => addNode nodeAddr
  | .removeNode nodeAddr => removeNode nodeAddr
  | .appendStableConfig => appendStableConfig
  | .requestVote args => requestVote args
  | .appendEntries args => appendEntries args
  | .installSnapshot args => installSnapshot args
  | .sendSnapshot peerAddr => sendSnapshot peerAddr

omit [GrowthPolicy] in
/-- **The condition**: a command is submitted to a leader with peers, a follower
never learns of a commit, no leader sends a snapshot, and `stopCh` is not taken
in the middle of the apply loop. -/
def avoids : Assumption Shared Answer Site where
  onGet site s :=
    match site with
    | .submitPeers => s.proc.node.peers.keys ≠ []
    | .followerCommit leaderCommit => leaderCommit ≤ s.proc.node.commitIndex
    | .snapshotLeader => s.proc.node.state ≠ .leader
    | _ => True
  onInput site a :=
    match site with
    | .applySelect => a.select ≠ .stopCh
    | _ => True

/-! ### The programs keep the discipline -/

section rules

variable {post onRet : Held → Prop} {h : Held}

omit [GrowthPolicy]

@[simp] theorem wp_node (f : RaftNode → RaftNode) :
    (node f).wp avoids h post onRet ↔ post h := Iff.rfl

@[simp] theorem wp_onNode (site : Site) (k : RaftNode → Program) :
    (onNode site k).wp avoids h post onRet ↔
      ∀ s, avoids.onGet site s → (k s.proc.node).wp avoids h post onRet := Iff.rfl

/-- A function that starts by taking the lock and defers its release is called
without the lock and returns without it. -/
@[simp] theorem wp_locked (body : Program) :
    (locked body).wp avoids h post onRet ↔
      h = .none ∧ body.wp avoids .exclusive (fun h' => h' = .exclusive ∧ post .none)
        fun h' => h' = .exclusive ∧ post .none := Iff.rfl

@[simp] theorem wp_rlocked (body : Program) :
    (rlocked body).wp avoids h post onRet ↔
      h = .none ∧ body.wp avoids .shared (fun h' => h' = .shared ∧ post .none)
        fun h' => h' = .shared ∧ post .none := Iff.rfl

/-- A function without a deferred part goes on where it ends or returns. -/
@[simp] theorem wp_plain (body : List Program) :
    (plain body).wp avoids h post onRet ↔ (Prog.block body).wp avoids h post post := Iff.rfl

end rules

@[simp] theorem wp_event (ev : Event) {post onRet : Held → Prop} {h : Held} :
    (event ev).wp avoids h post onRet ↔ post h := Iff.rfl

omit [GrowthPolicy] in
theorem wp_getClient (peerAddr : String) {post onRet : Held → Prop} (hpost : post .none) :
    (getClient peerAddr).wp avoids .none post onRet := by
  simp only [getClient, wp_plain, Prog.wp_block_cons, Prog.wp_lock, Prog.wp_get, true_and]
  intro s _
  split
  · simp [hpost]
  · simp only [Prog.wp_block_cons, Prog.wp_unlock, Prog.wp_input, true_and]
    intro a _
    split
    · simp only [Prog.wp_block_cons, Prog.wp_lock, Prog.wp_get, true_and]
      intro s' _
      split
      · simp [hpost]
      · simp [hpost]
    · exact hpost

omit [GrowthPolicy] in
theorem wp_applyCommittedEntries {post onRet : Held → Prop} (hpost : post .none) :
    applyCommittedEntries.wp avoids .none post onRet := by
  simp only [applyCommittedEntries, wp_locked, Prog.wp_loop, wp_onNode, Prog.wp_seq, wp_node,
    true_and]
  refine ⟨hpost, fun s _ => ?_⟩
  split
  · exact ⟨rfl, hpost⟩
  · split
    · simp
    · split
      · simp only [Prog.wp_block_cons, Prog.wp_unlock, Prog.wp_input, true_and]
        intro a hsent
        rw [if_neg (by exact hsent)]
        simp
      · simp

theorem wp_run : run.wp avoids .none (fun _ => True) fun _ => True := by
  simp only [run, wp_plain, Prog.wp_block_cons, Prog.wp_loop, Prog.wp_input, Prog.wp_block_nil,
    true_and]
  intro a _
  split
  · simp
  · simp only [Prog.wp_block_cons, Prog.wp_lock, wp_onNode, true_and]
    intro s _
    split <;> simp
  · simp
  · simp

theorem wp_voteGoroutine (id : ℕ) (peerAddr : String) :
    (voteGoroutine id peerAddr).wp avoids .none (fun _ => True) fun _ => True := by
  simp only [voteGoroutine, wp_plain, Prog.wp_block_cons]
  refine wp_getClient peerAddr ?_
  simp only [Prog.wp_input, Prog.wp_block_cons, Prog.wp_lock, wp_onNode, true_and]
  intro a _ s _
  split <;> simp

omit [GrowthPolicy] in
theorem wp_checkISR : checkISR.wp avoids .none (fun _ => True) fun _ => True := by
  simp only [checkISR, wp_locked, wp_onNode, true_and]
  intro s _
  split <;> simp

omit [GrowthPolicy] in
theorem wp_sendAppendEntries (peerAddr : String) :
    (sendAppendEntries peerAddr).wp avoids .none (fun _ => True) fun _ => True := by
  simp only [sendAppendEntries, wp_plain, Prog.wp_block_cons, Prog.wp_lock, wp_onNode, true_and]
  intro s _
  split
  · simp
  · simp only [Prog.wp_seq, wp_node]
    split
    · simp only [Prog.wp_block_cons, Prog.wp_unlock, true_and]
      refine wp_getClient peerAddr ?_
      simp
    · simp
    · simp
    · simp

theorem wp_submitCommand (topic : String) (partition : ℤ) (data : List UInt8) :
    (submitCommand topic partition data).wp avoids .none (fun _ => True) fun _ => True := by
  simp only [submitCommand, wp_plain, Prog.wp_block_cons, Prog.wp_lock, wp_onNode, true_and]
  intro s _
  split
  · simp
  · simp only [Prog.wp_block_cons, wp_node, wp_onNode]
    intro s' hpeers
    rw [if_neg (by exact hpeers)]
    simp

/-- `AddNode` and `RemoveNode`: the checks release the lock, and `changeConfig`
takes it anew. -/
theorem wp_checked (check : RaftNode → Except String Unit) (nodeAddr : String) (add : Bool) :
    (plain [.lock, onNode .branch fun r =>
      match check r with
      | .error _ => .block [.unlock, .ret]
      | .ok _ => .block [.unlock, changeConfig nodeAddr add]]).wp avoids .none
        (fun _ => True) fun _ => True := by
  simp only [wp_plain, Prog.wp_block_cons, Prog.wp_lock, wp_onNode, true_and]
  intro s _
  split
  · simp
  · simp [changeConfig]

theorem wp_appendStableConfig :
    appendStableConfig.wp avoids .none (fun _ => True) fun _ => True := by
  simp only [appendStableConfig, wp_plain, Prog.wp_block_cons, Prog.wp_lock, wp_onNode, true_and]
  intro s _
  split <;> simp

theorem wp_appendEntries (args : AppendEntriesArgs) :
    (appendEntries args).wp avoids .none (fun _ => True) fun _ => True := by
  simp only [appendEntries, wp_locked, wp_onNode, true_and]
  intro s _
  split
  · simp
  · simp only [Prog.wp_seq, wp_node, wp_onNode]
    intro s' _
    split
    · simp
    · split
      · simp
      · simp only [Prog.wp_block_cons, wp_node, wp_onNode]
        intro s'' hcommit
        rw [if_neg (by exact Nat.not_lt.mpr hcommit)]
        simp

omit [GrowthPolicy] in
theorem wp_sendSnapshot (peerAddr : String) :
    (sendSnapshot peerAddr).wp avoids .none (fun _ => True) fun _ => True := by
  simp only [sendSnapshot, wp_plain, Prog.wp_block_cons, Prog.wp_lock, wp_onNode, true_and]
  intro s hfollower
  rw [if_pos (by exact hfollower)]
  simp

/-- **Every operation** keeps the lock discipline, under the condition. -/
theorem wp_program (op : Operation) :
    (program op).wp avoids .none (fun _ => True) fun _ => True := by
  cases op with
  | run => exact wp_run
  | getQuorumSize => simp [program, getQuorumSize]
  | getISRSize => simp [program, getISRSize]
  | getConfigSize => simp [program, getConfigSize]
  | getState => simp [program, getState]
  | voteGoroutine id peerAddr => exact wp_voteGoroutine id peerAddr
  | electionGoroutine id => simp [program, electionGoroutine]
  | checkISR => exact wp_checkISR
  | sendAppendEntries peerAddr => exact wp_sendAppendEntries peerAddr
  | applyCommittedEntries => exact wp_applyCommittedEntries trivial
  | submitCommand topic partition data => exact wp_submitCommand topic partition data
  | addNode nodeAddr => exact wp_checked (fun r => r.addNode nodeAddr) nodeAddr true
  | removeNode nodeAddr => exact wp_checked (fun r => r.removeNode nodeAddr) nodeAddr false
  | appendStableConfig => exact wp_appendStableConfig
  | requestVote args => simp [program, requestVote]
  | appendEntries args => exact wp_appendEntries args
  | installSnapshot args => simp [program, installSnapshot]
  | sendSnapshot peerAddr => exact wp_sendSnapshot peerAddr

end Locks

open Locks in
/-- **Condition on a run**: where every command is submitted to a leader with
peers, no follower learns of a commit, no leader sends a snapshot and `stopCh`
is not taken in the middle of the apply loop, no goroutine acquires `r.mu` while
it holds it and none releases it without holding it. -/
theorem lock_discipline [GrowthPolicy] {s : Shared} {w : World Shared Answer Site}
    (hrun : Run (World.step program) (Allowed avoids) ⟨s, []⟩ w) :
    ∀ t ∈ w.threads, t.disciplined = true :=
  disciplined_of_run wp_program hrun

namespace Locks

instance (site : Site) (s : Shared) : Decidable (avoids.onGet site s) := by
  cases site <;> unfold avoids <;> infer_instance

instance (site : Site) (a : Answer) : Decidable (avoids.onInput site a) := by
  cases site <;> unfold avoids <;> infer_instance

end Locks

section traces

open scoped GrowthPolicy
open Locks

/-- A request with one entry, committed up to `leaderCommit`. -/
def oneEntry (leaderCommit : ℕ) : Operation :=
  .appendEntries
    { term := 1, leaderId := "b", prevLogIndex := 0, prevLogTerm := 0,
      entries := [{ term := 1, index := 1 }], leaderCommit := leaderCommit }

/-- A follower takes an entry it does not yet know to be committed. -/
theorem lock_discipline_follower :
    ∃ w : World Shared Answer Site,
      Run (World.step program) (Allowed avoids) ⟨⟨.boot "a" ["b"] "data" {}, []⟩, []⟩ w ∧
        w.shared.proc.node.log.len = 2 ∧ ∀ t ∈ w.threads, t.disciplined = true := by
  have htrace : ∃ w : World Shared Answer Site,
      Run (World.step program) (Allowed avoids) ⟨⟨.boot "a" ["b"] "data" {}, []⟩, []⟩ w ∧
        w.shared.proc.node.log.len = 2 :=
    exists_run_of_execWith (.spawn (oneEntry 0) :: List.replicate 17 (.step 0 {}))
      (by decide +kernel)
  obtain ⟨w, hrun, hlen⟩ := htrace
  exact ⟨w, hrun, hlen, lock_discipline hrun⟩

/-- A node without peers whose election timer has fired: it leads. -/
def loneLeader : Shared := ⟨(Proc.boot "a" [] "data" {}).startElection.1, []⟩

/-- A node with one peer, which has given it its vote. -/
def leaderOfTwo : Shared :=
  let p := Proc.boot "a" ["b"] "data" {}
  ⟨(execWith Proc.next (fun _ _ _ => True) p
    [.electionTimeout, .voteReply 0 "b" { term := 1, voteGranted := true }]).getD p, []⟩

/-- The disk of a node with a committed entry that it has not applied yet. -/
def unappliedDisk : Disk :=
  let saved := Cluster.savedDisk ["a", "b"] 1 1 [{ term := 1, index := 1 }]
  { saved with stateFile := saved.stateFile.map fun state => { state with lastApplied := 0 } }

/-- One operation in a goroutine of its own. -/
def alone (s : Shared) (op : Operation) : World Shared Answer Site :=
  ⟨s, [⟨.none, [.run (program op)]⟩]⟩

/-- **The four places.** A lone leader that is given a command, a follower that
learns of a commit and a leader that sends a snapshot reach an acquisition of the
lock with the lock held; a node stopped while it hands out an entry reaches its
deferred release without the lock. -/
theorem discipline_broken :
    (∃ w, Run (World.step program) (fun _ _ _ => True)
        (alone loneLeader (.submitCommand "t" 0 [1])) w ∧
      ∃ t ∈ w.threads, t.held = .exclusive ∧ t.disciplined = false) ∧
    (∃ w, Run (World.step program) (fun _ _ _ => True)
        (alone ⟨.boot "a" ["b"] "data" {}, []⟩ (oneEntry 1)) w ∧
      ∃ t ∈ w.threads, t.held = .exclusive ∧ t.disciplined = false) ∧
    (∃ w, Run (World.step program) (fun _ _ _ => True)
        (alone leaderOfTwo (.sendSnapshot "b")) w ∧
      ∃ t ∈ w.threads, t.held = .exclusive ∧ t.disciplined = false) ∧
    (∃ w, Run (World.step program) (fun _ _ _ => True)
        (alone ⟨.boot "a" ["b"] "data" unappliedDisk, []⟩ .applyCommittedEntries) w ∧
      ∃ t ∈ w.threads, t.held = .none ∧ t.disciplined = false) :=
  ⟨exists_run_of_execWith (List.replicate 14 (.step 0 {})) (by decide +kernel),
    exists_run_of_execWith (List.replicate 15 (.step 0 {})) (by decide +kernel),
    exists_run_of_execWith (List.replicate 8 (.step 0 {})) (by decide +kernel),
    exists_run_of_execWith (List.replicate 12 (.step 0 { select := .stopCh })) (by decide +kernel)⟩

end traces

end DistributedMQ.Raft
